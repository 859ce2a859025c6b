import Mathlib
import ObjectPath.Member.Naming

/-!
# Names of properties

A getter and a setter meet in one property if what follows their words is the same: the word for the
role is taken off whatever stands behind it, and the name of the property is made of the rest
(`Naming.split_append`).

Among names in ASCII two methods with one word are for the same property only if one of them has an
underscore in front of the name and the other a capital.  The capital that was made small is not
lost, and a name that keeps its two capitals is not the small form of another one
(`Naming.decapitalize_injective`).  The laws are put together in `Naming.Convention`.
-/

namespace ObjectPath

/-! ## Letters of ASCII -/

namespace Text

/-- Whether all characters of a text are in ASCII. -/
def IsAscii (s : String) : Prop := ∀ c ∈ s.toList, c.toNat < 128

/-- The capitals of ASCII. -/
def asciiCapitals : CaseRun := ⟨0x41, 0x5A, 1, 32⟩

variable {c d : Char}

theorem CaseRun.holds_of_lt {r : CaseRun} {n : Nat} (h : n < r.first) : r.holds n = false := by
  have hfirst : decide (r.first ≤ n) = false := decide_eq_false (Nat.not_le.2 h)
  simp only [CaseRun.holds, hfirst, Bool.false_and]

theorem isUpper_iff : c.isUpper = true ↔ 65 ≤ c.toNat ∧ c.toNat ≤ 90 := by
  simp only [Char.isUpper, decide_eq_true_eq, ge_iff_le, UInt32.le_iff_toNat_le]
  exact Iff.rfl

theorem holds_asciiCapitals (c : Char) : asciiCapitals.holds c.toNat = c.isUpper := by
  rw [Bool.eq_iff_iff, isUpper_iff]
  show (decide (65 ≤ c.toNat) && decide (c.toNat ≤ 90) && (c.toNat - 65) % 1 == 0) = true ↔ _
  simp only [Nat.mod_one, BEq.rfl, Bool.and_true, Bool.and_eq_true, decide_eq_true_eq]

set_option maxRecDepth 10000 in
/-- In ASCII the capitals are the upper case letters. -/
theorem isUppercase_of_ascii (h : c.toNat < 128) : isUppercase c = c.isUpper := by
  -- All runs but the first one begin behind ASCII.
  have hbehind : ∀ r ∈ uppercaseRuns.tail, 128 ≤ r.first := by decide
  have hnone : uppercaseRuns.tail.any (·.holds c.toNat) = false :=
    List.any_eq_false.2 fun r hr =>
      Bool.not_eq_true _ ▸ CaseRun.holds_of_lt (Nat.lt_of_lt_of_le h (hbehind r hr))
  show (asciiCapitals :: uppercaseRuns.tail).any (·.holds c.toNat) = c.isUpper
  rw [List.any_cons, hnone, Bool.or_false, holds_asciiCapitals]

theorem isUppercase_of_isUpper (h : c.isUpper = true) : isUppercase c = true := by
  have := isUpper_iff.1 h
  rw [isUppercase_of_ascii (by omega), h]

/-- The lower case of a capital of ASCII is the small letter. -/
theorem lowercase_of_isUpper (h : c.isUpper = true) : lowercase c = [c.toLower] := by
  have hrange := isUpper_iff.1 h
  have hdotted : c ≠ '\u0130' := by
    rintro rfl
    exact absurd hrange.2 (by decide)
  have hfind : (uppercaseRuns ++ titlecaseRuns).find? (·.holds c.toNat) = some asciiCapitals :=
    List.find?_cons_of_pos ((holds_asciiCapitals c).trans h)
  rw [lowercase, if_neg hdotted, hfind, Char.toLower_eq_of_isUpper h]
  rfl

/-- A capital of ASCII is known from its small letter. -/
theorem toLower_inj (hc : c.isUpper = true) (hd : d.isUpper = true)
    (h : c.toLower = d.toLower) : c = d := by
  have hupper := congrArg Char.toUpper h
  rwa [Char.toUpper_toLower_eq_toUpper, Char.toUpper_toLower_eq_toUpper,
    Char.toUpper_eq_of_not_isLower (Char.not_isLower_of_isUpper hc),
    Char.toUpper_eq_of_not_isLower (Char.not_isLower_of_isUpper hd)] at hupper

theorem isUpper_toUpper (h : c.isLower = true) : c.toUpper.isUpper = true := by
  rw [Char.isUpper_toUpper_eq_isAlpha, Char.isAlpha, h, Bool.or_true]

theorem IsAscii.of_append {s t : String} (h : IsAscii (s ++ t)) : IsAscii t := fun c hc =>
  h c (by rw [String.toList_append]; exact List.mem_append_right _ hc)

theorem lowercase_ne_nil (c : Char) : lowercase c ≠ [] := by
  unfold lowercase
  split
  · exact List.cons_ne_nil _ _
  · split <;> exact List.cons_ne_nil _ _

end Text

/-- The word for a role in the name of a method. -/
def Role.word : Role → String
  | .get => "get"
  | .is => "is"
  | .set => "set"

namespace Naming

open Text

variable {role : Role} {c d : Char} {cs ds n : List Char}

/-! ## Names of properties -/

/-- A name whose second letter is a capital too is kept as it is. -/
theorem decapitalize_of_two (hd : isUppercase d = true) :
    decapitalize (c :: d :: cs) = c :: d :: cs := by
  simp only [decapitalize, hd, if_true]

theorem decapitalize_of_one (hcs : ∀ d ∈ cs.head?, isUppercase d = false) :
    decapitalize (c :: cs) = lowercase c ++ cs := by
  cases cs with
  | nil => exact (List.append_nil _).symm
  | cons d cs =>
    have hd : isUppercase d = false := hcs d rfl
    simp only [decapitalize, hd, Bool.false_eq_true, if_false]

theorem decapitalize_ne_nil (c : Char) (cs : List Char) : decapitalize (c :: cs) ≠ [] := by
  cases cs with
  | nil => exact lowercase_ne_nil c
  | cons d cs =>
    simp only [decapitalize]
    split
    · exact List.cons_ne_nil _ _
    · exact List.append_ne_nil_of_left_ne_nil (lowercase_ne_nil c) _

/-- A name is kept, or its first letter becomes the small one. -/
theorem decapitalize_cases (hc : c.isUpper = true) (cs : List Char) :
    decapitalize (c :: cs) = c :: cs ∨ decapitalize (c :: cs) = c.toLower :: cs := by
  rcases cs with - | ⟨d, cs⟩
  · exact .inr (lowercase_of_isUpper hc)
  · cases hd : isUppercase d with
    | true => exact .inl (decapitalize_of_two hd)
    | false =>
      have hcs : ∀ e ∈ (d :: cs).head?, isUppercase e = false := by
        rintro e ⟨⟩
        exact hd
      exact .inr (by rw [decapitalize_of_one hcs, lowercase_of_isUpper hc, List.singleton_append])

/-- Names that begin with capitals of ASCII do not collide when they are decapitalized: a capital
that was kept is no small letter. -/
theorem decapitalize_injective (hc : c.isUpper = true) (hd : d.isUpper = true)
    (h : decapitalize (c :: cs) = decapitalize (d :: ds)) : c :: cs = d :: ds := by
  have hsmall : ∀ {a b : Char} {as bs : List Char}, a.isUpper = true →
      a :: as ≠ b.toLower :: bs := by
    intro a b as bs ha heq
    rw [(List.cons.inj heq).1, Char.isUpper_toLower_eq_false] at ha
    cases ha
  rcases decapitalize_cases hc cs with hkept | hmade <;>
    rcases decapitalize_cases hd ds with hkept' | hmade'
  · rw [← hkept, h, hkept']
  · exact absurd (hkept.symm.trans (h.trans hmade')) (hsmall hc)
  · exact absurd (hkept'.symm.trans (h.symm.trans hmade)) (hsmall hd)
  · obtain ⟨hletter, htail⟩ := List.cons.inj (hmade.symm.trans (h.trans hmade'))
    rw [toLower_inj hc hd hletter, htail]

theorem property?_capital (hc : isUppercase c = true) (cs : List Char) :
    property? (c :: cs) = some (decapitalize (c :: cs)) := by
  have hne : c ≠ '_' := by
    rintro rfl
    exact absurd hc (by decide)
  simp only [property?, if_neg hne, hc, if_true]

/-- What follows the word of an accessor is an underscore and the name, or begins with a capital. -/
theorem property?_eq_some (h : property? cs = some n) :
    n ≠ [] ∧ (cs = '_' :: n ∨
      ∃ c ds, cs = c :: ds ∧ isUppercase c = true ∧ n = decapitalize (c :: ds)) := by
  cases cs with
  | nil => cases h
  | cons c cs =>
    simp only [property?] at h
    split at h
    · next hc =>
      subst hc
      split at h
      · cases h
      · next hne =>
        cases h
        exact ⟨fun hnil => hne (List.isEmpty_iff.2 hnil), .inl rfl⟩
    · split at h
      · next hc =>
        cases h
        exact ⟨decapitalize_ne_nil c cs, .inr ⟨c, cs, rfl, hc, rfl⟩⟩
      · cases h

/-! ## Names of methods -/

/-- The word for a role is taken off, and the rest names the property. -/
theorem split_append (role : Role) (rest : String) :
    split (role.word ++ rest) =
      (property? rest.toList).map fun n => (role, String.ofList n) := by
  have hword : splitChars (role.word.toList ++ rest.toList) =
      (property? rest.toList).map fun n => (role, n) := by
    cases role <;> rfl
  rw [split, String.toList_append, hword, Option.map_map]
  rfl

theorem split_append_ofList (role : Role) (cs : List Char) :
    split (role.word ++ String.ofList cs) =
      (property? cs).map fun n => (role, String.ofList n) := by
  rw [split_append, String.toList_ofList]

/-- Only a name with the word for a role is the name of an accessor in that role. -/
theorem exists_word_of_split {method name : String} (h : split method = some (role, name)) :
    ∃ rest, method = role.word ++ rest ∧ property? rest.toList = some name.toList := by
  obtain ⟨⟨r, n⟩, hsplit, heq⟩ := Option.map_eq_some_iff.1 h
  obtain ⟨rfl, rfl⟩ := Prod.mk.inj heq
  have hpair {q : Role} {cs : List Char}
      (h : ((property? cs).map fun n => (q, n)) = some (r, n)) : q = r ∧ property? cs = some n := by
    obtain ⟨n', hn', heq⟩ := Option.map_eq_some_iff.1 h
    cases heq
    exact ⟨rfl, hn'⟩
  have hmade : ∃ cs, method.toList = r.word.toList ++ cs ∧ property? cs = some n := by
    unfold splitChars at hsplit
    split at hsplit
    · next cs hchars =>
      obtain ⟨rfl, hn⟩ := hpair hsplit
      exact ⟨cs, hchars, hn⟩
    · next cs hchars =>
      obtain ⟨rfl, hn⟩ := hpair hsplit
      exact ⟨cs, hchars, hn⟩
    · next cs hchars =>
      obtain ⟨rfl, hn⟩ := hpair hsplit
      exact ⟨cs, hchars, hn⟩
    · cases hsplit
  obtain ⟨cs, hchars, hn⟩ := hmade
  refine ⟨String.ofList cs, ?_, ?_⟩
  · rw [← String.toList_inj, hchars, String.toList_append, String.toList_ofList]
  · rw [String.toList_ofList, String.toList_ofList, hn]

/-- Behind the word the name is written as it is, with an underscore in front. -/
def IsVerbatim (rest : String) : Prop := ∃ n, rest = "_" ++ n

/-- Behind the word the name is written with a capital of ASCII. -/
def IsCapitalized (rest : String) : Prop :=
  ∃ c cs, rest = String.ofList (c :: cs) ∧ c.isUpper = true

/-- In ASCII, what follows the word is one of the two, and made of the name alone. -/
theorem verbatim_or_capitalized {rest : String} (hascii : IsAscii rest)
    (h : property? rest.toList = some n) :
    rest.toList = '_' :: n ∧ IsVerbatim rest ∨
      ∃ c cs, rest.toList = c :: cs ∧ c.isUpper = true ∧ n = decapitalize (c :: cs) ∧
        IsCapitalized rest := by
  rcases (property?_eq_some h).2 with hrest | ⟨c, cs, hrest, hc, hn⟩
  · refine .inl ⟨hrest, String.ofList n, ?_⟩
    rw [← String.toList_inj, hrest, String.toList_append, String.toList_ofList (l := n)]
    rfl
  · have hupper : c.isUpper = true := by
      rw [← isUppercase_of_ascii (hascii c (hrest ▸ List.mem_cons_self)), hc]
    refine .inr ⟨c, cs, hrest, hupper, hn, c, cs, ?_, hupper⟩
    rw [← hrest, String.ofList_toList]

/-- Two rests in ASCII for one name differ only in the way in which they are written. -/
theorem written_apart {rest rest' : String} (hascii : IsAscii rest) (hascii' : IsAscii rest')
    (hne : rest ≠ rest') (h : property? rest.toList = some n)
    (h' : property? rest'.toList = some n) :
    IsVerbatim rest ∧ IsCapitalized rest' ∨ IsCapitalized rest ∧ IsVerbatim rest' := by
  have hne : rest.toList ≠ rest'.toList := fun heq => hne (String.toList_inj.1 heq)
  rcases verbatim_or_capitalized hascii h with ⟨hrest, hv⟩ | ⟨c, cs, hrest, hc, hn, hcap⟩ <;>
    rcases verbatim_or_capitalized hascii' h' with ⟨hrest', hv'⟩ | ⟨d, ds, hrest', hd, hn', hcap'⟩
  · exact absurd (hrest.trans hrest'.symm) hne
  · exact .inl ⟨hv, hcap'⟩
  · exact .inr ⟨hcap, hv'⟩
  · rw [hrest, hrest'] at hne
    exact absurd (decapitalize_injective hc hd (hn.symm.trans hn')) hne

/-- The name of a property is found again behind its capital. -/
theorem decapitalize_toUpper (hc : c.isLower = true) (hcs : ∀ d ∈ cs.head?, isUppercase d = false) :
    decapitalize (c.toUpper :: cs) = c :: cs := by
  rw [decapitalize_of_one hcs, lowercase_of_isUpper (isUpper_toUpper hc), Char.toLower_toUpper_eq_toLower,
    Char.toLower_eq_of_not_isUpper (Char.not_isUpper_of_isLower hc), List.singleton_append]

/-- What the names of methods say of properties: each property is named in every role in the same
way, and in ASCII in two ways at most. -/
structure Convention (names : String → Option (Role × String)) : Prop where
  paired : ∀ rest, (∀ r : Role, names (r.word ++ rest) = none) ∨
    ∃ n, n ≠ "" ∧ ∀ r : Role, names (r.word ++ rest) = some (r, n)
  verbatim : ∀ (r : Role) n, n ≠ "" → names (r.word ++ ("_" ++ n)) = some (r, n)
  apart : ∀ (r : Role) m m' n, IsAscii m → IsAscii m' → m ≠ m' →
    names m = some (r, n) → names m' = some (r, n) →
      ∃ rest rest', m = r.word ++ rest ∧ m' = r.word ++ rest' ∧
        (IsVerbatim rest ∧ IsCapitalized rest' ∨ IsCapitalized rest ∧ IsVerbatim rest')
  capitalized : ∀ (r : Role) c cs, IsAscii (String.ofList (c :: cs)) → c.isLower = true →
    (∀ d ∈ cs.head?, d.isUpper = false) →
      names (r.word ++ String.ofList (c.toUpper :: cs)) = some (r, String.ofList (c :: cs))
  kept : ∀ (r : Role) c d cs, isUppercase c = true → isUppercase d = true →
    names (r.word ++ String.ofList (c :: d :: cs)) = some (r, String.ofList (c :: d :: cs))

/-- The names of accessors are those of the convention. -/
theorem convention_split : Convention split where
  paired rest := by
    cases hn : property? rest.toList with
    | none => exact .inl fun r => by rw [split_append, hn]; rfl
    | some n =>
      refine .inr ⟨String.ofList n, fun hnil => (property?_eq_some hn).1 ?_, fun r => ?_⟩
      · rw [← String.toList_ofList (l := n), hnil]
        rfl
      · rw [split_append, hn]
        rfl
  verbatim r n hne := by
    have hnil : n.toList.isEmpty = false := by
      rw [List.isEmpty_eq_false_iff]
      exact fun hnil => hne (String.toList_inj.1 hnil)
    have hn : property? ("_" ++ n).toList = some n.toList := by
      rw [String.toList_append]
      show (if n.toList.isEmpty then none else some n.toList) = some n.toList
      rw [hnil, if_neg Bool.false_ne_true]
    rw [split_append, hn, Option.map_some, String.ofList_toList]
  apart r m m' n hascii hascii' hne h h' := by
    obtain ⟨rest, rfl, hrest⟩ := exists_word_of_split h
    obtain ⟨rest', rfl, hrest'⟩ := exists_word_of_split h'
    refine ⟨rest, rest', rfl, rfl, written_apart ?_ ?_ (fun heq => hne (heq ▸ rfl)) hrest hrest'⟩
    · exact hascii.of_append
    · exact hascii'.of_append
  capitalized r c cs hascii hc hcs := by
    have hcs : ∀ d ∈ cs.head?, isUppercase d = false := fun d hd => by
      rw [isUppercase_of_ascii, hcs d hd]
      exact hascii d (by
        rw [String.toList_ofList]
        exact List.mem_cons_of_mem _ (List.mem_of_mem_head? hd))
    rw [split_append_ofList, property?_capital (isUppercase_of_isUpper (isUpper_toUpper hc)),
      decapitalize_toUpper hc hcs, Option.map_some]
  kept r c d cs hc hd := by
    rw [split_append_ofList, property?_capital hc, decapitalize_of_two hd, Option.map_some]

/-- Two ways to write the getter of one property, and the setter of another one. -/
theorem convention_split_url :
    split "get_URL" = some (.get, "URL") ∧ split "getURL" = some (.get, "URL") ∧
      split "setName" = some (.set, "name") :=
  ⟨convention_split.verbatim .get "URL" (by decide),
    convention_split.kept .get 'U' 'R' ['L'] (isUppercase_of_isUpper rfl)
      (isUppercase_of_isUpper rfl),
    convention_split.capitalized .set 'n' ['a', 'm', 'e']
      (by simp [IsAscii]) rfl (by rintro d ⟨⟩; rfl)⟩

end Naming

end ObjectPath
