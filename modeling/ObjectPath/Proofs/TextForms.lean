import ObjectPath.Proofs.Typing

/-!
# Texts that are read back

The text of a Boolean, a character, a text or an integer is read as the value it was written for, by
the converter that the standard registry has for the type (`Registry.exists_standard`).  An integer
is written without a sign or with `-` in front, and its digits are read from left to right: what has
been read is never farther from zero than the number, so no digit leaves the range of the type
(`IntTy.read_write`).

The converters of the standard registry give values of their types (`Registry.typed_standard`).
-/

namespace ObjectPath

/-! ## Blanks around a text -/

namespace Text

theorem dropWhile_of_no_blank {cs : List Char} (h : ∀ c ∈ cs, isBlank c = false) :
    cs.dropWhile isBlank = cs := by
  cases cs with
  | nil => rfl
  | cons c cs => rw [List.dropWhile_cons, h c List.mem_cons_self]; rfl

/-- A text without blanks is not trimmed. -/
theorem trim_of_no_blank {s : String} (h : ∀ c ∈ s.toList, isBlank c = false) : trim s = s := by
  rw [trim, trimChars, trimEnd, dropWhile_of_no_blank h,
    dropWhile_of_no_blank fun c hc => h c (List.mem_reverse.1 hc), List.reverse_reverse,
    String.ofList_toList]

theorem isBlank_of_isDigit {c : Char} (h : c.isDigit = true) : isBlank c = false := by
  simp only [Char.isDigit, Bool.and_eq_true, decide_eq_true_eq] at h
  have hlow : 48 ≤ c.toNat := h.1
  have hhigh : c.toNat ≤ 57 := h.2
  simp only [isBlank, Bool.or_eq_false_iff, Bool.and_eq_false_iff, decide_eq_false_iff_not,
    beq_eq_false_iff_ne]
  omega

end Text

/-! ## Integers -/

namespace IntTy

variable {t : IntTy} {n : Int}

theorem holds_zero (t : IntTy) : t.Holds 0 := by
  cases t <;> exact ⟨by decide, by decide⟩

/-- The number of some digits, on one side of zero. -/
def side (negative : Bool) (n : Nat) : Int := if negative then -(n : Int) else n

/-- Reading on never comes closer to zero. -/
theorem le_ofDigitChars (cs : List Char) : ∀ m : Nat, m ≤ Nat.ofDigitChars 10 cs m := by
  induction cs with
  | nil => intro m; exact Nat.le_refl m
  | cons c cs ih =>
    intro m
    rw [Nat.ofDigitChars_cons]
    have h := ih (10 * m + (c.toNat - '0'.toNat))
    omega

/-- Digits are read as their number if the type holds it: by induction on the digits, since no
number on the way is farther from zero. -/
theorem readDigits_side (negative : Bool) (cs : List Char) (hcs : ∀ c ∈ cs, c.isDigit = true) :
    ∀ m : Nat, t.Holds (side negative (Nat.ofDigitChars 10 cs m)) →
      t.readDigits negative (side negative m) cs =
        .ok (side negative (Nat.ofDigitChars 10 cs m)) := by
  induction cs with
  | nil => intro m _; rfl
  | cons c cs ih =>
    intro m hn
    obtain ⟨hc, hcs⟩ := List.forall_mem_cons.1 hcs
    rw [Nat.ofDigitChars_cons] at hn ⊢
    generalize hd : c.toNat - '0'.toNat = d at hn ⊢
    have hread := ih hcs (10 * m + d) hn
    have hle := le_ofDigitChars cs (10 * m + d)
    have hnext : (if negative then side negative m * 10 - (d : Int)
        else side negative m * 10 + (d : Int)) = side negative (10 * m + d) := by
      cases negative <;> simp only [side, Bool.false_eq_true, if_true, if_false] <;> omega
    have hwithin : t.Holds (side negative (10 * m + d)) := by
      have hzero := holds_zero t
      unfold Holds side at *
      cases negative <;> simp only [Bool.false_eq_true, if_true, if_false] at * <;> omega
    simp only [readDigits, digit?, hc, if_true, hd, hnext]
    rw [if_neg (Int.not_lt.2 hwithin.2), if_neg (Int.not_lt.2 hwithin.1), hread]

theorem readDigits_toDigits (negative : Bool) (n : Nat) (h : t.Holds (side negative n)) :
    t.readDigits negative 0 (Nat.toDigits 10 n) = .ok (side negative n) := by
  have hdigits : Nat.ofDigitChars 10 (Nat.toDigits 10 n) 0 = n :=
    Nat.ofDigitChars_toDigits (by omega) (by omega)
  have hread := readDigits_side (t := t) negative (Nat.toDigits 10 n)
    (fun c hc => Nat.isDigit_of_mem_toDigits (by omega) (by omega) hc) 0 (by rwa [hdigits])
  rw [hdigits] at hread
  cases negative <;> exact hread

/-- A text that begins with a digit is read as digits. -/
theorem readChars_of_isDigit {c : Char} (hc : c.isDigit = true) (cs : List Char) :
    t.readChars (c :: cs) = t.readDigits false 0 (c :: cs) := by
  have hplus : c ≠ '+' := by rintro rfl; cases hc
  have hminus : c ≠ '-' := by rintro rfl; cases hc
  unfold readChars
  split <;> simp_all

/-- An integer of a type is read from its decimal text. -/
theorem read_write (h : t.Holds n) : t.read (write n) = .ok n := by
  rw [read, write, String.toList_ofList]
  cases n with
  | ofNat n =>
    cases hd : Nat.toDigits 10 n with
    | nil => exact absurd hd Nat.toDigits_ne_nil
    | cons c cs =>
      have hc : c.isDigit = true := Nat.isDigit_of_mem_toDigits (b := 10) (n := n) (by omega)
        (by omega) (hd ▸ List.mem_cons_self)
      rw [writeChars, hd, readChars_of_isDigit hc, ← hd]
      exact readDigits_toDigits false n h
  | negSucc n =>
    have hsigned : t.signed = true := by
      cases hs : t.signed with
      | true => rfl
      | false =>
        have hleast : t.least = 0 := by rw [least, hs]; rfl
        have hneg := h.1
        omega
    have hread := readDigits_toDigits (t := t) true (n + 1) h
    cases hd : Nat.toDigits 10 (n + 1) with
    | nil => exact absurd hd Nat.toDigits_ne_nil
    | cons c cs =>
      rw [hd] at hread
      rw [writeChars, hd]
      simp only [readChars, hsigned, if_true, hread]
      rfl

/-- There are no blanks in the text of an integer. -/
theorem no_blank_write (n : Int) : ∀ c ∈ (write n).toList, Text.isBlank c = false := by
  intro c hc
  have digit : ∀ m : Nat, c ∈ Nat.toDigits 10 m → Text.isBlank c = false := fun m hm =>
    Text.isBlank_of_isDigit (Nat.isDigit_of_mem_toDigits (by omega) (by omega) hm)
  rw [write, String.toList_ofList] at hc
  cases n with
  | ofNat n => exact digit n hc
  | negSucc n =>
    rcases List.mem_cons.1 hc with rfl | hc
    · rfl
    · exact digit _ hc

/-- What is read is a number of the type. -/
theorem holds_of_readDigits {negative : Bool} (cs : List Char) :
    ∀ {m : Int}, t.Holds m → t.readDigits negative m cs = .ok n → t.Holds n := by
  induction cs with
  | nil => intro m hm h; cases h; exact hm
  | cons c cs ih =>
    intro m hm h
    simp only [readDigits] at h
    split at h
    · cases h
    · next d hd =>
      generalize (if negative then m * 10 - (d : Int) else m * 10 + (d : Int)) = k at h
      by_cases hle : k ≤ t.greatest
      · rw [if_neg (Int.not_lt.2 hle)] at h
        by_cases hge : t.least ≤ k
        · rw [if_neg (Int.not_lt.2 hge)] at h
          exact ih ⟨hge, hle⟩ h
        · rw [if_pos (Int.not_le.1 hge)] at h
          cases h
      · rw [if_pos (Int.not_le.1 hle)] at h
        cases h

theorem holds_of_read {s : String} (h : t.read s = .ok n) : t.Holds n := by
  unfold read readChars at h
  split at h
  · cases h
  · cases h
  · cases h
  · exact holds_of_readDigits _ (holds_zero t) h
  · split at h
    · exact holds_of_readDigits _ (holds_zero t) h
    · cases h
  · exact holds_of_readDigits _ (holds_zero t) h

end IntTy

/-! ## Floating point numbers -/

namespace FloatTy

variable {t : FloatTy}

theorem infinity_lt (t : FloatTy) : t.infinity < Nat.pow 2 (t.bits - 1) := by
  cases t <;> decide

theorem nan_lt (t : FloatTy) : t.nan < Nat.pow 2 (t.bits - 1) := by
  cases t <;> decide

theorem signed_lt {negative : Bool} {pattern : Nat} (h : pattern < Nat.pow 2 (t.bits - 1)) :
    t.signed negative pattern < Nat.pow 2 t.bits := by
  have hbits : Nat.pow 2 t.bits = 2 * Nat.pow 2 (t.bits - 1) := by cases t <;> decide
  unfold signed
  split <;> omega

/-- The nearest number has no sign bit. -/
theorem nearest_lt (t : FloatTy) (d : Decimal) : d.nearest t < Nat.pow 2 (t.bits - 1) := by
  have hzero : 0 < Nat.pow 2 (t.bits - 1) := Nat.lt_of_le_of_lt (Nat.zero_le _) t.infinity_lt
  unfold Decimal.nearest
  dsimp only
  split
  · exact hzero
  · split
    · exact t.infinity_lt
    · split
      · exact hzero
      · unfold FloatTy.nearest
        split
        · exact hzero
        · exact Nat.lt_of_le_of_lt (Nat.min_le_left _ _) t.infinity_lt

theorem readWord_lt {cs : List Char} {pattern : Nat} (h : t.readWord cs = some pattern) :
    pattern < Nat.pow 2 (t.bits - 1) := by
  unfold readWord at h
  dsimp only at h
  split at h
  · cases h; exact t.infinity_lt
  · split at h
    · cases h; exact t.nan_lt
    · cases h

/-- What is read is a pattern of the width of the format. -/
theorem lt_of_read {s : String} {pattern : Nat} (h : t.read s = .ok pattern) :
    pattern < Nat.pow 2 t.bits := by
  unfold read readChars at h
  dsimp only at h
  split at h
  · cases h
  -- Behind a sign or without one stands a decimal number or a word.
  all_goals
    split at h
    · cases h; exact signed_lt (t.nearest_lt _)
    · split at h
      · next hw => cases h; exact signed_lt (readWord_lt hw)
      · cases h

end FloatTy

/-! ## The standard registry -/

section Standard

variable {s : Schema}

theorem Converter.typed_ofForm {f : TextForm} {trims : Bool}
    (hf : ∀ raw v, f.read raw = .ok v → HasType s v v.typeOf) : (ofForm f trims).Typed s :=
  fun _ _ v h => hf _ v h

theorem Converter.typed_lenientBool : lenientBool.Typed s := by
  intro t raw v h
  simp only [lenientBool] at h
  split at h
  · cases h; exact .leaf trivial
  · cases h

theorem Converter.typed_verbatim : verbatim.Typed s := by
  intro t raw v h
  cases h
  exact .leaf trivial

theorem hasType_readChar {raw : String} {v : Value} (h : readChar raw = .ok v) :
    HasType s v v.typeOf := by
  unfold readChar at h
  split at h <;> cases h
  exact .leaf trivial

/-- The textual form of a leaf type reads values. -/
theorem LeafTy.hasType_read {t : LeafTy} {f : TextForm} (hf : t.form? = some f) {raw : String}
    {v : Value} (h : f.read raw = .ok v) : HasType s v v.typeOf := by
  cases t with
  | bool =>
    cases hf
    simp only [readBool] at h
    split at h
    · cases h; exact .leaf trivial
    · split at h
      · cases h; exact .leaf trivial
      · cases h
  | char => cases hf; exact hasType_readChar h
  | text => cases hf; cases h; exact .leaf trivial
  | int t =>
    cases hf
    simp only [readInt] at h
    split at h
    · next hn => cases h; exact .leaf (IntTy.holds_of_read hn)
    · cases h
  | float t =>
    cases hf
    simp only [readFloat] at h
    split at h
    · next hn => cases h; exact .leaf (FloatTy.lt_of_read hn)
    · cases h
  | named p => cases hf

namespace Registry

variable {r : Registry}

theorem Typed.register (hr : r.Typed s) {t : Ty} {c : Converter} (hc : c.Typed s) :
    (r.register t c).Typed s := by
  intro u d hd
  rw [get?_register] at hd
  split at hd
  · cases hd; exact hc
  · exact hr u d hd

theorem Typed.registerForms (ts : List LeafTy) :
    ∀ {r : Registry}, r.Typed s → (r.registerForms ts).Typed s := by
  induction ts with
  | nil => intro r hr; exact hr
  | cons t ts ih =>
    intro r hr
    simp only [Registry.registerForms]
    split
    · next f hf =>
      exact ih (hr.register (Converter.typed_ofForm fun _ _ => LeafTy.hasType_read hf))
    · exact ih hr

/-- The converters of the standard registry give values of the types they are registered for. -/
theorem typed_standard (s : Schema) : standard.Typed s := by
  have hempty : empty.Typed s := fun _ _ h => nomatch h
  exact .registerForms numeric (((hempty.register Converter.typed_lenientBool).register
    Converter.typed_verbatim).register (Converter.typed_ofForm fun _ _ => hasType_readChar))

end Registry

end Standard

/-- The leaf types whose values are told apart by their texts, and read back from them: all but
numbers with a fraction and named types. -/
def LeafTy.isExact : LeafTy → Bool
  | .bool | .char | .text | .int _ => true
  | .float _ | .named _ => false

/-- The standard registry reads a leaf from its text and writes that text. -/
theorem Registry.exists_standard {l : Leaf} (hl : l.InRange) (ht : l.type.isExact = true) :
    ∃ c, standard.get? (.leaf l.type) = some c ∧
      (∀ t, c.parse t l.write = .ok (.leaf l)) ∧ c.format (.leaf l) = .ok l.write := by
  cases l with
  | bool b => exact ⟨_, rfl, fun t => by cases b <;> rfl, rfl⟩
  | char c =>
    have hread : readChar (String.ofList [c]) = .ok (.char c) := by
      rw [readChar, String.toList_ofList]
    exact ⟨_, rfl, fun _ => hread, rfl⟩
  | text s => exact ⟨_, rfl, fun _ => rfl, rfl⟩
  | int t n =>
    have hget : standard.get? (.int t) =
        some (.ofForm ⟨.int t, readInt t, Value.leafText⟩ true) := by
      cases t <;> rfl
    have hread : readInt t (Text.trim (IntTy.write n)) = .ok (.int t n) := by
      rw [Text.trim_of_no_blank (IntTy.no_blank_write n), readInt, IntTy.read_write hl]
    refine ⟨_, hget, fun _ => ?_, if_pos rfl⟩
    simp only [Converter.ofForm, Leaf.write, if_true, hread]
  | float | named => cases ht

end ObjectPath
