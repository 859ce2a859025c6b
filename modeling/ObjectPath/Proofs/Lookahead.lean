import ObjectPath.Derive.Grammar
import ObjectPath.Proofs.Parsing

/-!
# Tokens in front of a comma

Which production of the grammar applies may depend on tokens further behind.  Here are the tools to
show that a comma behind some tokens does not matter to them.  `Token.BeforeComma` relates tokens
that stand alone to the same ones with a comma and any further tokens behind them.  Whatever is told
of what comes next is the same, but for the end and the comma themselves (`Sight.Before`), and these
make no difference either where there is a token in front of them (`Sight.Ahead`).
-/

namespace ObjectPath.Derive

namespace Token

/-- The second token is the first one in front of a comma: a mark may know the comma. -/
inductive Meets : Token → Token → Prop
  | word (w : String) : Meets (.word w) (.word w)
  | mark (c : Char) {cs ds : List Char} (h : ds = cs ∨ ∃ es, ds = cs ++ ',' :: es) :
      Meets (.mark c cs) (.mark c ds)
  | literal (l : String) : Meets (.literal l) (.literal l)
  | group (d : Delimiter) (body : List Token) : Meets (.group d body) (.group d body)

/-- The second tokens are the first ones with a comma and any further tokens behind them. -/
inductive BeforeComma : List Token → List Token → Prop
  | comma (cs : List Char) (us : List Token) : BeforeComma [] (.mark ',' cs :: us)
  | cons {t u : Token} {ts us : List Token} (ht : Meets t u) (h : BeforeComma ts us) :
      BeforeComma (t :: ts) (u :: us)

variable {ms cs : List Char} {c : Char} {t : Token} {ts us : List Token}

theorem BeforeComma.of_meets (h : List.Forall₂ Meets ts us) (cs : List Char) (vs : List Token) :
    BeforeComma ts (us ++ .mark ',' cs :: vs) := by
  induction h with
  | nil => exact .comma cs vs
  | cons ht _ ih => exact .cons ht ih

theorem Coherent.drop (h : Coherent ts) (n : Nat) : Coherent (ts.drop n) := by
  induction n generalizing ts with
  | zero => exact h
  | succ n ih =>
    cases ts with
    | nil => exact h
    | cons t ts => exact ih h.tail

/-- Tokens in front of a comma are the ones that are cut off, but for what their marks know. -/
theorem Coherent.meets_cut (h : Coherent (ts ++ .mark ',' cs :: us)) :
    List.Forall₂ Meets (Token.cut ts) ts := by
  induction ts with
  | nil => exact .nil
  | cons t ts ih =>
    have hmeets := ih h.tail
    cases t with
    | mark d ds =>
      refine .cons (.mark d ?_) hmeets
      by_cases hlt : (leading ts).length < ds.length
      · obtain ⟨es, rfl, hes, hleads⟩ := h.1.of_length_lt hlt
        cases es with
        | nil => exact absurd rfl hes
        | cons e es =>
          obtain ⟨rfl, -⟩ := hleads
          exact .inr ⟨es, by rw [List.take_left]⟩
      · exact .inl (List.take_of_length_le (Nat.le_of_not_lt hlt)).symm
    | word w => exact .cons (.word w) hmeets
    | literal l => exact .cons (.literal l) hmeets
    | group d body => exact .cons (.group d body) hmeets

/-- As many tokens come as marks that come first. -/
theorem Leads.length_le (h : Leads cs ts) (hms : ms.isPrefixOf cs = true) :
    ms.length ≤ ts.length := by
  induction ms generalizing cs ts with
  | nil => exact Nat.zero_le _
  | cons m ms ih =>
    cases cs with
    | nil => cases hms
    | cons c cs =>
      simp only [List.isPrefixOf, Bool.and_eq_true] at hms
      cases ts with
      | nil => exact absurd h id
      | cons t ts =>
        cases t with
        | mark d ds => exact Nat.succ_le_succ (ih h.2 hms.2)
        | word | literal | group => exact absurd h id

/-- Marks without a comma are no further ones in front of a comma. -/
theorem isPrefixOf_eq {ds : List Char} (hms : ms.contains ',' = false)
    (h : ds = cs ∨ ∃ es, ds = cs ++ ',' :: es) : ms.isPrefixOf ds = ms.isPrefixOf cs := by
  obtain rfl | ⟨es, rfl⟩ := h
  · rfl
  induction ms generalizing cs with
  | nil => simp
  | cons m ms ih =>
    rw [List.contains_cons, Bool.or_eq_false_iff] at hms
    cases cs with
    | nil =>
      have hm : (m == ',') = false := by rw [Bool.beq_comm, hms.1]
      simp only [List.nil_append, List.isPrefixOf, hm, Bool.false_and]
    | cons c cs => simp only [List.cons_append, List.isPrefixOf, ih hms.2]

theorem BeforeComma.drop (h : BeforeComma ts us) {n : Nat} (hn : n ≤ ts.length) :
    BeforeComma (ts.drop n) (us.drop n) := by
  induction n generalizing ts us with
  | zero => exact h
  | succ n ih =>
    cases h with
    | comma => cases hn
    | cons ht h => exact ih h (Nat.le_of_succ_le_succ hn)

end Token

namespace Grammar.Sight

variable {s t : Sight} {n m : Nat}

/-- At least some tokens come. -/
def Has (s : Sight) (n : Nat) : Prop := n ≤ s.tokens.length

theorem Has.of_skip (h : (s.skip n).Has (m + 1)) : s.Has (n + m + 1) := by
  simp only [Has, skip, List.length_drop] at h ⊢
  omega

theorem tokens_of_shows {c : Char} (h : s.shows [c] = true) :
    ∃ cs ts, s.tokens = .mark c cs :: ts := by
  obtain ⟨ts, b⟩ := s
  cases ts with
  | nil => cases h
  | cons t ts =>
    cases t with
    | mark d cs =>
      obtain rfl : c = d := by simpa [shows, List.isPrefixOf] using h
      exact ⟨cs, ts, rfl⟩
    | word | literal | group => cases h

theorem tokens_of_isWord {w : String} (h : s.isWord w = true) : ∃ ts, s.tokens = .word w :: ts := by
  obtain ⟨ts, b⟩ := s
  cases ts with
  | nil => cases h
  | cons t ts =>
    cases t with
    | word v =>
      obtain rfl : v = w := by simpa [isWord] using h
      exact ⟨ts, rfl⟩
    | mark | literal | group => cases h

theorem tokens_of_isName (h : s.isName = true) :
    ∃ w ts, s.tokens = .word w :: ts ∧ Token.isKeyword w = false := by
  obtain ⟨ts, b⟩ := s
  cases ts with
  | nil => cases h
  | cons t ts =>
    cases t with
    | word w => exact ⟨w, ts, rfl, by simpa [isName] using h⟩
    | mark | literal | group => cases h

/-- There is a first token if anything is told of it. -/
theorem has_of_head {f : List Token → Bool} (hf : f [] = false) (h : f s.tokens = true) :
    s.Has 1 := by
  refine List.length_pos_iff.2 fun hs => ?_
  rw [hs, hf] at h
  cases h

theorem has_of_isWord {w : String} (h : s.isWord w = true) : s.Has 1 :=
  has_of_head (f := fun ts => isWord ⟨ts, false⟩ w) rfl h

theorem has_of_isText (h : s.isText = true) : s.Has 1 :=
  has_of_head (f := fun ts => isText ⟨ts, false⟩) rfl h

theorem has_of_isNumber (h : s.isNumber = true) : s.Has 1 :=
  has_of_head (f := fun ts => isNumber ⟨ts, false⟩) rfl h

theorem has_of_isNegative (h : s.isNegative = true) : s.Has 2 := by
  rw [isNegative, Bool.and_eq_true] at h
  exact .of_skip (has_of_isNumber h.2)

/-- The sight of tokens alone, as a text gives them, and that of the same tokens in front of a
comma. -/
structure Before (s t : Sight) : Prop where
  tokens : Token.BeforeComma s.tokens t.tokens
  coherent : Token.Coherent s.tokens

namespace Before

/-- What comes behind some tokens is in front of the comma, too. -/
theorem skip (h : s.Before t) (hn : s.Has n) : (s.skip n).Before (t.skip n) :=
  ⟨h.tokens.drop hn, h.coherent.drop n⟩

theorem has_of_shows (h : s.Before t) {ms : List Char} (hms : s.shows ms = true) :
    s.Has ms.length := by
  obtain ⟨ts, b⟩ := s
  obtain ⟨-, hcoherent⟩ := h
  cases ts with
  | nil => cases hms
  | cons t ts =>
    cases t with
    | mark c cs =>
      cases ms with
      | nil => exact Nat.zero_le _
      | cons m ms =>
        simp only [Sight.shows, List.isPrefixOf, Bool.and_eq_true] at hms
        exact Nat.succ_le_succ (hcoherent.1.length_le hms.2)
    | word | literal | group => cases hms

theorem tokens_of_isLifetime (h : s.Before t) (hs : s.isLifetime = true) :
    ∃ cs w us, s.tokens = .mark '\x27' cs :: .word w :: us := by
  obtain ⟨cs, ts, hts⟩ := tokens_of_shows hs
  obtain ⟨-, hcoherent⟩ := h
  rw [hts] at hcoherent
  obtain ⟨w, us, rfl⟩ := hcoherent.2.1 rfl
  exact ⟨cs, w, us, hts⟩

theorem has_of_isLifetime (h : s.Before t) (hs : s.isLifetime = true) : s.Has 2 := by
  obtain ⟨cs, w, us, hts⟩ := h.tokens_of_isLifetime hs
  simp [Has, hts]

/-- Marks without a comma come in both sights or in none. -/
theorem shows (h : s.Before t) {m : Char} {ms : List Char} (hms : (m :: ms).contains ',' = false) :
    t.shows (m :: ms) = s.shows (m :: ms) := by
  obtain ⟨ts, b⟩ := s
  obtain ⟨us, b'⟩ := t
  cases h.tokens with
  | comma cs vs =>
    have hm : m ≠ ',' := by
      rintro rfl
      simp at hms
    simp [Sight.shows, List.isPrefixOf, hm]
  | @cons u v ts us ht h =>
    cases ht with
    | mark c hds =>
      simp only [Sight.shows, List.isPrefixOf]
      rw [List.contains_cons, Bool.or_eq_false_iff] at hms
      rw [Token.isPrefixOf_eq hms.2 hds]
    | word | literal | group => rfl

/-- What is told of the first token, and of no mark, is told of both sights. -/
theorem head {f : List Token → Bool} (h : s.Before t)
    (hmark : ∀ c cs ts, f (.mark c cs :: ts) = f [])
    (htoken : ∀ t ts us, f (t :: ts) = f (t :: us)) : f t.tokens = f s.tokens := by
  obtain ⟨ts, b⟩ := s
  obtain ⟨us, b'⟩ := t
  cases h.tokens with
  | comma cs vs => exact hmark ',' cs vs
  | @cons u v ts us ht h =>
    cases ht with
    | mark c hds => exact (hmark c _ _).trans (hmark c _ _).symm
    | word | literal | group => exact htoken _ us ts

theorem isWord (h : s.Before t) (w : String) : t.isWord w = s.isWord w :=
  h.head (f := fun ts => Sight.isWord ⟨ts, false⟩ w) (fun _ _ _ => rfl)
    fun t _ _ => by cases t <;> rfl

theorem isAnyWord (h : s.Before t) : t.isAnyWord = s.isAnyWord :=
  h.head (f := fun ts => Sight.isAnyWord ⟨ts, false⟩) (fun _ _ _ => rfl)
    fun t _ _ => by cases t <;> rfl

theorem isName (h : s.Before t) : t.isName = s.isName :=
  h.head (f := fun ts => Sight.isName ⟨ts, false⟩) (fun _ _ _ => rfl)
    fun t _ _ => by cases t <;> rfl

theorem isSegment (h : s.Before t) : t.isSegment = s.isSegment :=
  h.head (f := fun ts => Sight.isSegment ⟨ts, false⟩) (fun _ _ _ => rfl)
    fun t _ _ => by cases t <;> rfl

theorem isNumber (h : s.Before t) : t.isNumber = s.isNumber :=
  h.head (f := fun ts => Sight.isNumber ⟨ts, false⟩) (fun _ _ _ => rfl)
    fun t _ _ => by cases t <;> rfl

theorem isText (h : s.Before t) : t.isText = s.isText :=
  h.head (f := fun ts => Sight.isText ⟨ts, false⟩) (fun _ _ _ => rfl)
    fun t _ _ => by cases t <;> rfl

theorem isGroup (h : s.Before t) (d : Delimiter) : t.isGroup d = s.isGroup d :=
  h.head (f := fun ts => Sight.isGroup ⟨ts, false⟩ d) (fun _ _ _ => rfl)
    fun t _ _ => by cases t <;> rfl

theorem isAnyGroup (h : s.Before t) : t.isAnyGroup = s.isAnyGroup :=
  h.head (f := fun ts => Sight.isAnyGroup ⟨ts, false⟩) (fun _ _ _ => rfl)
    fun t _ _ => by cases t <;> rfl

theorem isPathMark (h : s.Before t) : t.isPathMark = s.isPathMark := h.shows rfl

theorem isLifetime (h : s.Before t) : t.isLifetime = s.isLifetime := h.shows rfl

theorem isColon (h : s.Before t) : t.isColon = s.isColon := by
  rw [Sight.isColon, Sight.isColon, h.isPathMark, h.shows rfl]

theorem isPoint (h : s.Before t) : t.isPoint = s.isPoint := by
  rw [Sight.isPoint, Sight.isPoint, h.shows rfl, h.shows rfl]

theorem isBang (h : s.Before t) : t.isBang = s.isBang := by
  rw [Sight.isBang, Sight.isBang, h.shows rfl, h.shows rfl]

theorem isAlternative (h : s.Before t) : t.isAlternative = s.isAlternative := by
  rw [Sight.isAlternative, Sight.isAlternative, h.shows rfl, h.shows rfl, h.shows rfl]

theorem isNegative (h : s.Before t) : t.isNegative = s.isNegative := by
  rw [Sight.isNegative, Sight.isNegative, h.shows rfl]
  cases hm : s.shows ['-'] with
  | false => rfl
  | true =>
    have hnext : (s.skip 1).Before (t.skip 1) := h.skip (h.has_of_shows hm)
    rw [hnext.isNumber]

theorem isLiteral (h : s.Before t) : t.isLiteral = s.isLiteral := by
  have hnegative := h.isNegative
  obtain ⟨ts, b⟩ := s
  obtain ⟨us, b'⟩ := t
  cases h.tokens with
  | comma cs vs => exact hnegative
  | @cons u v ts us ht h =>
    cases ht with
    | mark c hds => exact hnegative
    | word | literal | group => rfl

end Before

/-- There are tokens in front of the comma. -/
structure Ahead (s t : Sight) : Prop extends s.Before t where
  nonempty : s.Has 1

/-- There are no tokens in front of the comma, or there is a first one. -/
theorem Before.eq_nil_or_ahead (h : s.Before t) : s.tokens = [] ∨ s.Ahead t := by
  cases hs : s.tokens with
  | nil => exact .inl rfl
  | cons u us => exact .inr ⟨h, by simp [Has, hs]⟩

namespace Ahead

/-- What is behind the first token is in front of the comma, too. -/
theorem next (h : s.Ahead t) : (s.skip 1).Before (t.skip 1) := h.skip h.nonempty

/-- Where there is a token, a comma may be among the marks as well. -/
theorem shows (h : s.Ahead t) {m : Char} {ms : List Char} (hms : ms.contains ',' = false) :
    t.shows (m :: ms) = s.shows (m :: ms) := by
  obtain ⟨⟨htokens, -⟩, hnonempty⟩ := h
  obtain ⟨ts, b⟩ := s
  obtain ⟨us, b'⟩ := t
  cases htokens with
  | comma cs vs => cases hnonempty
  | @cons u v ts us ht h =>
    cases ht with
    | mark c hds => simp only [Sight.shows, List.isPrefixOf, Token.isPrefixOf_eq hms hds]
    | word | literal | group => rfl

theorem isEnd (h : s.Ahead t) : t.isEnd = s.isEnd := by
  obtain ⟨⟨htokens, -⟩, hnonempty⟩ := h
  obtain ⟨ts, b⟩ := s
  obtain ⟨us, b'⟩ := t
  cases htokens with
  | comma cs vs => cases hnonempty
  | cons ht h => rfl

/-- The first token is the same, but for what a mark knows of the comma. -/
theorem tokens_cases (h : s.Ahead t) :
    ∃ u v ts us, s.tokens = u :: ts ∧ t.tokens = v :: us ∧ Token.Meets u v := by
  obtain ⟨⟨htokens, -⟩, hnonempty⟩ := h
  obtain ⟨ts, b⟩ := s
  obtain ⟨us, b'⟩ := t
  cases htokens with
  | comma cs vs => cases hnonempty
  | cons ht h => exact ⟨_, _, _, _, rfl, rfl, ht⟩

end Ahead

end Grammar.Sight

end ObjectPath.Derive
