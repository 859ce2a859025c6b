import Mathlib.Data.List.Forall2
import ObjectPath.Derive.Parser

/-!
# Reading entries

How entries are read one after the other does not depend on how many tokens there are
(`Parser.entries_eq`): an entry comes first, and behind it a comma and further entries, or nothing.

Of the parsers that a library provides it is assumed that what they read as a whole from some tokens
they read from them in front of a comma too, and end there (`Parser.StopsAtCommas`).  This is what
makes an entry one by itself, whatever stands behind it.  Of paths it is assumed that none starts
with a name and a point (`Parser.GivesPaths`).
-/

namespace ObjectPath.Derive

/-! ## Tokens of a text -/

namespace Token

/-- Some marks come first. -/
def Leads : List Char → List Token → Prop
  | [], _ => True
  | c :: cs, .mark d _ :: ts => c = d ∧ Leads cs ts
  | _ :: _, _ => False

/-- Tokens as a text gives them: the marks that a mark knows to be behind it are there, and a single
quote stands in front of a word. -/
def Coherent : List Token → Prop
  | [] => True
  | .mark c cs :: ts => Leads cs ts ∧ (c = '\x27' → ∃ w us, ts = .word w :: us) ∧ Coherent ts
  | _ :: ts => Coherent ts

variable {ts us : List Token} {cs : List Char} {c : Char}

theorem Coherent.tail {t : Token} (h : Coherent (t :: ts)) : Coherent ts := by
  cases t with
  | mark c cs => exact h.2.2
  | word | literal | group => exact h

@[simp] theorem leading_cut (ts : List Token) : leading (cut ts) = leading ts := by
  induction ts with
  | nil => rfl
  | cons t ts ih =>
    cases t with
    | mark c cs => simp [cut, leading, ih]
    | word | literal | group => rfl

/-- What is cut off is cut off. -/
@[simp] theorem cut_cut (ts : List Token) : cut (cut ts) = cut ts := by
  induction ts with
  | nil => rfl
  | cons t ts ih =>
    cases t with
    | mark c cs => simp [cut, ih, List.take_take]
    | word | literal | group => simp [cut, ih]

/-- Marks that come first come first in what is cut off, as far as it goes. -/
theorem Leads.cut (h : Leads cs (ts ++ us)) : Leads (cs.take (leading ts).length) (cut ts) := by
  induction ts generalizing cs with
  | nil => simp [leading, Leads]
  | cons t ts ih =>
    cases t with
    | mark d ds =>
      cases cs with
      | nil => trivial
      | cons c cs =>
        rw [leading, List.length_cons, List.take_succ_cons]
        exact ⟨h.1, ih h.2⟩
    | word | literal | group => simp [leading, Leads]

/-- Marks that go on behind some tokens are all of these, and then those that come next. -/
theorem Leads.of_length_lt (h : Leads cs (ts ++ us)) (hlt : (leading ts).length < cs.length) :
    ∃ ds, cs = leading ts ++ ds ∧ ds ≠ [] ∧ Leads ds us := by
  induction ts generalizing cs with
  | nil => exact ⟨cs, rfl, List.ne_nil_of_length_pos hlt, h⟩
  | cons t ts ih =>
    cases cs with
    | nil => cases hlt
    | cons c cs =>
      cases t with
      | mark d ds =>
        obtain ⟨es, rfl, hes⟩ := ih h.2 (Nat.lt_of_succ_lt_succ hlt)
        exact ⟨es, by rw [h.1]; rfl, hes⟩
      | word | literal | group => exact h.elim

theorem Coherent.cut (h : Coherent (ts ++ .mark c cs :: us)) : Coherent (cut ts) := by
  induction ts with
  | nil => trivial
  | cons t ts ih =>
    have hcut := ih h.tail
    cases t with
    | mark d ds =>
      obtain ⟨hleads, hquote, -⟩ := h
      refine ⟨hleads.cut, fun hd => ?_, hcut⟩
      obtain ⟨w, vs, hw⟩ := hquote hd
      cases ts with
      | nil => cases hw
      | cons t ts =>
        obtain ⟨rfl, -⟩ := List.cons.inj hw
        exact ⟨w, Token.cut ts, rfl⟩
    | word | literal | group => exact hcut

end Token

namespace Parser

variable {α β ω : Type} {i j k : Input} {o : ω}

/-! ## Steps -/

theorem bind_of_ok {x : Except Fault α} {a : α} {f : α → Except Fault β} (h : x = .ok a) :
    x.bind f = f a := by
  rw [h]
  rfl

theorem bind_of_error {x : Except Fault α} {e : Fault} {f : α → Except Fault β}
    (h : x = .error e) : x.bind f = .error e := by
  rw [h]
  rfl

theorem bind_ok {x : Except Fault α} {f : α → Except Fault β} {b : β} (h : x.bind f = .ok b) :
    ∃ a, x = .ok a ∧ f a = .ok b := by
  cases x with
  | error e => cases h
  | ok a => exact ⟨a, rfl, h⟩

@[simp] theorem run_pure (a : α) (i : Input) : (pure a : Parser α).run i = .ok (a, i) := rfl

theorem run_bind (p : Parser α) (f : α → Parser β) (i : Input) :
    (p >>= f).run i = (p.run i).bind fun x => (f x.1).run x.2 := by
  show (p.andThen f).run i = _
  simp only [andThen]
  cases p.run i <;> rfl

@[simp] theorem run_fail (f : Fault) (i : Input) : (fail f : Parser α).run i = .error f := rfl

section Front

variable {c : Char} {cs : List Char} {w : String} {ts : List Token}

theorem behindMark_of_exposed (h : Token.exposed i.tokens = .mark c cs :: ts) :
    behindMark c i = .ok ⟨ts, i.leftover⟩ := by
  simp only [behindMark, h, if_true]

theorem behindMark_of_ne (h : ∀ cs ts, Token.exposed i.tokens ≠ .mark c cs :: ts) :
    behindMark c i = .error (.missing c) := by
  unfold behindMark
  split
  · next hi => exact if_neg fun hc => h _ _ (hc ▸ hi)
  · rfl

theorem run_mark (h : Token.exposed i.tokens = .mark c cs :: ts) :
    (mark c).run i = .ok ((), ⟨ts, i.leftover⟩) := by
  simp only [mark, behindMark_of_exposed h, Except.map]

theorem run_mark_of_ne (h : ∀ cs ts, Token.exposed i.tokens ≠ .mark c cs :: ts) :
    (mark c).run i = .error (.missing c) := by
  simp only [mark, behindMark_of_ne h, Except.map]

theorem run_shows (h : Token.exposed i.tokens = .mark c cs :: ts) :
    (shows c).run i = .ok (true, i) := by
  simp only [shows, h, decide_true]

theorem run_shows_of_word (h : Token.exposed i.tokens = .word w :: ts) :
    (shows c).run i = .ok (false, i) := by
  simp only [shows, h]

/-- Whether a mark comes next can always be told. -/
theorem run_shows_ok (c : Char) (i : Input) :
    (shows c).run i = .ok (true, i) ∧ (∃ cs ts, Token.exposed i.tokens = .mark c cs :: ts) ∨
      (shows c).run i = .ok (false, i) := by
  simp only [shows]
  split
  · next d cs ts hi =>
    by_cases hd : d = c
    · exact .inl ⟨by simp [hd], cs, ts, hd ▸ hi⟩
    · exact .inr (by simp [hd])
  · exact .inr rfl

theorem run_name (h : Token.exposed i.tokens = .word w :: ts) (hw : Token.isKeyword w = false) :
    name.run i = .ok (w, ⟨ts, i.leftover⟩) := by
  simp only [name, h, hw, Bool.false_eq_true, if_false]

theorem run_name_ok (h : name.run i = .ok (w, j)) :
    Token.exposed i.tokens = .word w :: j.tokens ∧ Token.isKeyword w = false ∧
      j.leftover = i.leftover := by
  simp only [name] at h
  split at h
  · next hi =>
    split at h
    · cases h
    · next hw =>
      cases h
      exact ⟨hi, by simpa using hw, rfl⟩
  · cases h

end Front

/-! ## Entries -/

variable {entry : ω → Parser ω}

/-- Reads on behind an entry. -/
def behindEntry (entry : ω → Parser ω) (o : ω) (j : Input) : Except Fault (ω × Input) :=
  if j.tokens.isEmpty then .ok (o, j) else (behindMark ',' j).bind (entries entry o)

/-- It does not matter how many tokens there may be. -/
theorem entriesWithin_eq (n : Nat) :
    ∀ (m : Nat) (o : ω) (i : Input) (hn : i.weight ≤ n) (hm : i.weight ≤ m),
      entriesWithin entry n o i hn = entriesWithin entry m o i hm := by
  induction n with
  | zero =>
    intro m o i hn hm
    unfold entriesWithin
    split
    · rfl
    · split
      · rfl
      · next o' j hentry =>
        split
        · rfl
        · split
          · rfl
          · next k hcomma =>
            have hk := weight_lt_of_behindMark hcomma
            have hj := (entry o).le hentry
            omega
  | succ n ih =>
    intro m o i hn hm
    unfold entriesWithin
    split
    · rfl
    · split
      · rfl
      · next o' j hentry =>
        split
        · rfl
        · split
          · rfl
          · next k hcomma =>
            have hk := weight_lt_of_behindMark hcomma
            have hj := (entry o).le hentry
            cases m with
            | zero => omega
            | succ m => exact ih m o' k _ _

theorem entries_of_isEmpty (h : i.tokens = []) : entries entry o i = .ok (o, i) := by
  have hempty : i.tokens.isEmpty = true := by rw [h]; rfl
  unfold entries
  rw [entriesWithin.eq_def]
  simp only [hempty, if_true]

/-- Reading entries is reading one and going on behind it. -/
theorem entries_eq (h : i.tokens ≠ []) :
    entries entry o i = ((entry o).run i).bind fun x => behindEntry entry x.1 x.2 := by
  have hempty : i.tokens.isEmpty = false := by simpa using h
  unfold entries
  rw [entriesWithin.eq_def]
  simp only [hempty, Bool.false_eq_true, if_false]
  split
  · next f hf =>
    exact (bind_of_error hf).symm
  · next o' j hj =>
    rw [bind_of_ok hj, behindEntry]
    split
    · rfl
    · split
      · next f hf => exact (bind_of_error hf).symm
      · next k hk =>
        rw [bind_of_ok hk]
        split
        · omega
        · exact entriesWithin_eq _ _ _ _ _ _

theorem behindEntry_of_isEmpty (h : j.tokens = []) : behindEntry entry o j = .ok (o, j) := by
  rw [behindEntry, h]
  rfl

theorem behindEntry_of_comma {cs : List Char} {ts : List Token}
    (h : Token.exposed j.tokens = .mark ',' cs :: ts) :
    behindEntry entry o j = entries entry o ⟨ts, j.leftover⟩ := by
  have hj : j.tokens ≠ [] := by
    intro hj
    rw [hj] at h
    cases h
  rw [behindEntry, if_neg (by simpa using hj)]
  exact bind_of_ok (behindMark_of_exposed h)

/-- Behind an entry there is nothing but a comma. -/
theorem behindEntry_of_ne (hj : j.tokens ≠ [])
    (h : ∀ cs ts, Token.exposed j.tokens ≠ .mark ',' cs :: ts) :
    behindEntry entry o j = .error (.missing ',') := by
  rw [behindEntry, if_neg (by simpa using hj)]
  exact bind_of_error (behindMark_of_ne h)

/-- What is read as a whole from some tokens by themselves is read from them in front of a comma,
too, and nothing behind it. -/
def StopsAtCommas (q : Parser (List Token)) : Prop :=
  ∀ {ts us value : List Token} {cs : List Char}, Token.Coherent (ts ++ .mark ',' cs :: us) →
    q.run ⟨Token.cut ts, none⟩ = .ok (value, ⟨[], none⟩) →
      q.run ⟨ts ++ .mark ',' cs :: us, none⟩ = .ok (value, ⟨.mark ',' cs :: us, none⟩)

end Parser

end ObjectPath.Derive
