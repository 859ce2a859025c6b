import ObjectPath.Derive.Fault

/-!
# Parsers

The arguments of an attribute are read from the front.  A `Parser` gives a value and the input
behind it, or a fault; it never makes the input longer, so that reading entries comes to an end
(`Parser.entries`).

Names and marks are read here.  How expressions and paths are read is not part of the derivation: a
library does it, and the `Parsers` for them are a parameter of everything that reads attributes.
-/

namespace ObjectPath.Derive

/-! ## Input -/

/-- What is still to be read of the arguments of an attribute. -/
structure Input where
  tokens : List Token
  /-- The first brackets so far that hold more than what was read in them. -/
  leftover : Option Delimiter
deriving DecidableEq, Repr

/-- How many tokens are still to be read. -/
def Input.weight (i : Input) : Nat := Token.weightAll i.tokens

namespace Token

theorem weightAll_append (ts us : List Token) :
    weightAll (ts ++ us) = weightAll ts + weightAll us := by
  induction ts with
  | nil => simp [weightAll]
  | cons t ts ih => simp [weightAll, ih, Nat.add_assoc]

mutual

/-- Opening groups makes no tokens. -/
theorem weightAll_of_opened? : ∀ {t : Token} {us : List Token}, t.opened? = some us →
    weightAll us ≤ t.weight
  | word _, _, h | mark _ _, _, h | literal _, _, h | group .paren _, _, h | group .bracket _, _, h
  | group .brace _, _, h => by
    cases h
    simp [weightAll]
  | group .none _, _, h => Nat.le_succ_of_le (weightAll_of_exposed? h)

theorem weightAll_of_exposed? : ∀ {ts us : List Token}, exposed? ts = some us →
    weightAll us ≤ weightAll ts
  | [], _, h => by cases h
  | t :: ts, us, h => by
    rw [exposed?] at h
    cases ht : t.opened? with
    | none =>
      rw [ht] at h
      exact Nat.le_trans (weightAll_of_exposed? h) (Nat.le_add_left _ _)
    | some vs =>
      rw [ht] at h
      cases h
      rw [weightAll_append, weightAll]
      exact Nat.add_le_add_right (weightAll_of_opened? ht) _

end

theorem weightAll_exposed (ts : List Token) : weightAll (exposed ts) ≤ weightAll ts := by
  unfold exposed
  cases h : exposed? ts with
  | none => exact Nat.zero_le _
  | some us => exact weightAll_of_exposed? h

end Token

/-! ## Parsers -/

/-- Reads a value from the front of the input. -/
structure Parser (α : Type) where
  run : Input → Except Fault (α × Input)
  /-- What is left is no more than there was. -/
  le : ∀ {i : Input} {a : α} {j : Input}, run i = .ok (a, j) → j.weight ≤ i.weight

namespace Parser

variable {α β ω : Type}

/-- Reads nothing. -/
def done (a : α) : Parser α where
  run i := .ok (a, i)
  le h := by cases h; exact Nat.le_refl _

/-- Reads with one parser, and then with another one that depends on the value. -/
def andThen (p : Parser α) (f : α → Parser β) : Parser β where
  run i :=
    match p.run i with
    | .ok (a, j) => (f a).run j
    | .error e => .error e
  le {i b k} h := by
    split at h
    · next a j hp => exact Nat.le_trans ((f a).le h) (p.le hp)
    · cases h

instance : Monad Parser where
  pure := done
  bind := andThen

/-- Fails. -/
def fail (f : Fault) : Parser α where
  run _ := .error f
  le h := by cases h

/-- Whether a mark comes next. -/
def shows (c : Char) : Parser Bool where
  run i :=
    match Token.exposed i.tokens with
    | .mark d _ :: _ => .ok (d = c, i)
    | _ => .ok (false, i)
  le h := by split at h <;> cases h <;> exact Nat.le_refl _

/-- Reads a name. -/
def name : Parser String where
  run i :=
    match Token.exposed i.tokens with
    | .word w :: ts => if Token.isKeyword w then .error (.keyword w) else .ok (w, ⟨ts, i.leftover⟩)
    | _ => .error (.noName i.tokens.isEmpty)
  le {i w j} h := by
    have hle := Token.weightAll_exposed i.tokens
    split at h
    · next ht =>
      split at h
      · cases h
      · cases h
        rw [ht] at hle
        exact Nat.le_trans (Nat.le_add_left _ _) hle
    · cases h

/-- What is behind a mark. -/
def behindMark (c : Char) (i : Input) : Except Fault Input :=
  match Token.exposed i.tokens with
  | .mark d _ :: ts => if d = c then .ok ⟨ts, i.leftover⟩ else .error (.missing c)
  | _ => .error (.missing c)

theorem weight_lt_of_behindMark {c : Char} {i j : Input} (h : behindMark c i = .ok j) :
    j.weight < i.weight := by
  have hle := Token.weightAll_exposed i.tokens
  unfold behindMark at h
  split at h
  · next ht =>
    split at h
    · cases h
      rw [ht, Token.weightAll, Token.weight] at hle
      exact Nat.lt_of_lt_of_le (Nat.lt_add_of_pos_left Nat.one_pos) hle
    · cases h
  · cases h

/-- Reads a mark. -/
def mark (c : Char) : Parser Unit where
  run i := (behindMark c i).map fun j => ((), j)
  le {i u j} h := by
    cases hj : behindMark c i with
    | error f => rw [hj] at h; cases h
    | ok k =>
      rw [hj] at h
      cases h
      exact Nat.le_of_lt (weight_lt_of_behindMark hj)

/-! ## Entries -/

/-- Reads entries separated by commas, each of which changes what was read so far.  A comma may
follow the last one.  There are no more than `n` tokens. -/
def entriesWithin (entry : ω → Parser ω) :
    (n : Nat) → ω → (i : Input) → i.weight ≤ n → Except Fault (ω × Input)
  | n, o, i, hn =>
    if i.tokens.isEmpty then .ok (o, i)
    else
      match hentry : (entry o).run i with
      | .error f => .error f
      | .ok (o', j) =>
        if j.tokens.isEmpty then .ok (o', j)
        else
          match hcomma : behindMark ',' j with
          | .error f => .error f
          | .ok k =>
            have hk := Nat.lt_of_lt_of_le (weight_lt_of_behindMark hcomma)
              (Nat.le_trans ((entry o).le hentry) hn)
            match n with
            | 0 => absurd hk (Nat.not_lt_zero _)
            | n + 1 => entriesWithin entry n o' k (Nat.le_of_lt_succ hk)

/-- Reads entries up to the end of the input. -/
def entries (entry : ω → Parser ω) (o : ω) (i : Input) : Except Fault (ω × Input) :=
  entriesWithin entry i.weight o i (Nat.le_refl _)

/-- Reads the arguments of an attribute with a parser for its entries.  That some brackets hold more
than what was read in them is reported last. -/
def arguments (entry : ω → Parser ω) (o : ω) (ts : List Token) : Except Fault ω :=
  match entries entry o ⟨ts, none⟩ with
  | .error f => .error f
  | .ok (o, i) =>
    match i.leftover with
    | none => .ok o
    | some d => .error (.leftover d)

end Parser

/-- The parsers for what a library reads: paths and expressions.  Each gives the tokens of what it
has read. -/
structure Parsers where
  path : Parser (List Token)
  expression : Parser (List Token)

end ObjectPath.Derive
