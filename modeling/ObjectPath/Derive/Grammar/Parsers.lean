import ObjectPath.Derive.Grammar
import ObjectPath.Derive.Registration

/-!
# Parsers of the grammar

The parsers for paths and expressions that the grammar gives.  A derivation is run with them
(`Registration.ofItem`).
-/

namespace ObjectPath.Derive

namespace Grammar

/-- Reads tokens as far as a reader takes them.  The result are the tokens that were taken, those
behind them, and the first brackets that hold more than what belongs into them.  `taken` are the
tokens so far, last one first. -/
def Reader.takeFrom (r : Reader) (taken : List Token) :
    List Token → Except Fault (List Token × List Token × Option Delimiter)
  | [] =>
    match r.finish with
    | some f => .error f
    | none => .ok (taken.reverse, [], r.leftover)
  | t :: ts =>
    match r.step t ts with
    | .next r => r.takeFrom (t :: taken) ts
    | .stop => .ok (taken.reverse, t :: ts, r.leftover)
    | .fail f => .error f

theorem Reader.weightAll_of_takeFrom {ts us rest : List Token} {l : Option Delimiter} {r : Reader}
    {taken : List Token} (h : r.takeFrom taken ts = .ok (us, rest, l)) :
    Token.weightAll rest ≤ Token.weightAll ts := by
  induction ts generalizing r taken with
  | nil =>
    rw [takeFrom] at h
    split at h <;> cases h
    exact Nat.le_refl _
  | cons t ts ih =>
    rw [takeFrom] at h
    split at h
    · exact Nat.le_trans (ih h) (Nat.le_add_left _ _)
    · cases h
      exact Nat.le_refl _
    · cases h

/-- Reads some parts. -/
def parser (ps : List Part) : Parser (List Token) where
  run i :=
    match (Reader.start ps i.leftover).takeFrom [] i.tokens with
    | .ok (ts, rest, leftover) => .ok (Token.cut ts, ⟨rest, leftover⟩)
    | .error f => .error (.malformed f.message)
  le h := by
    split at h
    · next htake =>
      cases h
      exact Reader.weightAll_of_takeFrom htake
    · cases h

/-- The parsers of the grammar. -/
def parsers : Parsers where
  path := parser path
  expression := parser expression

end Grammar

/-- What is derived from an item if its attributes are read by the grammar. -/
def Registration.ofItem (i : Item) : Except Fault Registration :=
  Registration.fromItem Grammar.parsers i

end ObjectPath.Derive
