import ObjectPath.Derive.Grammar.Fault
import ObjectPath.Derive.Token.Lexeme

/-!
# Positions

A field of a tuple is named by its position, an integer without suffix that fits into 32 bits.
Behind a point two positions with a point between them are one literal, the same as a fraction.
-/

namespace ObjectPath.Derive

namespace Position

/-- The base of an integer and the digits behind its prefix. -/
def base : List Char → Nat × List Char
  | '0' :: 'x' :: cs => (16, cs)
  | '0' :: 'o' :: cs => (8, cs)
  | '0' :: 'b' :: cs => (2, cs)
  | cs => (10, cs)

/-- The value of a digit. -/
def digit? (base : Nat) (c : Char) : Option Nat :=
  let value :=
    if c.isDigit then c.toNat - '0'.toNat
    else if 'a' ≤ c ∧ c ≤ 'f' then c.toNat - 'a'.toNat + 10
    else if 'A' ≤ c ∧ c ≤ 'F' then c.toNat - 'A'.toNat + 10
    else base
  if value < base then some value else none

/-- The value and the suffix of an integer.  A fraction and a power of ten are no integers. -/
def integer? (cs : List Char) : Option (Nat × List Char) :=
  let (base, cs) := base cs
  let (digits, suffix) := cs.span fun c => (digit? base c).isSome || c == '_'
  let values := digits.filterMap (digit? base)
  if values.isEmpty then none
  else if base = 10 ∧ (suffix.head? = some '.' ∨ (Lexeme.cutExponent suffix).isSome) then none
  else some (values.foldl (fun n d => n * base + d) 0, suffix)

/-- What is wrong with a position. -/
def fault? (cs : List Char) : Option Grammar.Fault :=
  match integer? cs with
  | some (n, []) => if n < UInt32.size then none else some .hugePosition
  | some (_, _ :: _) => some (.expected .unsuffixedInteger false)
  | none => some (.expected .integer false)

/-- The texts between points. -/
def splitAtPoints (cs : List Char) : List (List Char) :=
  cs.foldr
    (fun c parts =>
      match c, parts with
      | '.', parts => [] :: parts
      | c, part :: parts => (c :: part) :: parts
      | c, [] => [[c]])
    [[]]

/-- The positions that a literal behind a point stands for, and whether a further point follows
them in the literal. -/
def ofLiteral (l : String) : List (List Char) × Bool :=
  let cs := l.toList
  if (integer? cs).isSome then ([cs], false)
  else if cs.getLast? = some '.' then (splitAtPoints cs.dropLast, true)
  else (splitAtPoints cs, false)

end Position

end ObjectPath.Derive
