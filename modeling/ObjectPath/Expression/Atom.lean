import ObjectPath.Number.Integer

/-!
# Atoms

An expression is a list of atoms.  An atom is written as a plain name, in brackets, or as a quoted
literal in brackets; its text is what stands there without brackets, quotes and escapes.
-/

namespace ObjectPath

/-- How an atom is written. -/
inductive AtomForm
  | name
  | bracketed
  | quoted
deriving DecidableEq, Repr

/-- One segment of an expression, with the byte offset at which it is written. -/
structure Atom where
  text : String
  form : AtomForm
  offset : Nat
deriving DecidableEq, Repr

namespace Atom

/-- Whether an atom is written in brackets. -/
def isBracketed (a : Atom) : Bool := a.form != .name

/-- Whether an atom is written as a quoted literal. -/
def isQuoted (a : Atom) : Bool := a.form == .quoted

/-- The atom as an index of a sequence. -/
def index? (a : Atom) : Option Nat :=
  match IntTy.usize.read a.text with
  | .ok n => some n.toNat
  | .error _ => none

/-- A character of a literal in single quotes. -/
def escape (c : Char) : List Char :=
  if c = '\\' then ['\\', '\\'] else if c = '\x27' then ['\\', '\x27'] else [c]

/-- An atom as it may be written in an expression; literals are put in single quotes. -/
def write (a : Atom) : List Char :=
  match a.form with
  | .name => a.text.toList
  | .bracketed => '[' :: a.text.toList ++ [']']
  | .quoted => ['[', '\x27'] ++ a.text.toList.flatMap escape ++ ['\x27', ']']

/-- An atom as it may be written in an expression. -/
def display (a : Atom) : String := String.ofList a.write

end Atom

end ObjectPath
