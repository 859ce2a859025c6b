import ObjectPath.Derive.Parser

/-!
# Attributes

An attribute has a path and arguments.  The attributes that count are those whose path is the name
`reflect`; all others are foreign.  The arguments of one that counts are entries separated by
commas, and a comma may follow the last one.

The entries are read one after the other, starting from the options that the attributes in front
have given.
-/

namespace ObjectPath.Derive

/-- What follows the path of an attribute. -/
inductive Arguments
  | none
  /-- A value behind `=`. -/
  | value
  /-- Tokens in brackets. -/
  | list (ts : List Token)
deriving DecidableEq, Repr

/-- An attribute. -/
structure Attribute where
  path : List Token
  arguments : Arguments
deriving DecidableEq, Repr

namespace Attribute

/-- Whether an attribute counts. -/
def isReflect (a : Attribute) : Bool := a.path = [.word "reflect"]

/-- The entries of an attribute. -/
def entries (a : Attribute) : Except Fault (List Token) :=
  match a.arguments with
  | .list ts => .ok ts
  | .none => .error .noArguments
  | .value => .error .notInParentheses

end Attribute

/-- Reads the entries of the attributes that count, one attribute after the other. -/
def readAttributes {ω : Type} (entry : ω → Parser ω) (o : ω) : List Attribute → Except Fault ω
  | [] => .ok o
  | a :: as =>
    if a.isReflect then do readAttributes entry (← Parser.arguments entry o (← a.entries)) as
    else readAttributes entry o as

end ObjectPath.Derive
