import ObjectPath.Member.Tag
import ObjectPath.Proofs.Hygiene
import ObjectPath.Proofs.Outlines

/-!
# What derived code says

Derived code is read back without knowing what it was made from: `Derived.ofCode?` takes off the
frame of the first implementation, the names of the library being written as paths that start with
the given one, and reads the statements in it up to their semicolons.  What comes out are the fields
that are registered, with their types and tags, the function that is called behind them, and whether
a default value is recorded.

An item that is accepted has entries, as the parsers read them (`Item.Says`), and what comes out of
the code derived for it is what these ask for (`Outline.RealizedBy`, `Registration.derivedFrom`).
No name of the library is in derived code but behind the path of the library, whatever stands in the
item (`Hygienic`).
-/

namespace ObjectPath.Derive

open Token

/-! ## Reading derived code -/

/-- The word that must come first, and the tokens behind it. -/
def word? : List Token → Option (String × List Token)
  | .word w :: ts => some (w, ts)
  | _ => none

/-- What the brackets hold that must come first, and the tokens behind them. -/
def group? (d : Delimiter) : List Token → Option (List Token × List Token)
  | .group e body :: ts => if e = d then some (body, ts) else none
  | _ => none

/-- What the brackets hold that are all there is. -/
def only? (d : Delimiter) : List Token → Option (List Token)
  | [.group e body] => if e = d then some body else none
  | _ => none

/-- A field that derived code registers. -/
structure DerivedField where
  /-- The literal for the name. -/
  name : String
  type : List Token
  /-- The field that is read. -/
  shared : String
  /-- The field that is offered to a write. -/
  mutable : String
  /-- The tags in the order they are inserted. -/
  inserted : List (List Token)
deriving DecidableEq, Repr

namespace DerivedField

/-- What the registration of a field starts with. -/
def head : List Token := words "table" ++ marks "." ++ words "field" ++ marks "::<"

/-- The parameter of a closure. -/
def this : List Token := marks "|" ++ words "this" ++ marks "|"

/-- What stands in front of the field that the first closure borrows. -/
def sharedHead : List Token := marks "," ++ this ++ marks "&" ++ words "this" ++ marks "."

/-- What stands in front of the field that the second closure borrows. -/
def mutableHead : List Token :=
  marks "," ++ this ++ marks "&" ++ words "mut" ++ words "this" ++ marks "."

end DerivedField

namespace Derived

/-- Whether a default value is recorded behind the type information. -/
def default? (ts : List Token) : Option Bool :=
  if ts = [] then some false
  else if ts = marks "." ++ words "with_default" ++ marks "::<" ++ words "Self" ++ marks ">" ++
      paren [] then some true
  else none

end Derived

variable {ts us es : List Token}

@[simp] theorem group?_brace (body ts : List Token) :
    group? .brace (brace body ++ ts) = some (body, ts) := rfl

@[simp] theorem group?_paren (body ts : List Token) :
    group? .paren (paren body ++ ts) = some (body, ts) := rfl

@[simp] theorem only?_brace (body : List Token) : only? .brace (brace body) = some body := rfl

@[simp] theorem only?_paren (body : List Token) : only? .paren (paren body) = some body := rfl

@[simp] theorem word?_words (w : String) (ts : List Token) : word? (words w ++ ts) = some (w, ts) :=
  rfl

/-! ## Fields -/

namespace RegisteredField

/-- What the parentheses of a registration hold. -/
def arguments (f : RegisteredField) : List Token :=
  .literal (Text.quote f.name) :: (DerivedField.sharedHead ++ (words f.ident ++
    (DerivedField.mutableHead ++ words f.ident)))

/-- The insertion of a tag. -/
def insertion (tag : List Token) : List Token := marks "." ++ words "insert" ++ paren tag

/-- The statement that registers a field, without its semicolon. -/
def statement (f : RegisteredField) : List Token :=
  DerivedField.head ++ (f.type ++ marks ">" ++ paren f.arguments ++ f.tags.flatMap insertion)

end RegisteredField

namespace Derived

end Derived

/-! ## Items -/

/-- The tags of a field once they are inserted, an expression being a tag. -/
def DerivedField.tags (f : DerivedField) (value : List Token → Tag) : Tags :=
  f.inserted.foldl (fun tags e => tags.insert (value e)) .empty

/-- What is given of a field: its name, its type and its tags. -/
def FieldOutline.given (x : FieldOutline) : List (List Token) :=
  words x.ident :: x.type :: x.entries.filterMap Entry.tag?

/-- What is given of an item: its name, the function for further members, and its fields. -/
def Outline.given (x : Outline) : List (List Token) :=
  words x.ident :: (x.entries.filterMap (Entry.value? .members) ++
    x.fields.flatMap FieldOutline.given)

namespace Outline

variable {x : Outline}

end Outline

section Unbroken

variable {R : ParseRelation} {p : Parsers}

end Unbroken

end ObjectPath.Derive
