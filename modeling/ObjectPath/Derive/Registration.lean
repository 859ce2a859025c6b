import ObjectPath.Derive.FieldOptions
import ObjectPath.Derive.Item
import ObjectPath.Derive.ItemOptions

/-!
# Registrations

What is derived from an item: the fields that are registered with their types and tags, the function
that declares further members, and whether there is a default value.

`Registration.fromItem` checks an item in a fixed order: its kind, its generic parameters, its own
attributes, and then field by field the attributes of the fields.  The first fault is reported.
-/

namespace ObjectPath.Derive

/-- A field that is registered. -/
structure RegisteredField where
  ident : String
  type : List Token
  tags : List (List Token)
deriving DecidableEq, Repr

/-- The name a field is registered under: its own without an `r#`. -/
def RegisteredField.name (f : RegisteredField) : String :=
  match f.ident.toList with
  | 'r' :: '#' :: cs => String.ofList cs
  | _ => f.ident

/-- What is derived from an item. -/
structure Registration where
  ident : String
  /-- Whether there is a default value. -/
  default : Bool
  /-- The function that declares further members. -/
  members : Option (List Token)
  /-- The path of the library. -/
  cratePath : List Token
  fields : List RegisteredField
deriving DecidableEq, Repr

namespace Registration

/-- The path of the library unless another one is given. -/
def defaultCratePath : List Token := Token.marks "::" ++ Token.words "vc_property"

/-- The fields that are registered. -/
def fieldsOf (p : Parsers) : List ItemField → Except Fault (List RegisteredField)
  | [] => .ok []
  | f :: fs => do
    let o ← FieldOptions.ofAttributes p f.attributes
    let registered ← fieldsOf p fs
    return if o.skip then registered else ⟨f.ident, f.type, o.tags⟩ :: registered

/-- What is derived from an item. -/
def fromItem (p : Parsers) (i : Item) : Except Fault Registration :=
  match i.body with
  | .other => .error .shape
  | .named fields =>
    if i.generic then .error .generic
    else do
      let o ← ItemOptions.ofAttributes p i.attributes
      let fields ← fieldsOf p fields
      return ⟨i.ident, o.default, o.members, o.cratePath.getD defaultCratePath, fields⟩

end Registration

end ObjectPath.Derive
