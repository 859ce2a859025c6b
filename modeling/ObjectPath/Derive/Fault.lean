import ObjectPath.Derive.Token

/-!
# Faults of a declaration

Why no registration can be derived from a declaration, and the wording of each reason.
-/

namespace ObjectPath.Derive

/-- An entry of an item's attributes that may be given once. -/
inductive Setting
  | default
  | members
  | cratePath
deriving DecidableEq, Repr

/-- The word that introduces an entry. -/
def Setting.word : Setting → String
  | default => "default"
  | members => "members"
  | cratePath => "crate_path"

/-- Why no registration can be derived. -/
inductive Fault
  /-- The item is no structure with named fields. -/
  | shape
  /-- The item has generic parameters. -/
  | generic
  /-- A tag in an attribute of the item. -/
  | tagOnItem
  /-- `skip` in an attribute of the item. -/
  | skipOnItem
  /-- A name that no entry of an item starts with. -/
  | itemEntry
  /-- A name that no entry of a field starts with. -/
  | fieldEntry
  /-- A field that is skipped has tags. -/
  | skippedTags
  /-- An entry is given a second time. -/
  | duplicate (s : Setting)
  /-- An attribute with nothing behind its name. -/
  | noArguments
  /-- An attribute with a value. -/
  | notInParentheses
  /-- Something else than a name; `atEnd` tells that there is nothing. -/
  | noName (atEnd : Bool)
  /-- A keyword where a name is expected. -/
  | keyword (w : String)
  /-- A mark is missing. -/
  | missing (mark : Char)
  /-- Brackets hold more than what belongs into them. -/
  | leftover (d : Delimiter)
  /-- What is wrong with an expression or a path. -/
  | malformed (message : String)
deriving DecidableEq, Repr

/-- The wording of a fault. -/
def Fault.message : Fault → String
  | shape => "`Reflect` can only be derived for structs with named fields"
  | generic => "`Reflect` cannot be derived for generic structs"
  | tagOnItem => "tags can only be applied to fields"
  | skipOnItem => "`skip` can only be applied to fields"
  | itemEntry => "expected `default`, `members = path` or `crate_path = path`"
  | fieldEntry => "expected `skip` or `@tag`"
  | skippedTags => "a skipped field cannot carry tags"
  | duplicate s => "duplicate `" ++ s.word ++ "`"
  | noArguments => "expected attribute arguments in parentheses: #[reflect(...)]"
  | notInParentheses => "expected parentheses: #[reflect(...)]"
  | noName false => "expected identifier"
  | noName true => "unexpected end of input, expected identifier"
  | keyword w => "expected identifier, found keyword `" ++ w ++ "`"
  | missing mark => "expected `" ++ mark.toString ++ "`"
  | leftover .none => "unexpected token"
  | leftover d => "unexpected token, expected `" ++ String.ofList d.closing ++ "`"
  | malformed message => message

end ObjectPath.Derive
