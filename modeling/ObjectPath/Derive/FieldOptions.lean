import ObjectPath.Derive.Attribute

/-!
# Options of a field

The attributes of a field have the entries `skip` and `@tag`, a tag being an expression.  A field
that is skipped has no tags, in whatever order they are written.
-/

namespace ObjectPath.Derive

/-- What the attributes of a field ask for. -/
structure FieldOptions where
  /-- Whether the field is left out. -/
  skip : Bool
  /-- The tags in the order they are written. -/
  tags : List (List Token)
deriving DecidableEq, Repr

namespace FieldOptions

/-- The options without any attribute. -/
def empty : FieldOptions := ⟨false, []⟩

/-- The options with a further tag. -/
def addTag (o : FieldOptions) (tag : List Token) : FieldOptions :=
  { o with tags := o.tags ++ [tag] }

/-- Reads an entry of a field. -/
def entry (p : Parsers) (o : FieldOptions) : Parser FieldOptions := do
  if ← Parser.shows '@' then
    Parser.mark '@'
    return o.addTag (← p.expression)
  else if (← Parser.name) = "skip" then return { o with skip := true }
  else Parser.fail .fieldEntry

/-- The options that the attributes of a field give.  A field that is left out has no tags. -/
def ofAttributes (p : Parsers) (as : List Attribute) : Except Fault FieldOptions :=
  match readAttributes (entry p) empty as with
  | .ok o => if o.skip ∧ o.tags ≠ [] then .error .skippedTags else .ok o
  | .error f => .error f

end FieldOptions

end ObjectPath.Derive
