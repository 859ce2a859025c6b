import ObjectPath.Derive.Attribute

/-!
# Options of an item

The attributes of an item have the entries `default`, `members = path` and `crate_path = path`, each
at most once over all the attributes.  That an entry is given a second time is reported at its `=`,
or at its name if it has none.
-/

namespace ObjectPath.Derive

/-- What the attributes of an item ask for. -/
structure ItemOptions where
  /-- Whether there is a default value. -/
  default : Bool
  /-- The function that declares further members. -/
  members : Option (List Token)
  /-- The path of the library. -/
  cratePath : Option (List Token)
deriving DecidableEq, Repr

namespace ItemOptions

/-- The options without any attribute. -/
def empty : ItemOptions := ⟨false, none, none⟩

/-- Whether an entry was given. -/
def given (o : ItemOptions) : Setting → Bool
  | .default => o.default
  | .members => o.members.isSome
  | .cratePath => o.cratePath.isSome

/-- The options with a further entry; `path` is what it is set to. -/
def put (o : ItemOptions) (s : Setting) (path : List Token) : ItemOptions :=
  match s with
  | .default => { o with default := true }
  | .members => { o with members := some path }
  | .cratePath => { o with cratePath := some path }

/-- Reads the rest of a setting behind its name: what it is set to is a path. -/
def set (p : Parsers) (o : ItemOptions) (s : Setting) : Parser ItemOptions := do
  Parser.mark '='
  if o.given s then Parser.fail (.duplicate s) else return o.put s (← p.path)

/-- Reads the rest of an entry behind its name. -/
def rest (p : Parsers) (o : ItemOptions) (w : String) : Parser ItemOptions :=
  if w = Setting.default.word then
    if o.given .default then Parser.fail (.duplicate .default) else pure (o.put .default [])
  else if w = Setting.members.word then o.set p .members
  else if w = Setting.cratePath.word then o.set p .cratePath
  else if w = "skip" then Parser.fail .skipOnItem
  else Parser.fail .itemEntry

/-- Reads an entry of an item. -/
def entry (p : Parsers) (o : ItemOptions) : Parser ItemOptions := do
  if ← Parser.shows '@' then Parser.fail .tagOnItem else o.rest p (← Parser.name)

/-- The options that the attributes of an item give. -/
def ofAttributes (p : Parsers) (as : List Attribute) : Except Fault ItemOptions :=
  readAttributes (entry p) empty as

end ItemOptions

end ObjectPath.Derive
