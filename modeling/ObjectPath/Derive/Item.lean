import ObjectPath.Derive.Attribute
import ObjectPath.Derive.Token.Lexeme

/-!
# Items

An item is the declaration of a type: its attributes, its name, whether it has generic parameters,
and its fields if it is a structure with named fields.  `Item.ofText?` reads a declaration; it takes
for granted that the declaration is well formed and looks only for the parts that are needed.
-/

namespace ObjectPath.Derive

/-- A named field of an item. -/
structure ItemField where
  attributes : List Attribute
  ident : String
  type : List Token
deriving DecidableEq, Repr

/-- What kind of type an item declares. -/
inductive Body
  /-- A structure with named fields. -/
  | named (fields : List ItemField)
  /-- Any other structure, an enumeration or a union. -/
  | other
deriving DecidableEq, Repr

/-- An item. -/
structure Item where
  attributes : List Attribute
  ident : String
  /-- Whether there are generic parameters. -/
  generic : Bool
  body : Body
deriving DecidableEq, Repr

/-! ## Reading -/

/-- The attribute whose brackets hold some tokens. -/
def Attribute.ofBody (ts : List Token) : Attribute :=
  let isPathToken : Token → Bool
    | .word _ | .mark ':' _ => true
    | _ => false
  let arguments :=
    match ts.dropWhile isPathToken with
    | .group _ inner :: _ => .list inner
    | .mark _ _ :: _ => .value
    | _ => .none
  ⟨ts.takeWhile isPathToken, arguments⟩

/-- The attributes in front of a declaration, and the tokens behind them. -/
def Attribute.leading : List Token → List Attribute × List Token
  | .mark '#' _ :: .group .bracket body :: ts =>
    let (as, rest) := leading ts
    (.ofBody body :: as, rest)
  | ts => ([], ts)

namespace Item

/-- The tokens behind a visibility. -/
def dropVisibility : List Token → List Token
  | .word "pub" :: .group .paren _ :: ts => ts
  | .word "pub" :: ts => ts
  | ts => ts

/-- How many angle brackets are open behind a token, `dash` telling that the one in front may be the
first mark of an arrow. -/
def depthAfter (depth : Nat) (dash : Bool) : Token → Nat
  | .mark '<' _ => depth + 1
  | .mark '>' _ => if dash then depth else depth - 1
  | _ => depth

/-- Whether a token may be the first mark of an arrow. -/
def isDash : Token → Bool
  | .mark '-' behind => behind.head? = some '>'
  | _ => false

/-- Cuts tokens at the commas outside angle brackets.  A comma at the end cuts nothing off. -/
def cutAtCommas (depth : Nat) (dash : Bool) (taken : List Token) : List Token → List (List Token)
  | [] => if taken.isEmpty then [] else [taken.reverse]
  | t :: ts =>
    match depth, t with
    | 0, .mark ',' _ => taken.reverse :: cutAtCommas 0 false [] ts
    | _, t => cutAtCommas (depthAfter depth dash t) (isDash t) (t :: taken) ts

/-- The field that some tokens declare. -/
def field? (ts : List Token) : Option ItemField :=
  let (as, rest) := Attribute.leading ts
  match dropVisibility rest with
  | .word ident :: .mark ':' _ :: type => some ⟨as, ident, type⟩
  | _ => none

/-- The body that follows the bounds of an item.  Braces behind a macro are its arguments. -/
def bodyBehindBounds (depth : Nat) (dash : Bool) : List Token → Body
  | [] => .other
  | .word _ :: .mark '!' _ :: .group .brace _ :: ts => bodyBehindBounds depth false ts
  | t :: ts =>
    match depth, t with
    | 0, .group .brace fields => .named ((cutAtCommas 0 false [] fields).filterMap field?)
    | _, t => bodyBehindBounds (depthAfter depth dash t) (isDash t) ts

/-- The body of a structure. -/
def bodyOf : List Token → Body
  | .group .brace fields :: _ => .named ((cutAtCommas 0 false [] fields).filterMap field?)
  | .word "where" :: ts => bodyBehindBounds 0 false ts
  | _ => .other

/-- The tokens behind the angle brackets of generic parameters, `depth + 1` of them being open. -/
def dropGenerics (depth : Nat) (dash : Bool) : List Token → List Token
  | [] => []
  | t :: ts =>
    match depthAfter (depth + 1) dash t with
    | 0 => ts
    | depth + 1 => dropGenerics depth (isDash t) ts

/-- The item that tokens declare. -/
def ofTokens? (ts : List Token) : Option Item :=
  let (as, rest) := Attribute.leading ts
  match dropVisibility rest with
  | .word kind :: .word ident :: rest =>
    let (generic, rest) :=
      match rest with
      | .mark '<' _ :: .mark '>' _ :: rest => (false, rest)
      | .mark '<' _ :: rest => (true, dropGenerics 0 false rest)
      | rest => (false, rest)
    some ⟨as, ident, generic, if kind = "struct" then bodyOf rest else .other⟩
  | _ => none

/-- The item that a text declares. -/
def ofText? (s : String) : Option Item := (Token.ofText? s).bind ofTokens?

end Item

end ObjectPath.Derive
