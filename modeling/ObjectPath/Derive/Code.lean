import ObjectPath.Derive.Grammar.Parsers
import ObjectPath.Text.Quoted

/-!
# Derived code

The code that makes a type known to the library.  The first implementation registers the fields in
order, each with its tags in order, calls the function for further members, and records the default
value; the second one tells that the type is a record.

Every name of the library is written as a path behind the path of the library
(`LibraryName.tokens`).
-/

namespace ObjectPath.Derive

/-- A name of the library that derived code uses. -/
inductive LibraryName
  | typed
  | typeInfo
  | typeInfoCell
  | memberTable
  | reflect
  | common
  | reflectRef
  | reflectMut
deriving DecidableEq, Repr

namespace LibraryName

/-- Where the library has a name. -/
def location : LibraryName → List String
  | typed => ["info", "Typed"]
  | typeInfo => ["info", "TypeInfo"]
  | typeInfoCell => ["info", "TypeInfoCell"]
  | memberTable => ["members", "MemberTable"]
  | reflect => ["Reflect"]
  | common => ["__impl_reflect_common"]
  | reflectRef => ["reflection", "ReflectRef"]
  | reflectMut => ["reflection", "ReflectMut"]

/-- A name as a path behind the path of the library. -/
def tokens (cratePath : List Token) (n : LibraryName) : List Token :=
  cratePath ++ n.location.flatMap fun s => Token.marks "::" ++ Token.words s

end LibraryName

open Token in
/-- The statement that registers a field. -/
def RegisteredField.code (f : RegisteredField) : List Token :=
  let this := marks "|" ++ words "this" ++ marks "|"
  words "table" ++ marks "." ++ words "field" ++ marks "::<" ++ f.type ++ marks ">" ++
    paren (
      [.literal (Text.quote f.name)] ++ marks "," ++
      this ++ marks "&" ++ words "this" ++ marks "." ++ words f.ident ++ marks "," ++
      this ++ marks "&" ++ words "mut" ++ words "this" ++ marks "." ++ words f.ident) ++
    (f.tags.flatMap fun tag => marks "." ++ words "insert" ++ paren tag) ++ marks ";"

namespace Registration

open Token

/-- A name of the library. -/
def library (r : Registration) (n : LibraryName) : List Token := n.tokens r.cratePath

/-- The statements that declare the members: one for each field, and the call of the function for
further members. -/
def declarations (r : Registration) : List Token :=
  (r.fields.flatMap RegisteredField.code) ++
    (match r.members with
    | some f => f ++ paren (words "table") ++ marks ";"
    | none => [])

/-- The type information: the members, and the default value if there is one. -/
def information (r : Registration) : List Token :=
  r.library .typeInfo ++ marks "::" ++ words "structure" ++
    marks "::<" ++ words "Self" ++ marks ">" ++
    paren (
      marks "|" ++ words "table" ++ marks ":" ++ marks "&" ++ words "mut" ++
      r.library .memberTable ++ marks "<" ++ words "Self" ++ marks ">" ++ marks "|" ++
      brace r.declarations) ++
    (if r.default then
      marks "." ++ words "with_default" ++ marks "::<" ++ words "Self" ++ marks ">" ++ paren []
    else [])

/-- The implementation that gives the type information, which is made once. -/
def typedCode (r : Registration) : List Token :=
  words "impl" ++ r.library .typed ++ words "for" ++ words r.ident ++ brace (
    words "fn" ++ words "type_info" ++ paren [] ++ marks "->" ++
    marks "&\x27" ++ words "static" ++ r.library .typeInfo ++ brace (
      words "static" ++ words "CELL" ++ marks ":" ++ r.library .typeInfoCell ++ marks "=" ++
      r.library .typeInfoCell ++ marks "::" ++ words "new" ++ paren [] ++ marks ";" ++
      words "CELL" ++ marks "." ++ words "get_or_init" ++
      paren (marks "||" ++ brace r.information)))

/-- A method that gives the record behind a receiver. -/
def viewCode (r : Registration) (method : String) (receiver : List Token) (n : LibraryName) :
    List Token :=
  marks "#" ++ bracket (words "inline") ++ words "fn" ++ words method ++ paren receiver ++
    marks "->" ++ r.library n ++ marks "<" ++ marks "\x27" ++ words "_" ++ marks ">" ++
    brace (r.library n ++ marks "::" ++ words "Struct" ++ paren (words "self"))

/-- The implementation that tells the shape of the type. -/
def reflectCode (r : Registration) : List Token :=
  words "impl" ++ r.library .reflect ++ words "for" ++ words r.ident ++ brace (
    r.library .common ++ marks "!" ++ paren [] ++ marks ";" ++
    r.viewCode "reflect_ref" (marks "&" ++ words "self") .reflectRef ++
    r.viewCode "reflect_mut" (marks "&" ++ words "mut" ++ words "self") .reflectMut)

/-- The code derived for an item. -/
def code (r : Registration) : List Token := r.typedCode ++ r.reflectCode

end Registration

end ObjectPath.Derive
