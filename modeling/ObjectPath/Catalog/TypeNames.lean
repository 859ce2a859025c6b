import ObjectPath.Catalog.Workbench

/-!
# Names of types

Reads the short notation of types: the name of a leaf type or of a record of the catalogue, or a
container with its arguments in angle brackets.  Blanks between the parts are ignored.
-/

namespace ObjectPath.Catalog

/-- The types with a name and no arguments. -/
def namedTypes : List (String × Ty) :=
  [("bool", .bool), ("char", .char), ("String", .text), ("f32", .float .single),
    ("f64", .float .double), ("Tier", tier), ("Token", token), ("Dyn", .record workbenchPath)] ++
  ([.i8, .i16, .i32, .i64, .i128, .isize, .u8, .u16, .u32, .u64, .u128, .usize].map
    fun (t : IntTy) => (t.name, Ty.int t)) ++
  (["Address", "User", "Line", "Order", "Upload", "Account", "Plan", "Sealed", "Node", "Zoo",
    "Shelf", "Labels", "Gadget"].map fun name => (name, recordTy name))

/-- Reads an expected character. -/
def expect (c : Char) : List Char → Option (List Char)
  | [] => none
  | d :: cs => if d = c then some cs else none

/-- Reads a type without blanks; nested at most `fuel` deep. -/
def readType : Nat → List Char → Option (Ty × List Char)
  | 0, _ => none
  | fuel + 1, cs =>
    let name := String.ofList (cs.takeWhile Char.isAlphanum)
    let rest := cs.dropWhile Char.isAlphanum
    let single (make : Ty → Ty) : Option (Ty × List Char) := do
      let (t, rest) ← readType fuel (← expect '<' rest)
      return (make t, ← expect '>' rest)
    let pair (kind : MapKind) : Option (Ty × List Char) := do
      let (key, rest) ← readType fuel (← expect '<' rest)
      let (value, rest) ← readType fuel (← expect ',' rest)
      return (.map kind key value, ← expect '>' rest)
    match name with
    | "Option" => single .option
    | "Vec" => single (.seq .vec)
    | "VecDeque" => single (.seq .deque)
    | "Box" => do
      let (t, rest) ← readType fuel (← expect '[' (← expect '<' rest))
      return (.seq .boxed t, ← expect '>' (← expect ']' rest))
    | "HashMap" => pair .hash
    | "BTreeMap" => pair .tree
    | "IndexMap" => pair .insertion
    | name => (namedTypes.lookup name).map fun t => (t, rest)

/-- The type with a name in the short notation. -/
def typeNamed? (s : String) : Option Ty :=
  let cs := s.toList.filter fun c => !Text.isBlank c
  match readType (cs.length + 1) cs with
  | some (t, []) => some t
  | _ => none

end ObjectPath.Catalog
