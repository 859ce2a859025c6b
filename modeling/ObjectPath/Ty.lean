import ObjectPath.Number.Integer
import ObjectPath.Number.Binary

/-!
# Types

The types of an object graph: leaves, optional slots, sequences, maps and records.  A record and a
leaf with a name are known by their path; what a record holds is said by a `Schema`.  `Ty.path` is
the text that stands for a type in messages.
-/

namespace ObjectPath

/-- The types whose values are read, written and converted as a whole. -/
inductive LeafTy
  | bool
  | char
  | text
  | int (t : IntTy)
  | float (t : FloatTy)
  | named (path : String)
deriving DecidableEq, Repr, Inhabited

/-- The sequences: two growable ones, and the boxed one whose length is fixed. -/
inductive SeqKind
  | vec
  | deque
  | boxed
deriving DecidableEq, Repr, Inhabited

/-- Whether elements can be appended. -/
def SeqKind.growable : SeqKind → Bool
  | .vec | .deque => true
  | .boxed => false

/-- The maps: without an order of its own, ordered by key, in order of insertion.  The last one is
an `IndexMap`: its order is what the crate `indexmap` documents, where an entry keeps its place while
its value is replaced, and a new one goes behind all others. -/
inductive MapKind
  | hash
  | tree
  | insertion
deriving DecidableEq, Repr, Inhabited

/-- Whether entries are listed by key, and not in the order of their insertion.  A map without an
order of its own is listed by key too. -/
def MapKind.byKey : MapKind → Bool
  | .hash | .tree => true
  | .insertion => false

/-- The type of a slot of an object graph. -/
inductive Ty
  | leaf (t : LeafTy)
  | option (inner : Ty)
  | seq (kind : SeqKind) (item : Ty)
  | map (kind : MapKind) (key value : Ty)
  | record (path : String)
deriving DecidableEq, Repr, Inhabited

/-- The shape of a type, as a path sees it. -/
inductive Kind
  | record
  | list
  | array
  | map
  | optional
  | leaf
deriving DecidableEq, Repr, Inhabited

/-- The word for a shape in answers. -/
def Kind.word : Kind → String
  | .record => "struct"
  | .list => "list"
  | .array => "array"
  | .map => "map"
  | .optional => "optional"
  | .leaf => "opaque"

/-- The name of a shape. -/
def Kind.name : Kind → String
  | .record => "Struct"
  | .list => "List"
  | .array => "Array"
  | .map => "Map"
  | .optional => "Optional"
  | .leaf => "Opaque"

namespace Ty

/-- The type of Booleans. -/
abbrev bool : Ty := .leaf .bool

/-- The type of characters. -/
abbrev char : Ty := .leaf .char

/-- The type of texts. -/
abbrev text : Ty := .leaf .text

/-- The type of integers of a width. -/
abbrev int (t : IntTy) : Ty := .leaf (.int t)

/-- The type of floating point numbers of a format. -/
abbrev float (t : FloatTy) : Ty := .leaf (.float t)

/-- The shape of a type. -/
def kind : Ty → Kind
  | leaf _ => .leaf
  | option _ => .optional
  | seq k _ => if k.growable then .list else .array
  | map _ _ _ => .map
  | record _ => .record

/-- Whether slots of the type can be null. -/
def isOptional : Ty → Bool
  | option _ => true
  | _ => false

/-- The type without one optional layer: the type a value in the slot has when it is not null. -/
def declared : Ty → Ty
  | option t => t
  | t => t

/-- The text for a type in messages. -/
def path : Ty → String
  | leaf .bool => "bool"
  | leaf .char => "char"
  | leaf .text => "alloc::string::String"
  | leaf (.int t) => t.name
  | leaf (.float t) => t.name
  | leaf (.named p) => p
  | option t => "core::option::Option<" ++ t.path ++ ">"
  | seq .vec t => "alloc::vec::Vec<" ++ t.path ++ ">"
  | seq .deque t => "alloc::collections::vec_deque::VecDeque<" ++ t.path ++ ">"
  | seq .boxed t => "alloc::boxed::Box<[" ++ t.path ++ "]>"
  | map .hash k v => "std::collections::hash::map::HashMap<" ++ k.path ++ ", " ++ v.path ++ ">"
  | map .tree k v => "alloc::collections::btree::map::BTreeMap<" ++ k.path ++ ", " ++ v.path ++ ">"
  | map .insertion k v => "indexmap::map::IndexMap<" ++ k.path ++ ", " ++ v.path ++ ">"
  | record p => p

end Ty

end ObjectPath
