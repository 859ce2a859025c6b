import ObjectPath.Member.Metadata

/-!
# Schemas

A schema says what is behind the paths of named types: the slots and members of records, and the
default values of records and leaves.  A type without a default value cannot be created on the way
of a write.
-/

namespace ObjectPath

/-- A slot of a record, with the value it has in a fresh record. -/
structure Slot where
  name : String
  type : Ty
  initial : Value

/-- The declaration of a record.  Values of the record can be created if it is `constructible`. -/
structure RecordDecl where
  path : String
  slots : List Slot
  constructible : Bool
  members : Declarations

/-- The record with every slot at its initial value. -/
def RecordDecl.fresh (d : RecordDecl) : Value := .record d.path (d.slots.map (·.initial))

/-- The declaration of a named leaf type. -/
structure LeafDecl where
  path : String
  default? : Option Value

/-- The declarations of the named types. -/
structure Schema where
  records : List RecordDecl
  leaves : List LeafDecl

/-- The default value of a leaf type that is not named. -/
def LeafTy.zero : LeafTy → Leaf
  | .bool => .bool false
  | .char => .char '\x00'
  | .text => .text ""
  | .int t => .int t 0
  | .float t => .float t 0
  | .named p => .named p 0

namespace Schema

/-- The declaration of a record. -/
def record? (s : Schema) (path : String) : Option RecordDecl :=
  s.records.find? fun d => d.path = path

/-- The declaration of a named leaf type. -/
def leaf? (s : Schema) (path : String) : Option LeafDecl :=
  s.leaves.find? fun d => d.path = path

/-- The value of a type that a write creates where one is missing. -/
def default? (s : Schema) : Ty → Option Value
  | .leaf (.named p) => (s.leaf? p).bind (·.default?)
  | .leaf t => some (.leaf t.zero)
  | .option t => some (.absent t)
  | .seq k t => some (.seq k t [])
  | .map k t u => some (.map k t u [])
  | .record p =>
    match s.record? p with
    | some d => if d.constructible then some d.fresh else none
    | none => none

/-- The metadata of a record type. -/
def metadata? (s : Schema) : Ty → Option Metadata
  | .record p => (s.record? p).map fun d => .build d.members
  | _ => none

end Schema

end ObjectPath
