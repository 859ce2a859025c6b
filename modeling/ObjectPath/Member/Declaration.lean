import ObjectPath.Member.Tag
import ObjectPath.Value.Place

/-!
# Declarations of members

A record declares its members: fields, each with the slot it stands for, and accessor methods.
Nothing is checked here.  What a getter reads and what it offers to a write are two functions of
their own, and nothing but their types relates them.  To offer a place a getter may change the
record.
-/

namespace ObjectPath

/-- A field: a name for a slot of the record.  A field is declared by two functions, one that reads
it and one that gives its place; both are taken to be for one slot of the record itself.  Two that
differ, or lead to a slot of a record inside, are left out. -/
structure Field where
  name : String
  slot : Nat
  type : Ty
  tags : Tags

/-- What an accessor method does with a record, and with an index if it takes one. -/
inductive Access
  /-- Reads a value, and offers its place to a write. -/
  | getter (get : Value → Option Value) (offer : Value → Offer)
  /-- Stores a value in the record. -/
  | setter (set : Value → Value → Value)
  /-- Reads the value for an index, and offers its place to a write. -/
  | indexedGetter (index : Ty) (get : Value → Value → Option Value) (offer : Value → Value → Offer)
  /-- Stores a value for an index in the record. -/
  | indexedSetter (index : Ty) (set : Value → Value → Value → Value)

/-- An accessor method. -/
structure Method where
  name : String
  type : Ty
  access : Access
  tags : Tags

namespace Method

/-- Whether a method reads. -/
def isGetter (m : Method) : Bool :=
  match m.access with
  | .getter _ _ | .indexedGetter _ _ _ => true
  | .setter _ | .indexedSetter _ _ => false

/-- The type of the index a method takes. -/
def index? (m : Method) : Option Ty :=
  match m.access with
  | .getter _ _ | .setter _ => none
  | .indexedGetter t _ _ | .indexedSetter t _ => some t

end Method

/-- The declared members of a record, in order. -/
structure Declarations where
  methods : List Method
  fields : List Field

end ObjectPath
