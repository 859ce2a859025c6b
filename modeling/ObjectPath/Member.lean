import ObjectPath.Member.Metadata
import ObjectPath.Fault

/-!
# Members

A member of a record is a property or a field.  A property hides the field of its name, even where
the property has no getter or no setter; only for tags the field is asked too.
-/

namespace ObjectPath

/-- A member of a record: a property, with the field it hides, or a field. -/
inductive Member
  | property (p : Property) (hidden : Option Field)
  | field (f : Field)

/-- The member of a name. -/
def Metadata.member? (md : Metadata) (name : String) : Option Member :=
  match md.property? name, md.field? name with
  | some p, f => some (.property p f)
  | none, some f => some (.field f)
  | none, none => none

namespace Member

/-- The name of a member. -/
def name : Member → String
  | property p _ => p.name
  | field f => f.name

/-- The type of the value of a member. -/
def type : Member → Ty
  | property p _ => p.type
  | field f => f.type

/-- The type of the index of a member that takes one. -/
def index? : Member → Option Ty
  | property p _ => p.index?
  | field _ => none

/-- A tag of a member: those of the getter come first, then the setter's, then the field's. -/
def tag? (k : TagKind) : Member → Option Tag
  | property p hidden => (p.tag? k).or (hidden.bind (·.tags.get? k))
  | field f => f.tags.get? k

/-- Reads a member of a record. -/
def read (m : Member) (record : Value) : Except Fault (Option Value) :=
  match m with
  | property p _ =>
    match p.reader? with
    | some (.getter get _) => .ok (get record)
    | _ => .error (.unreadable m.name)
  | field f => .ok ((record.atSlot? f.slot).map (·.value))

/-- The place of the value of a member of a record. -/
def place (m : Member) (record : Value) : Except Fault Offer :=
  match m with
  | property p _ =>
    match p.reader? with
    | some (.getter _ offer) => .ok (offer record)
    | _ => .error (.unreadable m.name)
  | field f => .ok (.of (record.atSlot? f.slot))

/-- Stores a value in a member of a record, and gives the record. -/
def write (m : Member) (record value : Value) : Except Fault Value :=
  let mismatch : Fault := .typeMismatch m.name m.type (.value value.typeOf)
  match m with
  | property p _ =>
    match p.writer? with
    | some (t, .setter set) => if value.typeOf = t then .ok (set record value) else .error mismatch
    | _ => .error (.unwritable m.name)
  | field f =>
    match record.atSlot? f.slot with
    | some p => if value.typeOf = p.value.typeOf then .ok (p.fill value) else .error mismatch
    | none => .error (.unwritable m.name)

/-- Reads the value of a member for an index. -/
def readAt (m : Member) (record index : Value) : Except Fault (Option Value) :=
  match m with
  | property p _ =>
    match p.reader? with
    | some (.indexedGetter _ get _) => .ok (get record index)
    | _ => .error (.unreadable m.name)
  | field _ => .error (.unreadable m.name)

/-- The place of the value of a member for an index. -/
def placeAt (m : Member) (record index : Value) : Except Fault Offer :=
  match m with
  | property p _ =>
    match p.reader? with
    | some (.indexedGetter _ _ offer) => .ok (offer record index)
    | _ => .error (.unreadable m.name)
  | field _ => .error (.unreadable m.name)

/-- Stores a value in a member for an index, and gives the record.  `label` names the value. -/
def writeAt (m : Member) (label : String) (record index value : Value) : Except Fault Value :=
  match m with
  | property p _ =>
    match p.writer? with
    | some (t, .indexedSetter _ set) =>
      if value.typeOf = t then .ok (set record index value)
      else .error (.typeMismatch label m.type (.value value.typeOf))
    | _ => .error (.unwritable m.name)
  | field _ => .error (.unwritable m.name)

end Member

end ObjectPath
