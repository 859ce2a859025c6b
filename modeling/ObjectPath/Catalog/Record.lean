import ObjectPath.Schema

/-!
# Declaring records

`RecordDecl.ofParts` declares a record part by part: every part is a slot, and the exposed ones are
fields too.  The functions behind it are the accessor methods over slots that records use.
-/

namespace ObjectPath

/-- A part of a record: a slot, which is a field with the given tags unless it is skipped. -/
structure Part where
  name : String
  type : Ty
  tags? : Option (List Tag)

namespace Part

/-- A part that is a field. -/
def exposed (name : String) (type : Ty) (tags : List Tag) : Part := ⟨name, type, some tags⟩

/-- A part that is no field. -/
def skipped (name : String) (type : Ty) : Part := ⟨name, type, none⟩

end Part

/-- The value of a type in a fresh record, where `records` are the records declared before. -/
def Ty.blank (records : List RecordDecl) : Ty → Value
  | .leaf t => .leaf t.zero
  | .option t => .absent t
  | .seq k t => .seq k t []
  | .map k t u => .map k t u []
  | .record p =>
    match records.find? fun d => d.path = p with
    | some d => d.fresh
    | none => .record p []

/-- The fields among some parts, the first of which has the slot `i`. -/
def Part.fields (i : Nat) : List Part → List Field
  | [] => []
  | p :: ps =>
    match p.tags? with
    | some tags => ⟨p.name, i, p.type, .ofList tags⟩ :: fields (i + 1) ps
    | none => fields (i + 1) ps

/-- The record made of some parts and accessor methods. -/
def RecordDecl.ofParts (records : List RecordDecl) (path : String) (constructible : Bool)
    (parts : List Part) (methods : List Method) : RecordDecl where
  path := path
  slots := parts.map fun p => ⟨p.name, p.type, p.type.blank records⟩
  constructible := constructible
  members := ⟨methods, Part.fields 0 parts⟩

namespace Value

/-- A record with another value in a slot. -/
def setSlot (record : Value) (i : Nat) (x : Value) : Value :=
  match record with
  | .record p xs => .record p (xs.set i x)
  | v => v

/-- The value in a slot of a record. -/
def getSlot (record : Value) (i : Nat) : Option Value := (record.atSlot? i).map (·.value)

/-- A text with its characters changed; every other value is kept. -/
def mapText (f : String → String) : Value → Value
  | .leaf (.text s) => .text (f s)
  | v => v

/-- A value as an index of a sequence. -/
def toIndex : Value → Nat
  | .leaf (.int _ n) => n.toNat
  | _ => 0

end Value

namespace Method

/-- A method that reads a slot. -/
def slotGetter (name : String) (i : Nat) (type : Ty) : Method :=
  ⟨name, type, .getter (·.getSlot i) fun r => .of (r.atSlot? i), .empty⟩

/-- A method that stores a value in a slot after changing it. -/
def slotSetter (name : String) (i : Nat) (type : Ty) (change : Value → Value) : Method :=
  ⟨name, type, .setter fun record v => record.setSlot i (change v), .empty⟩

end Method

end ObjectPath
