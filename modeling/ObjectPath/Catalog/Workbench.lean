import ObjectPath.Catalog.Records

/-!
# The workbench

A record whose members are declared freely: every declaration gives a name, a slot of the record and
what the member does with it.  The slots with an index are maps from the index to the value.
-/

namespace ObjectPath.Catalog

/-- The path of the workbench. -/
def workbenchPath : String := "oracle::dynamic::Dyn"

/-- What kind of member is declared. -/
inductive MemberKind
  | field
  | getter
  | setter
  | indexedGetter
  | indexedSetter
deriving DecidableEq, Repr

/-- How a member departs from reading and storing its slot. -/
inductive MemberMode
  | plain
  /-- Always reads null. -/
  | null
  /-- Reads the slot, but offers no place to a write. -/
  | frozen
  /-- Stores nothing. -/
  | discard
deriving DecidableEq, Repr

/-- A declaration of a member of the workbench. -/
structure FreeMember where
  kind : MemberKind
  name : String
  slot : String
  mode : MemberMode
  tags : List Tag

/-- The slots of the workbench without an index. -/
def plainSlots : List Part :=
  [.skipped "s0" .text,
    .skipped "s1" .text,
    .skipped "n0" (.int .u32),
    .skipped "n1" (.int .u32),
    .skipped "u0" (.int .u64),
    .skipped "b0" .bool,
    .skipped "b1" .bool,
    .skipped "y0" (.int .u8),
    .skipped "t0" tier,
    .skipped "o0" (.option .text),
    .skipped "ob0" (.option .bool),
    .skipped "l0" (recordTy "Line"),
    .skipped "ol0" (.option (recordTy "Line")),
    .skipped "v0" (vec (.int .u32)),
    .skipped "a0" (boxed (.int .u8)),
    .skipped "al0" (boxed (recordTy "Line")),
    .skipped "oa0" (.option (boxed (recordTy "Line"))),
    .skipped "m0" (.map .tree .text (.int .u32)),
    .skipped "g0" (.option (recordTy "Sealed"))]

/-- The slots of the workbench with an index. -/
def indexedSlots : List Part :=
  [.skipped "xu" (.map .tree (.int .usize) .text),
    .skipped "xs" (.map .tree .text (recordTy "Line")),
    .skipped "xi" (.map .tree (.int .i32) (.int .u32)),
    .skipped "xt" (.map .tree tier (.int .u8)),
    .skipped "xo" (.map .tree (.option (.int .u8)) .text),
    .skipped "xa" (.map .tree (.int .usize) (boxed (recordTy "Line"))),
    .skipped "xv" (.map .tree .text (.option (vec (.int .u32)))),
    .skipped "xb" (.map .tree .bool (.int .u32))]

/-- The slots of the workbench. -/
def workbenchSlots : List Part := plainSlots ++ indexedSlots

/-- The place of the value for an index in a slot. -/
def indexedPlace (i : Nat) (record index : Value) : Option (Place record) :=
  (record.atSlot? i).bind fun p => (Value.atKey? index p.value).map fun q => p.compose q

/-- Stores the value for an index in a slot. -/
def setIndexed (i : Nat) (record index new : Value) : Value :=
  match record.getSlot i with
  | some (.map k t u entries) => record.setSlot i (.map k t u (Entries.insert k index new entries))
  | _ => record

/-- What a member other than a field does with the slot `i` of type `t`, and the type of its
value. -/
def FreeMember.access (m : FreeMember) (i : Nat) (t : Ty) : Option (Ty × Access) :=
  match m.kind, t with
  | .field, _ => none
  | .getter, t =>
    some (t, .getter (if m.mode = .null then fun _ => none else fun r => r.getSlot i)
      (if m.mode = .plain then fun r => .of (r.atSlot? i) else .nothing))
  | .setter, t =>
    some (t, .setter (if m.mode = .discard then fun r _ => r else fun r v => r.setSlot i v))
  | .indexedGetter, .map _ key value =>
    some (value,
      .indexedGetter key (fun r k => (indexedPlace i r k).map (·.value))
        fun r k => .of (indexedPlace i r k))
  | .indexedSetter, .map _ key value =>
    some (value, .indexedSetter key (if m.mode = .discard then fun r _ _ => r else setIndexed i))
  | _, _ => none

/-- Adds a declaration. -/
def FreeMember.declare (d : Declarations) (m : FreeMember) : Declarations :=
  match workbenchSlots.findIdx? fun p => p.name = m.slot with
  | none => d
  | some i =>
    match workbenchSlots[i]? with
    | none => d
    | some p =>
      match m.access i p.type with
      | some (type, access) =>
        { d with methods := d.methods ++ [⟨m.name, type, access, .ofList m.tags⟩] }
      | none =>
        if m.kind = .field then
          { d with fields := d.fields ++ [⟨m.name, i, p.type, .ofList m.tags⟩] }
        else d

/-- The workbench with some members, in the order of their declaration. -/
def workbench (members : List FreeMember) : RecordDecl where
  path := workbenchPath
  slots := workbenchSlots.map fun p => ⟨p.name, p.type, p.type.blank [line]⟩
  constructible := true
  members := members.foldl FreeMember.declare ⟨[], []⟩

/-- The schema of the catalogue and of a workbench. -/
def schemaWith (members : List FreeMember) : Schema := ⟨workbench members :: records, leaves⟩

end ObjectPath.Catalog
