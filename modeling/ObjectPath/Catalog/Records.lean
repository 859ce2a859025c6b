import ObjectPath.Catalog.Leaves

/-!
# Records of the catalogue

The records whose graphs the expressions are evaluated on.  Each is declared after the records that
its fresh values hold.
-/

namespace ObjectPath.Catalog

/-- The type of a record of the catalogue. -/
def recordTy (name : String) : Ty := .record (pathOf name)

/-- A record of the catalogue that can be created. -/
def constructible (records : List RecordDecl) (name : String) (parts : List Part)
    (methods : List Method) : RecordDecl :=
  .ofParts records (pathOf name) true parts methods

/-- A sequence of the first growable kind. -/
abbrev vec (t : Ty) : Ty := .seq .vec t

/-- A sequence of the second growable kind. -/
abbrev deque (t : Ty) : Ty := .seq .deque t

/-- An array. -/
abbrev boxed (t : Ty) : Ty := .seq .boxed t

/-- A converter as a tag. -/
def convertWith (c : Converter) : Tag := .convert c

/-! ## People and orders -/

/-- Addresses. -/
def address : RecordDecl :=
  constructible [] "Address"
    [.exposed "city" .text [.label "locality"], .exposed "zip" (.int .u32) []] []

/-- Users.  The address for mail is stored without blanks around it and in lower case. -/
def user : RecordDecl :=
  constructible [] "User"
    [.exposed "name" .text [],
      .exposed "age" (.int .u32) [],
      .exposed "nickname" (.option .text) [],
      .exposed "address" (.option (recordTy "Address")) [],
      .exposed "email" .text [],
      .exposed "visits" (.map .hash .text (.int .u32)) [.label "counter"],
      .skipped "verified" .bool,
      .skipped "secret" .text]
    [.slotGetter "getEmail" 4 .text,
      .slotSetter "setEmail" 4 .text (Value.mapText fun s => Text.asciiLower (Text.trim s)),
      .slotGetter "is_verified" 6 .bool,
      .slotGetter "secret" 7 .text]

/-- Lines of an order. -/
def line : RecordDecl :=
  constructible [] "Line" [.exposed "sku" .text [], .exposed "qty" (.int .u32) []] []

/-- The slot of the lines of an order. -/
def orderLines : Nat := 4

/-- The place of a line of an order. -/
def linePlace (order index : Value) : Option (Place order) :=
  (order.atSlot? orderLines).bind fun p =>
    (p.value.atIndex? index.toIndex).map fun q => p.compose q

/-- Stores a line of an order; the list of lines is filled up to it, but it never grows beyond 64
lines. -/
def setLine (order index new : Value) : Value :=
  match order.getSlot orderLines with
  | some (.seq k t items) =>
    let i := index.toIndex
    if 64 ≤ i then order
    else
      let filled := items ++ List.replicate (i + 1 - items.length) line.fresh
      order.setSlot orderLines (.seq k t (filled.set i new))
  | _ => order

/-- Orders. -/
def order : RecordDecl :=
  constructible [] "Order"
    [.exposed "items" (.option (boxed (recordTy "Line"))) [],
      .exposed "notes" (vec .text) [],
      .exposed "tags" (vec .text) [],
      .exposed "scores" (.map .hash (.int .i32) (.int .i32)) [],
      .skipped "lines" (vec (recordTy "Line"))]
    [⟨"getLine", recordTy "Line",
        .indexedGetter (.int .usize) (fun o i => (linePlace o i).map (·.value))
          fun o i => .of (linePlace o i), .empty⟩,
      ⟨"setLine", recordTy "Line", .indexedSetter (.int .usize) setLine, .empty⟩]

/-! ## Accounts and plans -/

/-- Uploads. -/
def upload : RecordDecl :=
  constructible [] "Upload"
    [.exposed "size" (.int .u64) [convertWith sizeConverter], .exposed "limit" (.int .u64) []] []

/-- Accounts, whose pin can only be written and whose date can only be read. -/
def account : RecordDecl :=
  constructible [] "Account"
    [.exposed "pin" .text [], .exposed "created" (.int .u64) []]
    [.slotSetter "setPin" 0 .text (Value.mapText fun s => "hashed:" ++ s),
      .slotGetter "getCreated" 1 (.int .u64)]

/-- Plans. -/
def plan : RecordDecl :=
  constructible [] "Plan"
    [.exposed "owner" .text [],
      .exposed "seats" (.int .u32) [],
      .exposed "price" (.float .double) [],
      .exposed "tier" tier [],
      .exposed "trial" (.option .bool) []]
    []

/-- Records that cannot be created on the way of a write. -/
def sealedRecord : RecordDecl :=
  .ofParts [] (pathOf "Sealed") false
    [.exposed "code" (.int .u8) [], .exposed "note" (.option .text) []] []

/-! ## Collections -/

/-- Nodes of a tree. -/
def node : RecordDecl :=
  constructible [] "Node"
    [.exposed "name" .text [],
      .exposed "children" (vec (recordTy "Node")) [],
      .exposed "slots" (.option (boxed (recordTy "Node"))) [],
      .exposed "by_key" (.map .insertion .text (recordTy "Node")) []]
    []

/-- A field of every leaf type. -/
def zoo : RecordDecl :=
  constructible [] "Zoo"
    [.exposed "flag" .bool [],
      .exposed "letter" .char [],
      .exposed "text" .text [],
      .exposed "i8" (.int .i8) [],
      .exposed "i16" (.int .i16) [],
      .exposed "i32" (.int .i32) [],
      .exposed "i64" (.int .i64) [],
      .exposed "i128" (.int .i128) [],
      .exposed "isize" (.int .isize) [],
      .exposed "u8" (.int .u8) [],
      .exposed "u16" (.int .u16) [],
      .exposed "u32" (.int .u32) [],
      .exposed "u64" (.int .u64) [],
      .exposed "u128" (.int .u128) [],
      .exposed "usize" (.int .usize) [],
      .exposed "f32" (.float .single) [],
      .exposed "f64" (.float .double) [],
      .exposed "type" .text [],
      .exposed "o_flag" (.option .bool) [],
      .exposed "o_letter" (.option .char) [],
      .exposed "o_text" (.option .text) [],
      .exposed "o_u8" (.option (.int .u8)) [],
      .exposed "o_i32" (.option (.int .i32)) [],
      .exposed "o_f64" (.option (.float .double)) [],
      .exposed "oo_u8" (.option (.option (.int .u8))) [],
      .exposed "tier" tier [],
      .exposed "o_tier" (.option tier) [],
      .exposed "token" token [],
      .exposed "o_token" (.option token) []]
    []

/-- A field of many container types. -/
def shelf : RecordDecl :=
  constructible [] "Shelf"
    [.exposed "vec" (vec (.int .u8)) [],
      .exposed "texts" (vec .text) [],
      .exposed "flags" (vec .bool) [],
      .exposed "lines" (vec (recordTy "Line")) [],
      .exposed "deque" (deque (.int .i64)) [],
      .exposed "o_deque" (.option (deque .text)) [],
      .exposed "array" (boxed (.int .u8)) [],
      .exposed "o_array" (.option (boxed (recordTy "Line"))) [],
      .exposed "o_vec" (.option (vec (.int .u32))) [],
      .exposed "opt_items" (vec (.option (.int .u8))) [],
      .exposed "opt_lines" (vec (.option (recordTy "Line"))) [],
      .exposed "opt_slots" (boxed (.option (.int .u8))) [],
      .exposed "grid" (vec (vec (.int .u8))) [],
      .exposed "board" (boxed (boxed (.int .u8))) [],
      .exposed "rows" (vec (boxed (.int .u8))) [],
      .exposed "o_rows" (vec (.option (boxed (.int .u8)))) [],
      .exposed "hash" (.map .hash .text (.int .u32)) [],
      .exposed "tree" (.map .tree (.int .u32) (.int .u32)) [],
      .exposed "ordered" (.map .insertion .text (recordTy "Line")) [],
      .exposed "bools" (.map .tree .bool (.int .u8)) [],
      .exposed "chars" (.map .insertion .char .text) [],
      .exposed "tiers" (.map .tree tier (.int .u8)) [],
      .exposed "maybe_keys" (.map .tree (.option (.int .u8)) (.int .u8)) [],
      .exposed "nested" (.map .tree (.int .u8) (.map .tree .text (.int .u8))) [],
      .exposed "arrays" (.map .tree .text (boxed (recordTy "Line"))) [],
      .exposed "o_values" (.map .hash .text (.option (.int .u32))) [],
      .exposed "o_map" (.option (.map .insertion .text (.int .u32))) [],
      .exposed "sealed" (.option (recordTy "Sealed")) [],
      .exposed "sealed_list" (vec (recordTy "Sealed")) [],
      .exposed "sealed_array" (boxed (recordTy "Sealed")) [],
      .exposed "sealed_map" (.map .tree .text (recordTy "Sealed")) [],
      .exposed "o_sealed_array" (.option (boxed (recordTy "Sealed"))) []]
    []

/-! ## Tags and rules -/

/-- Members with tags of every kind. -/
def labels : RecordDecl :=
  constructible [upload] "Labels"
    [.exposed "a" .text [.label "first", .label "second"],
      .exposed "b" (.option .text) [.label "b", .maxLength 5, .required],
      .exposed "sizes" (vec (.int .u64)) [convertWith sizeConverter],
      .exposed "quota" (.option (.int .u64)) [convertWith sizeConverter],
      .exposed "code" .text [convertWith upperConverter],
      .exposed "wrong" (.int .u32)
        [convertWith (.ofForm ⟨.int .u16, readInt .u16, Value.leafText⟩ true)],
      .exposed "by_name" (.map .tree .text (.int .u64)) [convertWith sizeConverter, .maxLength 9],
      .exposed "switches" (boxed .bool) [convertWith .lenientBool],
      .exposed "grid" (vec (vec (.int .u64))) [convertWith sizeConverter],
      .exposed "upload" (recordTy "Upload") [.label "outer", convertWith upperConverter],
      .exposed "uploads" (vec (recordTy "Upload")) [.label "list"],
      .exposed "maybe" (.option (.option (recordTy "Upload"))) [.required],
      .exposed "tier" tier [convertWith (.ofForm tierForm false)]]
    []

/-- The number of bytes of a text, as a number of 32 bits. -/
def byteCount : Value → Value
  | .leaf (.text s) => .int .u32 (s.utf8ByteSize % UInt32.size : Nat)
  | v => v

/-- The slot of the list of a gadget. -/
def gadgetSlots : Nat := 2

/-- The place of the first item of the list of a gadget. -/
def firstSlot (gadget : Value) : Option (Place gadget) :=
  (gadget.atSlot? gadgetSlots).bind fun p => (p.value.atIndex? 0).map fun q => p.compose q

/-- Stores an item of the list of a gadget, if it is there. -/
def setGadgetSlot (gadget index new : Value) : Value :=
  match gadget.getSlot gadgetSlots with
  | some (.seq k t items) => gadget.setSlot gadgetSlots (.seq k t (items.set index.toIndex new))
  | _ => gadget

/-- One valid property, and one property for each rule that is broken. -/
def gadget : RecordDecl :=
  constructible [] "Gadget"
    [.skipped "good" .text,
      .skipped "count" (.int .u32),
      .skipped "slots" (vec (.int .u8)),
      .skipped "label" .text,
      .skipped "ready" (.int .u8)]
    [.slotGetter "getGood" 0 .text,
      .slotSetter "setGood" 0 .text id,
      .slotGetter "getCount" 1 (.int .u32),
      .slotSetter "setCount" 1 .text byteCount,
      ⟨"getSlot", .int .u8,
        .getter (fun g => (firstSlot g).map (·.value)) fun g => .of (firstSlot g), .empty⟩,
      ⟨"setSlot", .int .u8, .indexedSetter (.int .usize) setGadgetSlot, .empty⟩,
      .slotGetter "getLabel" 3 .text,
      .slotGetter "get_label" 3 .text,
      .slotGetter "isReady" 4 (.int .u8)]

/-- All records of the catalogue. -/
def records : List RecordDecl :=
  [address, user, line, order, upload, account, plan, sealedRecord, node, zoo, shelf, labels,
    gadget]

/-- The schema of the catalogue. -/
def schema : Schema := ⟨records, leaves⟩

end ObjectPath.Catalog
