import ObjectPath.Proofs.Steps
import ObjectPath.Catalog.Workbench

/-!
# Records whose members share their slots

A property shares one slot if its accessor methods read, offer and store a slot of its record
(`Member.sharesSlot_slot`), or the values of a map in a slot, by its index
(`Member.sharesSlot_indexed`).  Such methods are typed as the slot is.  A shelf is a record with a
property of each kind, and one without a setter.
-/

namespace ObjectPath

section Slots

variable {s : Schema} {path : String} {d : RecordDecl} {i : Nat} {p : Property}
  {hidden : Option Field} {sl : Slot}

/-- A typed record has the slots that are declared. -/
theorem HasType.exists_slot {r : Value} (hr : HasType s r (.record path))
    (hd : s.record? path = some d) (hsl : d.slots[i]? = some sl) :
    ∃ xs x, r = .record path xs ∧ xs[i]? = some x ∧ HasType s x sl.type := by
  have hslots := hr
  cases hr with
  | @record _ d' xs hd' hlen =>
    rw [hd] at hd'
    cases hd'
    have hi : i < xs.length := hlen ▸ (List.getElem?_eq_some_iff.1 hsl).1
    have hx := List.getElem?_eq_getElem hi
    exact ⟨xs, _, rfl, hx, hslots.slot hd hx hsl⟩

theorem HasType.getSlot_setSlot {r : Value} (hr : HasType s r (.record path))
    (hd : s.record? path = some d) (hsl : d.slots[i]? = some sl) (x : Value) :
    (r.setSlot i x).getSlot i = some x := by
  obtain ⟨xs, y, rfl, hy, -⟩ := hr.exists_slot hd hsl
  rw [Value.getSlot, Value.setSlot, Value.map_value_atSlot?,
    List.getElem?_set_self (List.getElem?_eq_some_iff.1 hy).1]

/-- A property whose accessor methods read, offer and store one slot shares it. -/
theorem Member.sharesSlot_slot (hd : s.record? path = some d) (hsl : d.slots[i]? = some sl)
    (hr : p.reader? = some (.getter (·.getSlot i) fun r => .of (r.atSlot? i)))
    (hw : ∀ t a, p.writer? = some (t, a) → a = .setter fun r x => r.setSlot i x) :
    (Member.property p hidden).SharesSlot s (.record path) where
  place r v q _ hq := by
    simp only [Member.place, hr, Except.ok.injEq] at hq
    obtain rfl : r = v := (Offer.left_of _).symm.trans (congrArg Offer.left hq)
    replace hq := Offer.of_eq_place hq
    refine ⟨?_, fun w _ => ?_⟩
    · simp only [Member.read, hr, Value.getSlot, hq, Option.map_some]
    · simp only [Member.read, hr, Value.getSlot, Value.map_value_atSlot?_fill hq]
  write r x r' hrec _ h := by
    simp only [Member.write] at h
    split at h
    · next t set hset =>
      cases hw _ _ hset
      split at h
      · cases h
        simp only [Member.read, hr, hrec.getSlot_setSlot hd hsl]
      · cases h
    · cases h
  placeAt r v key q u _ _ _ hq := by
    simp only [Member.placeAt, hr] at hq
    cases hq
  writeAt r key x r' u label _ _ _ _ h := by
    simp only [Member.writeAt] at h
    split at h
    · next hset => cases hw _ _ hset
    · cases h

theorem Access.typed_slotGetter (hd : s.record? path = some d) (hsl : d.slots[i]? = some sl) :
    (Access.getter (·.getSlot i) fun r => .of (r.atSlot? i)).Typed s (.record path) sl.type := by
  intro r hr
  refine ⟨fun x hx => ?_, Offer.typed_of hr fun q hq => hr.typed_atSlot? hd hsl hq⟩
  obtain ⟨q, hq, rfl⟩ := Option.map_eq_some_iff.1 hx
  exact (hr.typed_atSlot? hd hsl hq).value

theorem HasType.typed_setSlot {r x : Value} (hr : HasType s r (.record path))
    (hd : s.record? path = some d) (hsl : d.slots[i]? = some sl) (hx : HasType s x sl.type) :
    HasType s (r.setSlot i x) (.record path) := by
  obtain ⟨xs, y, rfl, -, -⟩ := hr.exists_slot hd hsl
  exact hr.setSlot hd hsl hx

theorem Access.typed_slotSetter (hd : s.record? path = some d) (hsl : d.slots[i]? = some sl) :
    (Access.setter fun r x => r.setSlot i x).Typed s (.record path) sl.type :=
  fun _ _ hr hx => hr.typed_setSlot hd hsl hx

/-! ## Slots with an index -/

/-- What is put under a key is what stands there. -/
theorem Value.map_value_atKey?_fill {key v : Value} {q : Place v} (h : atKey? key v = some q)
    (w : Value) : (atKey? key (q.fill w)).map (·.value) = some w := by
  cases v with
  | map kind t u es =>
    obtain ⟨hget, hfill⟩ := atKey?_map h
    rw [hfill, map_value_atKey?, Entries.get?_replace_self w hget]
  | leaf | absent | present | seq | record => cases h

theorem map_value_indexedPlace (r key : Value) :
    (Catalog.indexedPlace i r key).map (·.value) =
      (r.getSlot i).bind fun c => (Value.atKey? key c).map (·.value) := by
  unfold Catalog.indexedPlace Value.getSlot
  cases r.atSlot? i with
  | none => rfl
  | some q => exact Option.map_map _ _ _

/-- What is put at an index of a slot is read there. -/
theorem map_value_indexedPlace_fill {r key : Value} {q : Place r}
    (h : Catalog.indexedPlace i r key = some q) (w : Value) :
    (Catalog.indexedPlace i (q.fill w) key).map (·.value) = some w := by
  obtain ⟨q₁, hslot, h⟩ := Option.bind_eq_some_iff.1 h
  obtain ⟨q₂, hkey, rfl⟩ := Option.map_eq_some_iff.1 h
  rw [map_value_indexedPlace]
  have hfill : (q₁.fill (q₂.fill w)).getSlot i = some (q₂.fill w) :=
    Value.map_value_atSlot?_fill hslot _
  rw [Place.compose, hfill, Option.bind_some, Value.map_value_atKey?_fill hkey]

section Indexed

variable {key item : Ty} {kind : MapKind}

theorem typed_indexedPlace (hd : s.record? path = some d) (hsl : d.slots[i]? = some sl)
    (htype : sl.type = .map kind key item) {r k : Value} {q : Place r}
    (hr : HasType s r (.record path)) (hk : HasType s k key)
    (h : Catalog.indexedPlace i r k = some q) : q.Typed s (.record path) item := by
  obtain ⟨q₁, hslot, h⟩ := Option.bind_eq_some_iff.1 h
  obtain ⟨q₂, hkey, rfl⟩ := Option.map_eq_some_iff.1 h
  have hq₁ := hr.typed_atSlot? hd hsl hslot
  rw [htype] at hq₁
  exact hq₁.compose (hq₁.value.typed_atKey? hk hkey)

theorem Access.typed_indexedGetter (hd : s.record? path = some d) (hsl : d.slots[i]? = some sl)
    (htype : sl.type = .map kind key item) :
    (Access.indexedGetter key (fun r k => (Catalog.indexedPlace i r k).map (·.value))
      fun r k => .of (Catalog.indexedPlace i r k)).Typed s (.record path) item := by
  intro r k hr hk
  refine ⟨fun x hx => ?_,
    Offer.typed_of hr fun q hq => typed_indexedPlace hd hsl htype hr hk hq⟩
  obtain ⟨q, hq, rfl⟩ := Option.map_eq_some_iff.1 hx
  exact (typed_indexedPlace hd hsl htype hr hk hq).value

/-- A slot of a typed record that holds a map. -/
theorem HasType.exists_map {r : Value} (hr : HasType s r (.record path))
    (hd : s.record? path = some d) (hsl : d.slots[i]? = some sl)
    (htype : sl.type = .map kind key item) :
    ∃ es, r.getSlot i = some (.map kind key item es) ∧
      HasType s (.map kind key item es) (.map kind key item) := by
  obtain ⟨xs, y, rfl, hy, htyped⟩ := hr.exists_slot hd hsl
  rw [htype] at htyped
  have hmap := htyped
  cases htyped with
  | @map _ _ _ es => exact ⟨es, by rw [Value.getSlot, Value.map_value_atSlot?, hy], hmap⟩

theorem Access.typed_indexedSetter (hd : s.record? path = some d) (hsl : d.slots[i]? = some sl)
    (htype : sl.type = .map kind key item) :
    (Access.indexedSetter key (Catalog.setIndexed i)).Typed s (.record path) item := by
  intro r k x hr hk hx
  obtain ⟨es, hget, hmap⟩ := hr.exists_map hd hsl htype
  rw [Catalog.setIndexed, hget]
  refine hr.typed_setSlot hd hsl ?_
  rw [htype]
  exact hmap.mapOf hk hx fun _ => Entries.mem_insert

/-- A property whose accessor methods read, offer and store the values of a map in a slot shares
it, index by index. -/
theorem Member.sharesSlot_indexed (hd : s.record? path = some d) (hsl : d.slots[i]? = some sl)
    (htype : sl.type = .map kind key item)
    (hr : p.reader? = some (.indexedGetter key
      (fun r k => (Catalog.indexedPlace i r k).map (·.value))
      fun r k => .of (Catalog.indexedPlace i r k)))
    (hw : ∀ t a, p.writer? = some (t, a) → a = .indexedSetter key (Catalog.setIndexed i)) :
    (Member.property p hidden).SharesSlot s (.record path) where
  place r v q _ hq := by
    simp only [Member.place, hr] at hq
    cases hq
  write r x r' _ _ h := by
    simp only [Member.write] at h
    split at h
    · next hset => cases hw _ _ hset
    · cases h
  placeAt r v k q u _ _ _ hq := by
    simp only [Member.placeAt, hr, Except.ok.injEq] at hq
    obtain rfl : r = v := (Offer.left_of _).symm.trans (congrArg Offer.left hq)
    replace hq := Offer.of_eq_place hq
    refine ⟨?_, fun w _ => ?_⟩
    · simp only [Member.readAt, hr, hq, Option.map_some]
    · simp only [Member.readAt, hr, map_value_indexedPlace_fill hq]
  writeAt r k x r' u label hrec _ _ _ h := by
    simp only [Member.writeAt] at h
    split at h
    · next t u set hset =>
      cases hw _ _ hset
      split at h
      · cases h
        obtain ⟨es, hget, -⟩ := hrec.exists_map hd hsl htype
        simp only [Member.readAt, hr, map_value_indexedPlace, Catalog.setIndexed, hget]
        rw [hrec.getSlot_setSlot hd hsl, Option.bind_some, Value.map_value_atKey?,
          Entries.get?_insert, if_pos rfl]
      · cases h
    · cases h

end Indexed

end Slots

/-! ## A shelf -/

namespace Shelf

/-- The type of the lines on a shelf. -/
def linesTy : Ty := .option (.seq .boxed (.record "Line"))

/-- A line on a shelf. -/
def line : RecordDecl :=
  .ofParts [] "Line" true [.exposed "sku" .text [], .exposed "qty" (.int .u32) []] []

/-- A shelf with lines of its own, lines in bins, and labels that can be read only. -/
def shelf : RecordDecl :=
  .ofParts [line] "Shelf" true
    [.skipped "lines" linesTy, .skipped "bins" (.map .tree .text linesTy),
      .skipped "labels" (.seq .boxed .text)]
    [.slotGetter "getLines" 0 linesTy, .slotSetter "setLines" 0 linesTy id,
      ⟨"getBin", linesTy, .indexedGetter .text
        (fun r k => (Catalog.indexedPlace 1 r k).map (·.value))
        fun r k => .of (Catalog.indexedPlace 1 r k), .empty⟩,
      ⟨"setBin", linesTy, .indexedSetter .text (Catalog.setIndexed 1), .empty⟩,
      .slotGetter "getLabels" 2 (.seq .boxed .text)]

/-- The evaluator for shelves. -/
def evaluator : Evaluator := ⟨⟨[line, shelf], []⟩, .empty⟩

theorem record_cases {path : String} {d : RecordDecl}
    (h : evaluator.schema.record? path = some d) :
    path = "Line" ∧ d = line ∨ path = "Shelf" ∧ d = shelf := by
  have hmem : d ∈ [line, shelf] := List.mem_of_find?_eq_some h
  obtain rfl := Schema.record?_path h
  rcases List.mem_cons.1 hmem with rfl | hmem
  · exact .inl ⟨rfl, rfl⟩
  · rw [List.mem_singleton.1 hmem]
    exact .inr ⟨rfl, rfl⟩

/-- What is declared for lines and shelves is typed. -/
theorem typed : evaluator.Typed := by
  have checked : ∀ slots : List Slot,
      (slots.all fun sl => sl.initial.checks evaluator.schema sl.type) = true →
        ∀ sl ∈ slots, HasType evaluator.schema sl.initial sl.type :=
    fun _ h sl hsl => .of_checks _ _ (List.all_eq_true.1 h sl hsl)
  refine ⟨⟨fun path d h => ?_, fun _ _ _ h => nomatch h⟩, fun _ _ h => nomatch h⟩
  obtain ⟨rfl, rfl⟩ | ⟨rfl, rfl⟩ := record_cases h
  · refine ⟨checked _ (by decide), fun f hf => ?_, nofun, fun f hf => ?_, nofun⟩
    · rcases List.mem_cons.1 hf with rfl | hf
      · exact ⟨_, rfl, rfl⟩
      · obtain rfl := List.mem_singleton.1 hf
        exact ⟨_, rfl, rfl⟩
    · rcases List.mem_cons.1 hf with rfl | hf
      · exact fun _ _ ht => nomatch ht
      · obtain rfl := List.mem_singleton.1 hf
        exact fun _ _ ht => nomatch ht
  · refine ⟨checked _ (by decide), nofun, fun m hm => ?_, nofun, fun m hm => ?_⟩
    · simp only [shelf, RecordDecl.ofParts, List.mem_cons, List.not_mem_nil, or_false] at hm
      obtain rfl | rfl | rfl | rfl | rfl := hm
      · exact Access.typed_slotGetter (i := 0) h rfl
      · exact Access.typed_slotSetter (i := 0) h rfl
      · exact Access.typed_indexedGetter h rfl rfl
      · exact Access.typed_indexedSetter h rfl rfl
      · exact Access.typed_slotGetter (i := 2) h rfl
    · simp only [shelf, RecordDecl.ofParts, List.mem_cons, List.not_mem_nil, or_false] at hm
      obtain rfl | rfl | rfl | rfl | rfl := hm <;> exact fun _ _ ht => nomatch ht

set_option maxRecDepth 10000 in
theorem properties_shelf : (Metadata.build shelf.members).properties =
    [⟨"lines", linesTy, none, some (.slotGetter "getLines" 0 linesTy),
        some (.slotSetter "setLines" 0 linesTy id)⟩,
      ⟨"bin", linesTy, some .text,
        some ⟨"getBin", linesTy, .indexedGetter .text
          (fun r k => (Catalog.indexedPlace 1 r k).map (·.value))
          fun r k => .of (Catalog.indexedPlace 1 r k), .empty⟩,
        some ⟨"setBin", linesTy, .indexedSetter .text (Catalog.setIndexed 1), .empty⟩⟩,
      ⟨"labels", .seq .boxed .text, none,
        some (.slotGetter "getLabels" 2 (.seq .boxed .text)), none⟩] := rfl

/-- The members of lines and shelves share their slots. -/
theorem sharesSlots : evaluator.schema.SharesSlots := by
  intro t m hm
  obtain ⟨path, d, rfl, hd, hmade⟩ := hm.madeOf
  cases m with
  | field f => exact Member.sharesSlot_field f
  | property p hidden =>
    have hp := hm.property_mem hd
    obtain ⟨rfl, rfl⟩ | ⟨rfl, rfl⟩ := record_cases hd
    · cases hp
    · rw [properties_shelf] at hp
      rcases List.mem_cons.1 hp with rfl | hp
      · exact Member.sharesSlot_slot hd rfl rfl fun _ _ h => by cases h; rfl
      · rcases List.mem_cons.1 hp with rfl | hp
        · exact Member.sharesSlot_indexed hd rfl rfl rfl fun _ _ h => by cases h; rfl
        · obtain rfl := List.mem_singleton.1 hp
          exact Member.sharesSlot_slot hd rfl rfl fun _ _ h => by cases h

/-- No getter of a shelf changes it. -/
theorem leavesRecords : evaluator.schema.LeavesRecords := by
  refine Schema.leavesRecords_of_methods fun path d hd m hm => ?_
  obtain ⟨rfl, rfl⟩ | ⟨rfl, rfl⟩ := record_cases hd
  · cases hm
  · simp only [shelf, RecordDecl.ofParts, List.mem_cons, List.not_mem_nil, or_false] at hm
    obtain rfl | rfl | rfl | rfl | rfl := hm
    · exact Access.leavesRecord_getter
    · exact trivial
    · exact Access.leavesRecord_indexedGetter
    · exact trivial
    · exact Access.leavesRecord_getter

/-- A shelf with no lines of its own, one line in the bin `a b` and two labels. -/
def stocked : Value :=
  .record "Shelf" [.absent (.seq .boxed (.record "Line")),
    .map .tree .text linesTy [(.text "a b", .present (.seq .boxed (.record "Line")
      [.record "Line" [.text "x", .int .u32 5]]))],
    .seq .boxed .text [.text "left", .text "right"]]

theorem hasType_stocked : HasType evaluator.schema stocked stocked.typeOf :=
  .of_checks _ _ (by decide)

end Shelf

end ObjectPath
