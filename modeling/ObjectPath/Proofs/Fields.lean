import ObjectPath.Proofs.Passing
import ObjectPath.Proofs.PutGet
import ObjectPath.Proofs.Resolution

/-!
# Graphs of fields

Where every member is a field (`Schema.OnlyFields`), a step leads to a field, an item or an entry
(`Step.LeadsInto`).  It reads what stands at the place it offers (`Step.LeadsInto.place_of_read`),
and what is of its type is always stored there (`Step.LeadsInto.store_eq_done`).  So an array that
is too short is replaced by the longer one, and nothing else happens when it is approached
(`Evaluator.lengthen_cases`, `Evaluator.write_below`).

A schema without accessor methods and tags is checked by evaluation (`Schema.isPlain`).  A crate is
a record with fields of several kinds, and a slot that is no field.
-/

namespace ObjectPath

/-! ## Members -/

/-- The types of the values that steps lead to from a value of a type. -/
inductive Schema.Reaches (s : Schema) : Ty → Ty → Prop
  | here (t : Ty) : Reaches s t t
  | option {t u : Ty} (h : Reaches s t u) : Reaches s (.option t) u
  | item {k : SeqKind} {t u : Ty} (h : Reaches s t u) : Reaches s (.seq k t) u
  | value {k : MapKind} {key t u : Ty} (h : Reaches s t u) : Reaches s (.map k key t) u
  | member {t u : Ty} {m : Member} (hm : m.Of s t) (h : Reaches s m.type u) : Reaches s t u

/-- Every member of the records that steps lead to from a value of type `t` is a field. -/
def Schema.OnlyFields (s : Schema) (t : Ty) : Prop :=
  ∀ (u : Ty) (m : Member), s.Reaches t u → m.Of s u → ∃ f, m = .field f

namespace Schema.OnlyFields

variable {s : Schema} {t u : Ty} {m : Member} {st : Step}

/-- Without accessor methods there are only fields. -/
theorem of_no_methods (h : ∀ d ∈ s.records, d.members.methods = []) (t : Ty) : s.OnlyFields t := by
  intro u m _ hm
  obtain ⟨path, d, rfl, hd, hmade⟩ := hm.madeOf
  cases hmade with
  | field => exact ⟨_, rfl⟩
  | @property p _ hp =>
    have hnone := h d (List.mem_of_find?_eq_some hd)
    obtain hget | hset := hp.accessor
    · obtain ⟨g, hg⟩ := Option.isSome_iff_exists.1 hget
      have hmem := (hp.getter g hg).1
      rw [hnone] at hmem
      cases hmem
    · obtain ⟨g, hg⟩ := Option.isSome_iff_exists.1 hset
      have hmem := (hp.setter g hg).1
      rw [hnone] at hmem
      cases hmem

theorem exists_field (h : s.OnlyFields t) (hm : m.Of s t) : ∃ f, m = .field f :=
  h t m (.here t) hm

theorem sharesSlot (h : s.OnlyFields t) (m : Member) (hm : m.Of s t) : m.SharesSlot s t := by
  obtain ⟨f, rfl⟩ := h.exists_field hm
  exact Member.sharesSlot_field f

/-- A field takes no index. -/
theorem index?_eq_none (h : s.OnlyFields t) (hm : m.Of s t) : m.index? = none := by
  obtain ⟨f, rfl⟩ := h.exists_field hm
  rfl

theorem declared (h : s.OnlyFields t) : s.OnlyFields t.declared := by
  cases t with
  | option t => exact fun u m hu => h u m (.option hu)
  | leaf | seq | map | record => exact h

/-- Behind a step, too, there are only fields. -/
theorem below (h : s.OnlyFields t) (hst : st.Fits s t) : s.OnlyFields st.type.declared := by
  refine declared ?_
  cases hst with
  | member hm | indexed hm => exact fun u m hu => h u m (.member hm hu)
  | element => exact fun u m hu => h u m (.item hu)
  | entry => exact fun u m hu => h u m (.value hu)

end Schema.OnlyFields

/-! ## Places -/

theorem Value.map_value_atIndex? (i : Nat) (k : SeqKind) (t : Ty) (xs : List Value) :
    (atIndex? i (.seq k t xs)).map (·.value) = xs[i]? := by
  simp only [atIndex?]
  split <;> next h => simp [h]

/-- Behind an optional slot stands what is seen in it. -/
theorem Place.map_value_inner? {root : Value} (p : Place root) :
    p.inner?.map (·.value) = p.value.unwrapped := by
  cases h : p.inner? with
  | some q => exact (Place.inner?_eq_some h).1.symm
  | none =>
    unfold inner? at h
    split at h
    · next hv => rw [hv]; rfl
    · cases h
    · cases h

/-! ## Entries -/

namespace Entries

theorem replace_replace (key v w : Value) (es : List (Value × Value)) :
    replace key w (replace key v es) = replace key w es := by
  induction es with
  | nil => rfl
  | cons e es ih =>
    obtain ⟨k, u⟩ := e
    by_cases hk : k = key
    · simp [replace, hk]
    · simp [replace, hk, ih]

/-- A new entry of a map in the order of insertion is the last one. -/
theorem place_eq_append {kind : MapKind} (hkind : kind.byKey = false) (key v : Value)
    (es : List (Value × Value)) : place kind key v es = es ++ [(key, v)] := by
  induction es with
  | nil => rfl
  | cons e es ih =>
    obtain ⟨k, w⟩ := e
    simp [place, hkind, ih]

theorem prefix_map_fst_replace (key v : Value) (es : List (Value × Value)) :
    es.map (·.1) <+: (replace key v es).map (·.1) :=
  ⟨[], by rw [List.append_nil, map_fst_replace]⟩

/-- The keys that were there come first, in their order. -/
theorem prefix_map_fst_insert {kind : MapKind} (hkind : kind.byKey = false) (key v : Value)
    (es : List (Value × Value)) : es.map (·.1) <+: (insert kind key v es).map (·.1) := by
  unfold insert
  split
  · exact prefix_map_fst_replace key v es
  · rw [place_eq_append hkind, List.map_append]
    exact List.prefix_append _ _

end Entries

/-! ## Steps -/

namespace Step

/-- A step to a field, an item or an entry, and a value of the shape that it leads into. -/
inductive LeadsInto : Step → Value → Prop
  | field {f : Field} {path : String} {xs : List Value} :
      LeadsInto (.member (.field f)) (.record path xs)
  | item {i : Nat} {k : SeqKind} {t : Ty} {o : Option Member} {xs : List Value} :
      LeadsInto (.element i t o) (.seq k t xs)
  | entry {key : Value} {label : String} {k : MapKind} {a b : Ty} {o : Option Member}
      {es : List (Value × Value)} (hkey : key.typeOf = a) :
      LeadsInto (.entry key label b o) (.map k a b es)

variable {s : Schema} {t : Ty} {st : Step} {v x c : Value} {p q : Place v}

/-- Where there are only fields, steps that fit lead into typed values. -/
theorem leadsInto (hfields : s.OnlyFields t) (hst : st.Fits s t) (hv : HasType s v t) :
    st.LeadsInto v := by
  cases hst with
  | member hm =>
    obtain ⟨f, rfl⟩ := hfields.exists_field hm
    obtain ⟨path, d, rfl, -, -⟩ := hm.madeOf
    cases hv with
    | record => exact .field
  | indexed hm hu =>
    rw [hfields.index?_eq_none hm] at hu
    cases hu
  | element =>
    cases hv with
    | seq => exact .item
  | entry hkey =>
    cases hv with
    | map => exact .entry hkey.typeOf_eq

namespace LeadsInto

variable (h : st.LeadsInto v)

include h

/-- Fields, items and entries are offered without a change. -/
theorem leavesValue : st.LeavesValue := by
  refine Step.leavesValue fun m hm => ?_
  cases h with
  | @field f => cases hm; exact Member.leavesRecord_field f
  | item | entry => cases hm

/-- The content of the slot a step leads to is what stands there. -/
theorem slot_eq_slotPlace :
    ∃ o : Option (Place v), st.slotPlace v = .ok (.of o) ∧ st.slot v = .ok (o.map (·.value)) := by
  cases h with
  | field => exact ⟨_, rfl, rfl⟩
  | item => exact ⟨_, rfl, congrArg Except.ok (Value.map_value_atIndex? _ _ _ _).symm⟩
  | entry => exact ⟨_, rfl, congrArg Except.ok (Value.map_value_atKey? _ _ _ _ _).symm⟩

/-- What is read stands at the place that is offered. -/
theorem place_of_read (hx : st.read v = .ok (some x)) :
    ∃ p : Place v, st.place v = .ok (.place v p) ∧ p.value = x := by
  obtain ⟨o, hplace, hslot⟩ := h.slot_eq_slotPlace
  rw [read_of_slot hslot] at hx
  cases o with
  | none => cases hx
  | some q =>
    have hinner : q.inner?.map (·.value) = some x := q.map_value_inner?.trans (Except.ok.inj hx)
    obtain ⟨p, hp, rfl⟩ := Option.map_eq_some_iff.1 hinner
    exact ⟨p, by rw [place, hplace]; exact congrArg (Except.ok <| Offer.of ·) hp, rfl⟩

/-- What is put in a slot stands there, the step still leads to it, and when it is replaced it
leaves no trace. -/
theorem slotPlace_fill (hq : st.slotPlace v = .ok (.place v q)) (c : Value) :
    st.LeadsInto (q.fill c) ∧ ∃ q' : Place (q.fill c),
      st.slotPlace (q.fill c) = .ok (.place (q.fill c) q') ∧ q'.value = c ∧
        ∀ y, q'.fill y = q.fill y := by
  generalize hw : q.fill c = w
  cases h with
  | @field f path xs =>
    obtain ⟨hx, hfill⟩ := Value.atSlot?_record (Offer.of_eq_place (Except.ok.inj hq))
    rw [hfill] at hw
    subst hw
    have hset := List.getElem?_set_self (a := c) (List.getElem?_eq_some_iff.1 hx).1
    rw [← Value.map_value_atSlot? path] at hset
    obtain ⟨q', hq', hc⟩ := Option.map_eq_some_iff.1 hset
    refine ⟨.field, q', congrArg (Except.ok <| Offer.of ·) hq', hc, fun y => ?_⟩
    rw [(Value.atSlot?_record hq').2, hfill, List.set_set]
  | @item i k item o xs =>
    obtain ⟨hx, hfill⟩ := Value.atIndex?_seq (Offer.of_eq_place (Except.ok.inj hq))
    rw [hfill] at hw
    subst hw
    have hset := List.getElem?_set_self (a := c) (List.getElem?_eq_some_iff.1 hx).1
    rw [← Value.map_value_atIndex? i k item] at hset
    obtain ⟨q', hq', hc⟩ := Option.map_eq_some_iff.1 hset
    refine ⟨.item, q', congrArg (Except.ok <| Offer.of ·) hq', hc, fun y => ?_⟩
    rw [(Value.atIndex?_seq hq').2, hfill, List.set_set]
  | @entry key label k a b o es hkey =>
    obtain ⟨hx, hfill⟩ := Value.atKey?_map (Offer.of_eq_place (Except.ok.inj hq))
    rw [hfill] at hw
    subst hw
    have hreplace := Entries.get?_replace_self c hx
    rw [← Value.map_value_atKey? key k a b] at hreplace
    obtain ⟨q', hq', hc⟩ := Option.map_eq_some_iff.1 hreplace
    refine ⟨.entry hkey, q', congrArg (Except.ok <| Offer.of ·) hq', hc, fun y => ?_⟩
    rw [(Value.atKey?_map hq').2, hfill, Entries.replace_replace]

/-- A value of the type of a slot that is there is stored in it. -/
theorem store_eq_done (s : Schema) (hq : st.slotPlace v = .ok (.place v q))
    (hqtype : q.value.typeOf = st.type) (hx : x.typeOf = st.type) :
    st.store s v x = .done (q.fill x) := by
  have hqx : x.typeOf = q.value.typeOf := hx.trans hqtype.symm
  cases h with
  | @field f =>
    have hslot : (Value.record _ _).atSlot? f.slot = some q :=
      Offer.of_eq_place (Except.ok.inj hq)
    simp only [store, Member.write, hslot, if_pos hqx]
    rfl
  | item =>
    obtain ⟨hget, hfill⟩ := Value.atIndex?_seq (Offer.of_eq_place (Except.ok.inj hq))
    rw [hfill]
    simp only [store]
    split
    · simp only [writeItem, hget, if_pos hqx]
      rfl
    · simp only [writeArrayItem, hget, if_pos hqx]
  | entry hkey =>
    obtain ⟨hget, hfill⟩ := Value.atKey?_map (Offer.of_eq_place (Except.ok.inj hq))
    rw [hfill]
    simp only [store, Entries.insert, hget, Option.isSome_some, if_true]
    exact if_pos ⟨hkey, hx⟩

end LeadsInto

end Step

/-! ## Walks -/

/-- A slot takes a value of the type that is seen in it, behind the same optional layer. -/
theorem Ty.fit_rewrap {s : Schema} {c u w : Value} {t : Ty} (hc : HasType s c t)
    (hu : c.unwrapped = some u) (hw : w.typeOf = u.typeOf) : t.fit w = .ok (c.rewrap w) := by
  cases hc with
  | absent => cases hu
  | @present v t h =>
    cases hu
    have ht : w.typeOf = t := hw.trans h.typeOf_eq
    have hne : w.typeOf ≠ .option t := by rw [ht]; exact Ty.ne_option t
    simp only [Ty.fit, if_neg hne, if_pos ht]
    rfl
  | leaf | seq | map | record => cases hu; exact if_pos hw

theorem Outgrown.grownTo {s : Schema} {next : Atom} {array left longer : Value}
    (h : Outgrown s next array left longer) : array.GrownTo longer := by
  cases h
  exact .longer (List.prefix_append _ _)

namespace Evaluator

variable {ev : Evaluator} {payload : Payload} {site next : Site} {a b : Atom} {rest : List Atom}
  {st s : Step} {v x : Value} {t : Ty}

/-- Where there are only fields, no atom asks for an index. -/
theorem not_site_of_resolve (hev : ev.Typed) (hfields : ev.schema.OnlyFields t)
    (hsite : site.Fits ev.schema t) : ev.resolve site a ≠ .ok (.site next) := by
  intro h
  obtain ⟨m, u, rfl⟩ := eq_index_of_resolve h
  obtain ⟨hm, hu⟩ := fits_site hev hsite h
  rw [hfields.index?_eq_none hm] at hu
  cases hu

section LeadsInto

variable (hev : ev.Typed) (hinto : st.LeadsInto v) (hst : st.Fits ev.schema t)
  (hv : HasType ev.schema v t)

include hev hinto hst hv

/-- The longer array is stored in the place of the one whose items were moved into it. -/
theorem write_longer {p : Place v} {left longer : Value} (hp : st.place v = .ok (.place v p))
    (hout : Outgrown ev.schema b p.value left longer) :
    st.write ev.schema (p.fill left) (some longer) = .done (p.fill longer) := by
  obtain ⟨q, hq, hinner⟩ := Step.slotPlace_of_place hp
  obtain ⟨hval, hfill⟩ := Place.inner?_eq_some hinner
  have hqtype := Step.typed_slotPlace hev.schema hst hv hq
  have hptype := Step.typed_place hev.schema hst hv hp
  have hlonger := hout.hasType_longer hev.schema hptype.value
  have hprepare : st.type.prepare st.label (some longer) = .ok (q.value.rewrap longer) := by
    rw [Ty.prepare, Ty.fit_rewrap hqtype.value hval hout.grownTo.typeOf_eq]
  -- What is left of the array stands in the slot when the longer one is stored.
  have hleft := hptype.fill _ (hout.hasType_left hptype.value)
  rw [hfill] at hleft ⊢
  obtain ⟨hinto', q', hq', -, hfill'⟩ := hinto.slotPlace_fill hq (q.value.rewrap left)
  rw [Step.write_eq_store hprepare, hinto'.store_eq_done _ hq'
    (Step.typed_slotPlace hev.schema hst hleft hq').value.typeOf_eq
    (hqtype.value.rewrap hval hlonger).typeOf_eq, hfill', ← hfill]

/-- Lengthening an array puts the longer one in its place, or does nothing. -/
theorem lengthen_cases (b : Atom) :
    ev.lengthen st b v = .done v ∨ (∃ f, ev.lengthen st b v = .failed v f) ∨
      ∃ (p : Place v) (left longer : Value) (n : Nat), st.place v = .ok (.place v p) ∧
        Outgrown ev.schema b p.value left longer ∧
        ev.lengthen st b v = (Written.done (p.fill longer)).after (.grew st.label n) := by
  obtain h | ⟨f, h, -⟩ | ⟨p, left, longer, n, hp, hout, h⟩ :=
    ev.lengthen_spec_of_leaves b hinto.leavesValue v
  · exact .inl h
  · exact .inr (.inl ⟨f, h⟩)
  · refine .inr (.inr ⟨p, left, longer, n, hp, hout, ?_⟩)
    rw [h, write_longer hev hinto hst hv hp hout]

end LeadsInto

section Fields

variable (hev : ev.Typed) (hfields : ev.schema.OnlyFields t) (hst : st.Fits ev.schema t)
  (hv : HasType ev.schema v t)

include hev hfields hst hv

/-- What is read behind a step is still read once the step is approached, or it has become
longer. -/
theorem approach_grownTo (hx : st.read v = .ok (some x)) (b : Atom) :
    ∃ y, st.read (ev.approach st b v).value = .ok (some y) ∧ x.GrownTo y := by
  obtain ⟨p, hp, rfl⟩ := (Step.leadsInto hfields hst hv).place_of_read hx
  rw [(approach_of_place ev b hp).1]
  obtain h | ⟨f, h⟩ | ⟨p', left, longer, n, hp', hout, h⟩ :=
    lengthen_cases hev (Step.leadsInto hfields hst hv) hst hv b
  · rw [h]; exact ⟨_, hx, .refl _⟩
  · rw [h]; exact ⟨_, hx, .refl _⟩
  · rw [hp] at hp'
    cases hp'
    rw [h]
    have hptype := (Step.typed_place hev.schema hst hv hp).value
    have hshows := Step.shows hev.schema hfields.sharesSlot hst hv hp
    exact ⟨longer, hshows.2 _ (hout.hasType_longer hev.schema hptype), hout.grownTo⟩

/-- A write that goes on behind a step does so in what is read there, or in what that has grown to,
and what it leaves is read there in the end. -/
theorem write_below (hpay : payload.Typed ev.schema) (hres : ev.resolve site a = .ok (.step st))
    (hx : st.read v = .ok (some x))
    (h : (ev.write payload v site (a :: b :: rest)).result = .ok ()) :
    ∃ y, x.GrownTo y ∧ HasType ev.schema y st.type.declared ∧
      (ev.write payload y (.value st.type.declared st.origin) (b :: rest)).result = .ok () ∧
      st.read (ev.write payload v site (a :: b :: rest)).value = .ok (some
        (ev.write payload y (.value st.type.declared st.origin) (b :: rest)).value) := by
  obtain ⟨y, hy, hgrown⟩ := approach_grownTo hev hfields hst hv hx b
  have hwrite := h
  rw [write_step hres] at hwrite
  obtain ⟨happroach, hdescend⟩ := Written.andThen_ok hwrite
  obtain ⟨w, p, hp, hinner⟩ := descend_ok hdescend
  have hv' := hasType_approach (b := b) hev hst hv
  obtain rfl : w = (ev.approach st b v).value :=
    (Step.leadsInto hfields hst hv').leavesValue _ _ hp
  have hshows := Step.shows hev.schema hfields.sharesSlot hst hv' hp
  have hptype := (fits_place hev hst hv' hp).1
  obtain rfl : p.value = y := by simpa using hshows.1.symm.trans hy
  rw [← hptype.typeOf_eq]
  exact ⟨p.value, hgrown, hptype.self, hinner,
    read_after_shown hev hpay hst hv hres happroach hp hshows⟩

end Fields

end Evaluator

/-! ## Plain schemas -/

/-- Whether a record has neither accessor methods nor tags, and slots and fields of their types. -/
def RecordDecl.isPlain (s : Schema) (d : RecordDecl) : Bool :=
  d.members.methods.isEmpty && (d.slots.all fun sl => sl.initial.checks s sl.type) &&
    d.members.fields.all fun f =>
      decide ((d.slots[f.slot]?).map (·.type) = some f.type) && f.tags.toList.isEmpty

/-- Whether a schema has plain records only, and no named leaves. -/
def Schema.isPlain (s : Schema) : Bool := s.leaves.isEmpty && s.records.all (·.isPlain s)

theorem RecordDecl.typed_of_isPlain {s : Schema} {d : RecordDecl} (h : d.isPlain s = true) :
    d.Typed s := by
  simp only [isPlain, Bool.and_eq_true, List.all_eq_true, List.isEmpty_iff, decide_eq_true_eq] at h
  obtain ⟨⟨hmethods, hslots⟩, hfields⟩ := h
  have hmethod : ∀ m, m ∉ d.members.methods := by
    rw [hmethods]
    exact fun m => List.not_mem_nil
  refine ⟨fun sl hsl => .of_checks _ _ (hslots sl hsl), fun f hf => ?_,
    fun m hm => absurd hm (hmethod m), fun f hf tag c htag => ?_,
    fun m hm => absurd hm (hmethod m)⟩
  · exact Option.map_eq_some_iff.1 (hfields f hf).1
  · rw [Tags.get?, (hfields f hf).2] at htag
    cases htag

theorem Evaluator.typed_of_isPlain {s : Schema} (h : s.isPlain = true) :
    (Evaluator.mk s .empty).Typed := by
  simp only [Schema.isPlain, Bool.and_eq_true, List.all_eq_true, List.isEmpty_iff] at h
  refine ⟨⟨fun path d hd => ?_, fun path d v hd => ?_⟩, fun t c hc => ?_⟩
  · exact RecordDecl.typed_of_isPlain (h.2 d (List.mem_of_find?_eq_some hd))
  · rw [Schema.leaf?, h.1] at hd
    cases hd
  · cases hc

theorem Schema.OnlyFields.of_isPlain {s : Schema} (h : s.isPlain = true) (t : Ty) :
    s.OnlyFields t := by
  refine .of_no_methods (fun d hd => ?_) t
  simp only [isPlain, RecordDecl.isPlain, Bool.and_eq_true, List.all_eq_true,
    List.isEmpty_iff] at h
  exact (h.2 d hd).1.1

/-! ## A crate -/

namespace Crate

/-- A crate with lines, counts by name, notes, and a seal that is no field. -/
def crate : RecordDecl :=
  .ofParts [Shelf.line] "Crate" true
    [.exposed "lines" Shelf.linesTy [], .exposed "marks" (.map .insertion .text (.int .u32)) [],
      .exposed "notes" (.seq .vec .text) [], .skipped "seal" .text]
    []

/-- The evaluator for crates. -/
def evaluator : Evaluator := ⟨⟨[Shelf.line, crate], []⟩, .empty⟩

theorem isPlain : evaluator.schema.isPlain = true := by decide

/-- A crate with one line, two marks, one note and a seal. -/
def stocked : Value :=
  .record "Crate"
    [.present (.seq .boxed (.record "Line") [.record "Line" [.text "x", .int .u32 5]]),
      .map .insertion .text (.int .u32) [(.text "top", .int .u32 1), (.text "side", .int .u32 2)],
      .seq .vec .text [.text "dry"], .text "closed"]

theorem hasType_stocked : HasType evaluator.schema stocked stocked.typeOf :=
  .of_checks _ _ (by decide)

end Crate

end ObjectPath
