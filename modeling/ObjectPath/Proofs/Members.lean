import ObjectPath.Proofs.Typing

/-!
# Members of typed records

What is known of a member that a name leads to: a field stands for a slot of its record, and a
property is made of methods of its record that agree on types.  In a typed schema a member gives
values and places of its type, and storing in it keeps the record typed (`Member.typed_place`,
`Member.hasType_write`).

The types do not relate what a getter reads, the place it offers and what a setter stores.  Two laws
do: a member shares one slot (`Member.SharesSlot`), or at least reads where it offers a place or out
of reach of it (`Member.Coherent`).  Fields keep both.
-/

namespace ObjectPath

/-! ## Places -/

namespace Value

theorem atSlot?_record {path : String} {xs : List Value} {i : Nat}
    {q : Place (.record path xs)} (h : (Value.record path xs).atSlot? i = some q) :
    xs[i]? = some q.value ∧ ∀ w, q.fill w = .record path (xs.set i w) := by
  simp only [atSlot?] at h
  split at h
  · next x hx => cases h; exact ⟨hx, fun _ => rfl⟩
  · cases h

theorem atIndex?_seq {k : SeqKind} {t : Ty} {xs : List Value} {i : Nat}
    {q : Place (.seq k t xs)} (h : atIndex? i (.seq k t xs) = some q) :
    xs[i]? = some q.value ∧ ∀ w, q.fill w = .seq k t (xs.set i w) := by
  simp only [atIndex?] at h
  split at h
  · next x hx => cases h; exact ⟨hx, fun _ => rfl⟩
  · cases h

theorem atKey?_map {k : MapKind} {t u : Ty} {es : List (Value × Value)} {key : Value}
    {q : Place (.map k t u es)} (h : atKey? key (.map k t u es) = some q) :
    Entries.get? key es = some q.value ∧
      ∀ w, q.fill w = .map k t u (Entries.replace key w es) := by
  simp only [atKey?] at h
  split at h
  · next x hx => cases h; exact ⟨hx, fun _ => rfl⟩
  · cases h

theorem map_value_atSlot? (path : String) (xs : List Value) (i : Nat) :
    ((Value.record path xs).atSlot? i).map (·.value) = xs[i]? := by
  simp only [atSlot?]
  split <;> next h => simp [h]

theorem map_value_atKey? (key : Value) (k : MapKind) (t u : Ty) (es : List (Value × Value)) :
    (atKey? key (.map k t u es)).map (·.value) = Entries.get? key es := by
  simp only [atKey?]
  split <;> next h => simp [h]

/-- Only records have slots. -/
theorem eq_record_of_atSlot? {v : Value} {i : Nat} {q : Place v} (h : v.atSlot? i = some q) :
    ∃ path xs, v = .record path xs := by
  cases v with
  | record path xs => exact ⟨path, xs, rfl⟩
  | leaf | absent | present | seq | map => cases h

/-- What is put in a slot is what stands there. -/
theorem map_value_atSlot?_fill {v : Value} {i : Nat} {q : Place v} (h : v.atSlot? i = some q)
    (w : Value) : ((q.fill w).atSlot? i).map (·.value) = some w := by
  obtain ⟨path, xs, rfl⟩ := eq_record_of_atSlot? h
  obtain ⟨hx, hfill⟩ := atSlot?_record h
  rw [hfill, map_value_atSlot?, List.getElem?_set_self (List.getElem?_eq_some_iff.1 hx).1]

/-- A value in the place of another one: in an optional slot if the other one stands in one. -/
def rewrap : Value → Value → Value
  | present _, w => present w
  | _, w => w

theorem unwrapped_rewrap {c u w : Value} (hc : c.unwrapped = some u) (hw : w.typeOf = u.typeOf) :
    (c.rewrap w).unwrapped = some w := by
  cases c with
  | present v => rfl
  | absent => cases hc
  | leaf | seq | map | record =>
    cases hc
    cases w with
    | absent | present => cases hw
    | leaf | seq | map | record => rfl

end Value

theorem HasType.rewrap {s : Schema} {c u w : Value} {t : Ty} (hc : HasType s c t)
    (hu : c.unwrapped = some u) (hw : HasType s w t.declared) : HasType s (c.rewrap w) t := by
  cases hc with
  | present => exact .present hw
  | absent => cases hu
  | leaf | seq | map | record => exact hw

/-- The place of a declared slot holds a value of its type, and takes one. -/
theorem HasType.typed_atSlot? {s : Schema} {path : String} {d : RecordDecl} {i : Nat} {sl : Slot}
    {v : Value} {p : Place v} (hv : HasType s v (.record path)) (hd : s.record? path = some d)
    (hsl : d.slots[i]? = some sl) (h : v.atSlot? i = some p) :
    p.Typed s (.record path) sl.type := by
  obtain ⟨q, xs, rfl⟩ := Value.eq_record_of_atSlot? h
  obtain ⟨hx, hfill⟩ := Value.atSlot?_record h
  obtain rfl : q = path := Ty.record.inj hv.typeOf_eq
  exact ⟨hv.slot hd hx hsl, fun w hw => hfill w ▸ hv.setSlot hd hsl hw⟩

namespace Place

variable {root : Value} {p q : Place root}

/-- The place behind an optional slot: what it holds, and how it is filled. -/
theorem inner?_eq_some (h : p.inner? = some q) :
    p.value.unwrapped = some q.value ∧ ∀ w, q.fill w = p.fill (p.value.rewrap w) := by
  unfold inner? at h
  split at h
  · cases h
  · next v hv => cases h; simp [hv, Value.unwrapped, Value.rewrap]
  · next hv hp =>
    cases h
    generalize p.value = c at hv hp
    cases c with
    | absent t => exact absurd rfl (hv t)
    | present v => exact absurd rfl (hp v)
    | leaf | seq | map | record => exact ⟨rfl, fun _ => rfl⟩

theorem Typed.compose {s : Schema} {whole mid part : Ty} {q : Place p.value}
    (hp : p.Typed s whole mid) (hq : q.Typed s mid part) : (p.compose q).Typed s whole part :=
  ⟨hq.value, fun w hw => hp.fill _ (hq.fill w hw)⟩

theorem Typed.inner {s : Schema} {whole part : Ty} (hp : p.Typed s whole part)
    (h : p.inner? = some q) : q.Typed s whole part.declared := by
  obtain ⟨hv, hf⟩ := inner?_eq_some h
  exact ⟨hp.value.unwrapped hv, fun w hw => hf w ▸ hp.fill _ (hp.value.rewrap hv hw)⟩

end Place

namespace Offer

variable {s : Schema} {whole part : Ty} {v : Value} {o : Offer}

theorem left_of (p : Option (Place v)) : (of p).left = v := by cases p <;> rfl

theorem left_inner (o : Offer) : o.inner.left = o.left := by
  cases o with
  | nothing v => rfl
  | place v p => exact left_of _

theorem of_eq_place {p : Option (Place v)} {q : Place v} (h : of p = place v q) : p = some q := by
  cases p with
  | none => cases h
  | some p => cases h; rfl

theorem of_eq_nothing {p : Option (Place v)} (h : of p = nothing v) : p = none := by
  cases p with
  | none => rfl
  | some p => cases h

/-- A place behind an optional slot comes from a place of the slot. -/
theorem inner_eq_place {p : Place v} (h : o.inner = place v p) :
    ∃ q : Place v, o = place v q ∧ q.inner? = some p := by
  cases o with
  | nothing w => cases h
  | place w q =>
    obtain rfl : w = v := (left_of q.inner?).symm.trans (congrArg left h)
    exact ⟨q, rfl, of_eq_place h⟩

theorem Typed.left (h : o.Typed s whole part) : HasType s o.left whole := by
  cases o with
  | nothing v => exact h
  | place v p =>
    obtain ⟨hvalue, hfill⟩ := h
    have hv := hfill _ hvalue
    rwa [p.fill_value] at hv

theorem typed_of {p : Option (Place v)} (hv : HasType s v whole)
    (hp : ∀ q, p = some q → q.Typed s whole part) : (of p).Typed s whole part := by
  cases p with
  | none => exact hv
  | some q => exact hp q rfl

theorem Typed.inner (h : o.Typed s whole part) : o.inner.Typed s whole part.declared := by
  cases o with
  | nothing v => exact h
  | place v p => exact typed_of (Typed.left (o := .place v p) h) fun q hq => Place.Typed.inner h hq

end Offer

/-! ## Properties and fields -/

/-- A property made of methods that agree on the type of its value and on its index. -/
structure Property.MadeOf (methods : List Method) (p : Property) : Prop where
  getter : ∀ g, p.getter? = some g →
    g ∈ methods ∧ g.isGetter = true ∧ g.type = p.type ∧ g.index? = p.index?
  setter : ∀ m, p.setter? = some m →
    m ∈ methods ∧ m.isGetter = false ∧ m.type = p.type ∧ m.index? = p.index?
  accessor : p.getter?.isSome ∨ p.setter?.isSome

namespace Property

theorem mem_of_filter_eq_singleton {methods : List Method} {f : Method → Bool} {m : Method}
    (h : methods.filter f = [m]) : m ∈ methods ∧ f m = true :=
  List.mem_filter.1 (h ▸ List.mem_singleton_self m)

theorem ofPair_ok {name : String} {g m : Method} {p : Property}
    (h : ofPair name g m = .ok p) :
    g.type = m.type ∧ g.index? = m.index? ∧ p = ⟨name, g.type, g.index?, some g, some m⟩ := by
  unfold ofPair at h
  split at h
  · cases h
  · cases h
  · split at h
    · cases h
    · next hi =>
      split at h
      · cases h
      · next ht => cases h; exact ⟨Decidable.not_not.1 ht, Decidable.not_not.1 hi, rfl⟩

theorem madeOf_of_ofMethods {name : String} {methods : List Method} {p : Property}
    (h : ofMethods name methods = .ok p) : p.MadeOf methods := by
  unfold ofMethods at h
  split at h
  · cases h
  · next g hg _ =>
    cases h
    obtain ⟨hm, hk⟩ := mem_of_filter_eq_singleton hg
    exact ⟨fun m e => by cases e; exact ⟨hm, hk, rfl, rfl⟩, nofun, .inl rfl⟩
  · next m _ hset =>
    cases h
    obtain ⟨hm, hk⟩ := mem_of_filter_eq_singleton hset
    exact ⟨nofun, fun m e => by cases e; exact ⟨hm, by simpa using hk, rfl, rfl⟩, .inr rfl⟩
  · next g m hg hset =>
    obtain ⟨hgm, hgk⟩ := mem_of_filter_eq_singleton hg
    obtain ⟨hmm, hmk⟩ := mem_of_filter_eq_singleton hset
    obtain ⟨ht, hi, rfl⟩ := ofPair_ok h
    refine ⟨fun g e => ?_, fun m e => ?_, .inl rfl⟩
    · cases e; exact ⟨hgm, hgk, rfl, rfl⟩
    · cases e; exact ⟨hmm, by simpa using hmk, ht.symm, hi.symm⟩
  · cases h

theorem MadeOf.mono {methods methods' : List Method} {p : Property} (h : p.MadeOf methods)
    (hs : ∀ m ∈ methods, m ∈ methods') : p.MadeOf methods' :=
  ⟨fun g hg => ⟨hs g (h.getter g hg).1, (h.getter g hg).2⟩,
    fun m hm => ⟨hs m (h.setter m hm).1, (h.setter m hm).2⟩, h.accessor⟩

end Property

namespace Metadata

theorem mem_firstFields {f : Field} : ∀ {fields : List Field}, f ∈ firstFields fields → f ∈ fields
  | [], h => h
  | g :: gs, h => by
    simp only [firstFields, List.mem_cons, List.mem_filter] at h
    rcases h with rfl | ⟨h, -⟩
    · exact List.mem_cons_self
    · exact List.mem_cons_of_mem _ (mem_firstFields h)

theorem madeOf_of_mem {d : Declarations} {p : Property} (h : p ∈ (build d).properties) :
    p.MadeOf d.methods := by
  simp only [build, List.mem_filterMap] at h
  obtain ⟨n, -, hn⟩ := h
  cases hp : Property.ofMethods n (methodsFor n d.methods) with
  | error e => simp [hp, Except.toOption] at hn
  | ok q =>
    simp only [hp, Except.toOption, Option.some.injEq] at hn
    subst hn
    exact (Property.madeOf_of_ofMethods hp).mono fun m hm => (List.mem_filter.1 hm).1

end Metadata

/-! ## Members of a type -/

/-- A name leads to the member in values of the type. -/
def Member.Of (s : Schema) (t : Ty) (m : Member) : Prop :=
  ∃ md name, s.metadata? t = some md ∧ md.member? name = some m

/-- What a member of a record is made of. -/
inductive Member.MadeOf (d : RecordDecl) : Member → Prop
  | field {f : Field} (hf : f ∈ d.members.fields) : MadeOf d (.field f)
  | property {p : Property} {hidden : Option Field} (hp : p.MadeOf d.members.methods)
      (hh : ∀ f, hidden = some f → f ∈ d.members.fields) : MadeOf d (.property p hidden)

namespace Member

variable {s : Schema} {t : Ty} {m : Member}

theorem Of.madeOf (h : m.Of s t) :
    ∃ path d, t = .record path ∧ s.record? path = some d ∧ m.MadeOf d := by
  obtain ⟨md, name, hmd, hm⟩ := h
  cases t with
  | record path =>
    simp only [Schema.metadata?, Option.map_eq_some_iff] at hmd
    obtain ⟨d, hd, rfl⟩ := hmd
    refine ⟨path, d, rfl, hd, ?_⟩
    have field_mem : ∀ f, (Metadata.build d.members).field? name = some f → f ∈ d.members.fields :=
      fun f hf => Metadata.mem_firstFields (List.mem_of_find?_eq_some hf)
    unfold Metadata.member? at hm
    split at hm
    · next p f hp =>
      cases hm
      exact .property (Metadata.madeOf_of_mem (List.mem_of_find?_eq_some hp)) field_mem
    · next f _ hf => cases hm; exact .field (field_mem f hf)
    · cases hm
  | leaf | option | seq | map => cases hmd

/-- A property that a name leads to is one of its record. -/
theorem Of.property_mem {path : String} {d : RecordDecl} {p : Property} {hidden : Option Field}
    (h : (Member.property p hidden).Of s (.record path)) (hd : s.record? path = some d) :
    p ∈ (Metadata.build d.members).properties := by
  obtain ⟨md, name, hmd, hm⟩ := h
  simp only [Schema.metadata?, hd, Option.map_some, Option.some.injEq] at hmd
  subst hmd
  unfold Metadata.member? at hm
  split at hm
  · next hp => cases hm; exact List.mem_of_find?_eq_some hp
  · cases hm
  · cases hm

end Member

/-- A member of values of some type. -/
def Member.Known (s : Schema) (m : Member) : Prop := ∃ t, m.Of s t

/-! ## The accessor methods of a property -/

namespace Property

variable {s : Schema} {path : String} {d : RecordDecl} {p : Property} {a : Access} {u : Ty}

/-- A getter with an index of a type, or with none. -/
inductive Reads : Option Ty → Access → Prop
  | plain (get : Value → Option Value) (offer : Value → Offer) : Reads none (.getter get offer)
  | indexed (u : Ty) (get : Value → Value → Option Value) (offer : Value → Value → Offer) :
      Reads (some u) (.indexedGetter u get offer)

/-- A setter with an index of a type, or with none. -/
inductive Stores : Option Ty → Access → Prop
  | plain (set : Value → Value → Value) : Stores none (.setter set)
  | indexed (u : Ty) (set : Value → Value → Value → Value) : Stores (some u) (.indexedSetter u set)

theorem reads_of_isGetter {m : Method} (h : m.isGetter = true) : Reads m.index? m.access := by
  obtain ⟨name, type, access, tags⟩ := m
  cases access with
  | getter | indexedGetter => constructor
  | setter | indexedSetter => cases h

theorem stores_of_not_isGetter {m : Method} (h : m.isGetter = false) :
    Stores m.index? m.access := by
  obtain ⟨name, type, access, tags⟩ := m
  cases access with
  | getter | indexedGetter => cases h
  | setter | indexedSetter => constructor

/-- The getter of a property takes the index of the property, and is typed as the property is. -/
theorem MadeOf.reader (hs : s.Typed) (hd : s.record? path = some d)
    (hp : p.MadeOf d.members.methods) (ha : p.reader? = some a) :
    Reads p.index? a ∧ a.Typed s (.record path) p.type := by
  obtain ⟨g, hg, rfl⟩ := Option.map_eq_some_iff.1 ha
  obtain ⟨hmem, hkind, ht, hi⟩ := hp.getter g hg
  have htyped := (hs.record path d hd).method g hmem
  rw [Schema.record?_path hd, ht] at htyped
  exact ⟨hi ▸ reads_of_isGetter hkind, htyped⟩

/-- The setter of a property takes the index and the values of the property. -/
theorem MadeOf.writer (hs : s.Typed) (hd : s.record? path = some d)
    (hp : p.MadeOf d.members.methods) (ha : p.writer? = some (u, a)) :
    u = p.type ∧ Stores p.index? a ∧ a.Typed s (.record path) p.type := by
  obtain ⟨m, hm, h⟩ := Option.map_eq_some_iff.1 ha
  cases h
  obtain ⟨hmem, hkind, ht, hi⟩ := hp.setter m hm
  have htyped := (hs.record path d hd).method m hmem
  rw [Schema.record?_path hd, ht] at htyped
  exact ⟨ht, hi ▸ stores_of_not_isGetter hkind, htyped⟩

end Property

/-! ## Typed members -/

namespace Member

variable {s : Schema} {t u : Ty} {m : Member} {v v' x i : Value} {label : String} {o : Offer}

/-- The place of a member holds a value of its type, and takes one. -/
theorem typed_place (hs : s.Typed) (hm : m.Of s t) (hv : HasType s v t)
    (h : m.place v = .ok o) : o.Typed s t m.type := by
  obtain ⟨path, d, rfl, hd, hmade⟩ := hm.madeOf
  cases hmade with
  | @field f hf =>
    obtain ⟨slot, hslot, htype⟩ := (hs.record path d hd).field f hf
    cases h
    refine Offer.typed_of hv fun p hp => ?_
    have htyped := hv.typed_atSlot? hd hslot hp
    rwa [htype] at htyped
  | property hp =>
    simp only [place] at h
    split at h
    · next get offer ha =>
      cases h
      exact ((hp.reader hs hd ha).2 v hv).2
    · cases h

theorem typed_placeAt (hs : s.Typed) (hm : m.Of s t) (hv : HasType s v t) (hu : m.index? = some u)
    (hi : HasType s i u) (h : m.placeAt v i = .ok o) : o.Typed s t m.type := by
  obtain ⟨path, d, rfl, hd, hmade⟩ := hm.madeOf
  cases hmade with
  | field => cases h
  | @property q _ hp =>
    simp only [placeAt] at h
    split at h
    · next index get place ha =>
      obtain ⟨hkind, htyped⟩ := hp.reader hs hd ha
      rw [show q.index? = some u from hu] at hkind
      cases hkind
      cases h
      exact (htyped v i hv hi).2
    · cases h

/-- The slot of a field holds a value of its type, and takes one. -/
theorem typed_field {f : Field} (hs : s.Typed) (hm : (field f).Of s t) (hv : HasType s v t)
    {p : Place v} (h : v.atSlot? f.slot = some p) : p.Typed s t f.type := by
  have hp := typed_place hs hm hv (o := .place v p) (by rw [place, h]; rfl)
  exact hp

/-- A member reads values of its type. -/
theorem hasType_read (hs : s.Typed) (hm : m.Of s t) (hv : HasType s v t)
    (h : m.read v = .ok (some x)) : HasType s x m.type := by
  obtain ⟨path, d, rfl, hd, hmade⟩ := hm.madeOf
  cases hmade with
  | @field f hf =>
    simp only [read, Except.ok.injEq, Option.map_eq_some_iff] at h
    obtain ⟨q, hq, rfl⟩ := h
    exact (typed_field hs hm hv hq).value
  | property hp =>
    simp only [read] at h
    split at h
    · next get place ha =>
      exact ((hp.reader hs hd ha).2 v hv).1 x (Except.ok.inj h)
    · cases h

theorem hasType_readAt (hs : s.Typed) (hm : m.Of s t) (hv : HasType s v t)
    (hu : m.index? = some u) (hi : HasType s i u) (h : m.readAt v i = .ok (some x)) :
    HasType s x m.type := by
  obtain ⟨path, d, rfl, hd, hmade⟩ := hm.madeOf
  cases hmade with
  | field => cases h
  | @property q _ hp =>
    simp only [readAt] at h
    split at h
    · next index get place ha =>
      obtain ⟨hkind, htyped⟩ := hp.reader hs hd ha
      rw [show q.index? = some u from hu] at hkind
      cases hkind
      exact (htyped v i hv hi).1 x (Except.ok.inj h)
    · cases h

/-- Storing a value in a member keeps the record typed. -/
theorem hasType_write (hs : s.Typed) (hm : m.Of s t) (hv : HasType s v t)
    (hx : HasType s x m.type) (h : m.write v x = .ok v') : HasType s v' t := by
  obtain ⟨path, d, rfl, hd, hmade⟩ := hm.madeOf
  cases hmade with
  | @field f hf =>
    simp only [write] at h
    split at h
    · next q hq =>
      split at h
      · cases h
        exact (typed_field hs hm hv hq).fill x hx
      · cases h
    · cases h
  | property hp =>
    simp only [write] at h
    split at h
    · next set ha =>
      obtain ⟨-, -, htyped⟩ := hp.writer hs hd ha
      split at h
      · cases h; exact htyped v x hv hx
      · cases h
    · cases h

theorem hasType_writeAt (hs : s.Typed) (hm : m.Of s t) (hv : HasType s v t)
    (hu : m.index? = some u) (hi : HasType s i u) (hx : HasType s x m.type)
    (h : m.writeAt label v i x = .ok v') : HasType s v' t := by
  obtain ⟨path, d, rfl, hd, hmade⟩ := hm.madeOf
  cases hmade with
  | field => cases h
  | @property q _ hp =>
    simp only [writeAt] at h
    split at h
    · next index set ha =>
      obtain ⟨-, hkind, htyped⟩ := hp.writer hs hd ha
      rw [show q.index? = some u from hu] at hkind
      cases hkind
      split at h
      · cases h; exact htyped v i x hv hi hx
      · cases h
    · cases h

/-- The tags of a member hold typed converters. -/
theorem typed_tag (hs : s.Typed) (hm : m.Known s) {tag : Tag} {c : Converter}
    (h : m.tag? .convert = some tag) (hc : tag.converter? = some c) : c.Typed s := by
  obtain ⟨t, hm⟩ := hm
  obtain ⟨path, d, rfl, hd, hmade⟩ := hm.madeOf
  have htyped := hs.record path d hd
  cases hmade with
  | field hf => exact htyped.fieldTags _ hf tag c h hc
  | property hp hh =>
    simp only [tag?, Property.tag?, Option.or_eq_some_iff, Option.bind_eq_some_iff] at h
    obtain (⟨g, hg, h⟩ | ⟨-, m, hm, h⟩) | ⟨-, f, hf, h⟩ := h
    · exact htyped.methodTags g (hp.getter g hg).1 tag c h hc
    · exact htyped.methodTags m (hp.setter m hm).1 tag c h hc
    · exact htyped.fieldTags f (hh f hf) tag c h hc

end Member

/-! ## What a member reads of what it stores -/

section Laws

variable (s : Schema) (type : Ty)

/-- What is read is what stands at the place, whatever is put there. -/
def Place.Shown {root : Value} (p : Place root)
    (read : Value → Except Fault (Option Value)) : Prop :=
  read root = .ok (some p.value) ∧ ∀ w, HasType s w type → read (p.fill w) = .ok (some w)

/-- What is read is out of reach: neither what is put at the place nor what is stored then changes
it. -/
def Place.Hidden {root : Value} (p : Place root) (read : Value → Except Fault (Option Value))
    (write : Value → Value → Except Fault Value) : Prop :=
  ∀ w, HasType s w type → read (p.fill w) = read root ∧
    ∀ x r, HasType s x type → write (p.fill w) x = .ok r → read r = read root

end Laws

namespace Member

/-- To offer a place the member leaves the record alone. -/
structure LeavesRecord (m : Member) : Prop where
  place : ∀ (r : Value) (o : Offer), m.place r = .ok o → o.left = r
  placeAt : ∀ (r i : Value) (o : Offer), m.placeAt r i = .ok o → o.left = r

/-- The member reads what stands at the place it offers and what was stored last: there is one slot
behind it, or one for each index. -/
structure SharesSlot (s : Schema) (t : Ty) (m : Member) : Prop where
  place : ∀ (r v : Value) (p : Place v), HasType s r t → m.place r = .ok (.place v p) →
    p.Shown s m.type m.read
  write : ∀ r x r', HasType s r t → HasType s x m.type → m.write r x = .ok r' →
    m.read r' = .ok (some x)
  placeAt : ∀ (r v i : Value) (p : Place v) u, HasType s r t → m.index? = some u →
    HasType s i u → m.placeAt r i = .ok (.place v p) → p.Shown s m.type fun r => m.readAt r i
  writeAt : ∀ r i x r' u label, HasType s r t → m.index? = some u → HasType s i u →
    HasType s x m.type → m.writeAt label r i x = .ok r' → m.readAt r' i = .ok (some x)

/-- The place the member offers is where it reads, or what it reads is out of reach, and to offer it
the member leaves the record alone.  It may read without offering a place, and offer a place without
reading. -/
structure Coherent (s : Schema) (t : Ty) (m : Member) : Prop where
  leaves : m.LeavesRecord
  place : ∀ (r : Value) (p : Place r), HasType s r t → m.place r = .ok (.place r p) →
    p.Shown s m.type m.read ∨ p.Hidden s m.type m.read m.write
  placeAt : ∀ (r i : Value) (p : Place r) u, HasType s r t → m.index? = some u → HasType s i u →
    m.placeAt r i = .ok (.place r p) → p.Shown s m.type (fun r => m.readAt r i) ∨
      ∀ label, p.Hidden s m.type (fun r => m.readAt r i) fun r x => m.writeAt label r i x

variable {s : Schema} {t : Ty} {m : Member}

/-- The member reads what stands at the place it offers. -/
structure ShowsPlace (s : Schema) (t : Ty) (m : Member) : Prop where
  place : ∀ (r v : Value) (p : Place v), HasType s r t → m.place r = .ok (.place v p) →
    p.Shown s m.type m.read
  placeAt : ∀ (r v i : Value) (p : Place v) u, HasType s r t → m.index? = some u →
    HasType s i u → m.placeAt r i = .ok (.place v p) → p.Shown s m.type fun r => m.readAt r i

/-- The member reads what was stored in it last. -/
structure ReadsStored (s : Schema) (t : Ty) (m : Member) : Prop where
  write : ∀ r x r', HasType s r t → HasType s x m.type → m.write r x = .ok r' →
    m.read r' = .ok (some x)
  writeAt : ∀ r i x r' u label, HasType s r t → m.index? = some u → HasType s i u →
    HasType s x m.type → m.writeAt label r i x = .ok r' → m.readAt r' i = .ok (some x)

theorem SharesSlot.showsPlace (h : m.SharesSlot s t) : m.ShowsPlace s t := ⟨h.place, h.placeAt⟩

theorem SharesSlot.readsStored (h : m.SharesSlot s t) : m.ReadsStored s t := ⟨h.write, h.writeAt⟩

theorem SharesSlot.coherent (h : m.SharesSlot s t) (hleaves : m.LeavesRecord) : m.Coherent s t :=
  ⟨hleaves, fun r p hr hp => .inl (h.place r r p hr hp),
    fun r i p u hr hu hi hp => .inl (h.placeAt r r i p u hr hu hi hp)⟩

theorem leavesRecord_field (f : Field) : (Member.field f).LeavesRecord where
  place r o h := by
    cases h
    exact Offer.left_of _
  placeAt _ _ _ h := nomatch h

/-- A field is its slot. -/
theorem sharesSlot_field (f : Field) : (Member.field f).SharesSlot s t where
  place r v p _ hp := by
    obtain rfl : v = r := (leavesRecord_field f).place r _ hp
    have hslot := Offer.of_eq_place (Except.ok.inj hp)
    exact ⟨congrArg Except.ok (by rw [hslot]; rfl),
      fun w _ => congrArg Except.ok (Value.map_value_atSlot?_fill hslot w)⟩
  write r x r' _ _ h := by
    simp only [write] at h
    split at h
    · next p hp =>
      split at h
      · cases h; exact congrArg Except.ok (Value.map_value_atSlot?_fill hp x)
      · cases h
    · cases h
  placeAt _ _ _ _ _ _ hu := nomatch hu
  writeAt _ _ _ _ _ _ _ hu := nomatch hu

end Member

/-- Every member of every record shares one slot. -/
def Schema.SharesSlots (s : Schema) : Prop :=
  ∀ (t : Ty) (m : Member), m.Of s t → m.SharesSlot s t

/-- Getters are read methods: to offer a place every member of every record leaves the record
alone. -/
def Schema.LeavesRecords (s : Schema) : Prop :=
  ∀ (t : Ty) (m : Member), m.Of s t → m.LeavesRecord

/-- A getter that leaves the record alone when it offers a place. -/
def Access.LeavesRecord : Access → Prop
  | .getter _ offer => ∀ r, (offer r).left = r
  | .indexedGetter _ _ offer => ∀ r i, (offer r i).left = r
  | .setter _ | .indexedSetter _ _ => True

theorem Access.leavesRecord_getter {get : Value → Option Value}
    {place : (r : Value) → Option (Place r)} :
    (Access.getter get fun r => .of (place r)).LeavesRecord :=
  fun r => Offer.left_of (place r)

theorem Access.leavesRecord_indexedGetter {index : Ty} {get : Value → Value → Option Value}
    {place : (r : Value) → Value → Option (Place r)} :
    (Access.indexedGetter index get fun r i => .of (place r i)).LeavesRecord :=
  fun r i => Offer.left_of (place r i)

theorem Member.leavesRecord_property {p : Property} {hidden : Option Field}
    (h : ∀ a, p.reader? = some a → a.LeavesRecord) : (Member.property p hidden).LeavesRecord where
  place r o ho := by
    simp only [Member.place] at ho
    split at ho
    · next get offer ha => cases ho; exact h _ ha r
    · cases ho
  placeAt r i o ho := by
    simp only [Member.placeAt] at ho
    split at ho
    · next u get offer ha => cases ho; exact h _ ha r i
    · cases ho

/-- It is up to the getters whether records are left alone. -/
theorem Schema.leavesRecords_of_methods {s : Schema}
    (h : ∀ path d, s.record? path = some d → ∀ m ∈ d.members.methods, m.access.LeavesRecord) :
    s.LeavesRecords := by
  intro t m hm
  obtain ⟨path, d, rfl, hd, hmade⟩ := hm.madeOf
  cases hmade with
  | field => exact Member.leavesRecord_field _
  | property hp =>
    refine Member.leavesRecord_property fun a ha => ?_
    obtain ⟨g, hg, rfl⟩ := Option.map_eq_some_iff.1 ha
    exact h path d hd g (hp.getter g hg).1

/-- Every member of every record is coherent. -/
def Schema.Coherent (s : Schema) : Prop :=
  ∀ (t : Ty) (m : Member), m.Of s t → m.Coherent s t

theorem Schema.SharesSlots.coherent {s : Schema} (h : s.SharesSlots) (hleaves : s.LeavesRecords) :
    s.Coherent :=
  fun t m hm => (h t m hm).coherent (hleaves t m hm)

end ObjectPath
