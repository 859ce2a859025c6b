import ObjectPath.Proofs.Atomicity
import ObjectPath.Proofs.Fields

/-!
# Failed writes fill in

A value extends another one if it has everything the other one has: nulls may be filled, sequences
may have further items behind their own, and maps further entries (`Value.ExtendedBy`).  Where there
are only fields, every change that a write makes before its last step is such an extension: what it
creates was null, and what it makes longer keeps its items.  So a write that fails, at whatever
point, leaves a root that extends the one it began with, and every leaf that could be read is still
read (`Evaluator.set_extendedBy`).
-/

namespace ObjectPath

/-- `w` has everything that `v` has: a null extends to every value of its type, and the containers
to those with at least the same contents, which extend one by one. -/
inductive Value.ExtendedBy (s : Schema) : Value → Value → Prop
  | refl (v : Value) : ExtendedBy s v v
  | absent {t : Ty} {w : Value} (h : HasType s w (.option t)) : ExtendedBy s (.absent t) w
  | present {v w : Value} (h : ExtendedBy s v w) : ExtendedBy s (.present v) (.present w)
  | seq {k : SeqKind} {t : Ty} {xs ys : List Value} (hlen : xs.length ≤ ys.length)
      (h : ∀ (i : Nat) (x y : Value), xs[i]? = some x → ys[i]? = some y → ExtendedBy s x y) :
      ExtendedBy s (.seq k t xs) (.seq k t ys)
  | map {k : MapKind} {a b : Ty} {es es' : List (Value × Value)}
      (hkeys : ∀ key x, Entries.get? key es = some x → ∃ y, Entries.get? key es' = some y)
      (horder : k.byKey = false → es.map (·.1) <+: es'.map (·.1))
      (h : ∀ (key x y : Value), Entries.get? key es = some x → Entries.get? key es' = some y →
        ExtendedBy s x y) : ExtendedBy s (.map k a b es) (.map k a b es')
  | record {path : String} {xs ys : List Value} (hlen : ys.length = xs.length)
      (h : ∀ (i : Nat) (x y : Value), xs[i]? = some x → ys[i]? = some y → ExtendedBy s x y) :
      ExtendedBy s (.record path xs) (.record path ys)

/-- Every item of a list is extended by the item at its place in another one. -/
def ItemsExtended (s : Schema) (xs ys : List Value) : Prop :=
  ∀ (i : Nat) (x : Value), xs[i]? = some x → ∃ y, ys[i]? = some y ∧ x.ExtendedBy s y

/-- Every value under a key is extended by the one under it in other entries. -/
def EntriesExtended (s : Schema) (es es' : List (Value × Value)) : Prop :=
  ∀ (key x : Value), Entries.get? key es = some x →
    ∃ y, Entries.get? key es' = some y ∧ x.ExtendedBy s y

/-- What stands in a slot of a typed record is typed. -/
theorem HasType.exists_slotType {s : Schema} {path : String} {xs : List Value} {i : Nat} {x : Value}
    {t : Ty} (h : HasType s (.record path xs) t) (hx : xs[i]? = some x) : ∃ u, HasType s x u := by
  cases h with
  | @record _ d _ _ hlen h =>
    have hi : i < d.slots.length := hlen ▸ (List.getElem?_eq_some_iff.1 hx).1
    exact ⟨_, h i x _ hx (List.getElem?_eq_getElem hi)⟩

namespace Value.ExtendedBy

variable {s : Schema} {t a b : Ty} {u v w x y : Value} {k : SeqKind} {kind : MapKind}
  {path : String} {xs ys : List Value} {es es' : List (Value × Value)} {key : Value}

theorem typeOf_eq (h : v.ExtendedBy s w) : w.typeOf = v.typeOf := by
  induction h with
  | refl | seq | map | record => rfl
  | absent h => exact h.typeOf_eq
  | present _ ih => exact congrArg Ty.option ih

/-- A leaf is extended by itself only. -/
theorem eq_leaf {l : Leaf} (h : (Value.leaf l).ExtendedBy s w) : w = .leaf l := by
  cases h
  rfl

/-- In place of a null any value of its type may stand. -/
theorem of_null (hv : HasType s v t) (hnull : v.unwrapped = none) (hw : HasType s w t) :
    v.ExtendedBy s w := by
  cases hv with
  | absent => exact .absent hw
  | present | leaf | seq | map | record => cases hnull

/-- What is seen in an optional slot may be replaced by what extends it. -/
theorem rewrap (hx : v.unwrapped = some x) (h : x.ExtendedBy s y) :
    v.ExtendedBy s (v.rewrap y) := by
  cases v with
  | present => cases hx; exact .present h
  | absent => cases hx
  | leaf | seq | map | record => cases hx; exact h

/-- What is seen in an optional slot is seen in what extends it. -/
theorem exists_unwrapped (h : v.ExtendedBy s w) (hx : v.unwrapped = some x) :
    ∃ y, w.unwrapped = some y ∧ x.ExtendedBy s y := by
  cases h with
  | refl => exact ⟨x, hx, .refl x⟩
  | absent => cases hx
  | present h => cases hx; exact ⟨_, rfl, h⟩
  | seq hlen h => cases hx; exact ⟨_, rfl, .seq hlen h⟩
  | map hkeys horder h => cases hx; exact ⟨_, rfl, .map hkeys horder h⟩
  | record hlen h => cases hx; exact ⟨_, rfl, .record hlen h⟩

/-! ## Items, slots and entries -/

theorem exists_getElem?_of_length_le {i : Nat} (h : xs.length ≤ ys.length)
    (hx : xs[i]? = some x) : ∃ y, ys[i]? = some y :=
  ⟨_, List.getElem?_eq_getElem (Nat.lt_of_lt_of_le (List.getElem?_eq_some_iff.1 hx).1 h)⟩

theorem of_items (h : ItemsExtended s xs ys) :
    (Value.seq k t xs).ExtendedBy s (.seq k t ys) := by
  refine .seq (Nat.le_of_not_lt fun hlt => ?_) fun i x y hx hy => ?_
  · obtain ⟨y, hy, -⟩ := h ys.length _ (List.getElem?_eq_getElem hlt)
    rw [List.getElem?_eq_none (Nat.le_refl _)] at hy
    cases hy
  · obtain ⟨y', hy', hext⟩ := h i x hx
    rw [hy] at hy'
    cases hy'
    exact hext

theorem items (h : (Value.seq k t xs).ExtendedBy s w) :
    ∃ ys, w = .seq k t ys ∧ ItemsExtended s xs ys := by
  cases h with
  | refl => exact ⟨xs, rfl, fun i x hx => ⟨x, hx, .refl x⟩⟩
  | @seq _ _ _ ys hlen h =>
    refine ⟨ys, rfl, fun i x hx => ?_⟩
    obtain ⟨y, hy⟩ := exists_getElem?_of_length_le hlen hx
    exact ⟨y, hy, h i x y hx hy⟩

theorem of_slots (hlen : ys.length = xs.length) (h : ItemsExtended s xs ys) :
    (Value.record path xs).ExtendedBy s (.record path ys) := by
  refine .record hlen fun i x y hx hy => ?_
  obtain ⟨y', hy', hext⟩ := h i x hx
  rw [hy] at hy'
  cases hy'
  exact hext

theorem slots (h : (Value.record path xs).ExtendedBy s w) :
    ∃ ys, w = .record path ys ∧ ys.length = xs.length ∧ ItemsExtended s xs ys := by
  cases h with
  | refl => exact ⟨xs, rfl, rfl, fun i x hx => ⟨x, hx, .refl x⟩⟩
  | @record _ _ ys hlen h =>
    refine ⟨ys, rfl, hlen, fun i x hx => ?_⟩
    obtain ⟨y, hy⟩ := exists_getElem?_of_length_le (Nat.le_of_eq hlen.symm) hx
    exact ⟨y, hy, h i x y hx hy⟩

theorem of_entries (horder : kind.byKey = false → es.map (·.1) <+: es'.map (·.1))
    (h : EntriesExtended s es es') : (Value.map kind a b es).ExtendedBy s (.map kind a b es') := by
  refine .map (fun key x hx => ?_) horder fun key x y hx hy => ?_
  · obtain ⟨y, hy, -⟩ := h key x hx
    exact ⟨y, hy⟩
  · obtain ⟨y', hy', hext⟩ := h key x hx
    rw [hy] at hy'
    cases hy'
    exact hext

theorem entries (h : (Value.map kind a b es).ExtendedBy s w) :
    ∃ es', w = .map kind a b es' ∧ (kind.byKey = false → es.map (·.1) <+: es'.map (·.1)) ∧
      EntriesExtended s es es' := by
  cases h with
  | refl => exact ⟨es, rfl, fun _ => List.prefix_refl _, fun key x hx => ⟨x, hx, .refl x⟩⟩
  | @map _ _ _ _ es' hkeys horder h =>
    refine ⟨es', rfl, horder, fun key x hx => ?_⟩
    obtain ⟨y, hy⟩ := hkeys key x hx
    exact ⟨y, hy, h key x y hx hy⟩

/-- Further items behind a list extend a sequence. -/
theorem of_longer (h : xs <+: ys) : (Value.seq k t xs).ExtendedBy s (.seq k t ys) := by
  refine of_items fun i x hx => ⟨x, ?_, .refl x⟩
  have hi := (List.getElem?_eq_some_iff.1 hx).1
  rw [List.prefix_iff_getElem?.1 h i hi, ← List.getElem?_eq_getElem hi, hx]

theorem of_grownTo (h : v.GrownTo w) : v.ExtendedBy s w := by
  cases h with
  | refl => exact .refl v
  | longer h => exact of_longer h

/-- An item is extended where it stands. -/
theorem itemsExtended_set {i : Nat} (hx : xs[i]? = some x) (h : x.ExtendedBy s y) :
    ItemsExtended s xs (xs.set i y) := by
  intro j z hz
  by_cases hij : i = j
  · subst hij
    rw [hx] at hz
    cases hz
    exact ⟨y, List.getElem?_set_self (List.getElem?_eq_some_iff.1 hx).1, h⟩
  · exact ⟨z, by rw [List.getElem?_set_ne hij, hz], .refl z⟩

/-- A value is extended under its key. -/
theorem entriesExtended_replace (hx : Entries.get? key es = some x) (h : x.ExtendedBy s y) :
    EntriesExtended s es (Entries.replace key y es) := by
  intro other z hz
  by_cases ho : other = key
  · subst ho
    rw [hx] at hz
    cases hz
    exact ⟨y, Entries.get?_replace_self y hx, h⟩
  · exact ⟨z, by rw [Entries.get?_replace_of_ne ho, hz], .refl z⟩

/-- A new entry extends a map. -/
theorem of_insert (hnone : Entries.get? key es = none) :
    (Value.map kind a b es).ExtendedBy s (.map kind a b (Entries.insert kind key x es)) := by
  refine of_entries (fun hkind => Entries.prefix_map_fst_insert hkind key x es) fun other z hz => ?_
  have ho : other ≠ key := by
    rintro rfl
    rw [hnone] at hz
    cases hz
  exact ⟨z, by rw [Entries.get?_insert, if_neg ho, hz], .refl z⟩

/-! ## Extensions one after the other -/

/-- Extensions compose if the last value is typed: what a null was filled with may be extended
again, and is of the type of the null then. -/
theorem trans (h : u.ExtendedBy s v) :
    ∀ {w : Value} {t : Ty}, v.ExtendedBy s w → HasType s w t → u.ExtendedBy s w := by
  induction h with
  | refl => intro w t h' _; exact h'
  | absent h =>
    intro w t h' hw
    exact .absent (hw.self.of_typeOf (h'.typeOf_eq.trans h.typeOf_eq))
  | present h ih =>
    intro w t h' hw
    cases h' with
    | refl => exact .present h
    | present h' =>
      cases hw with
      | present hw => exact .present (ih h' hw)
  | seq hlen h ih =>
    intro w t h' hw
    obtain ⟨zs, rfl, hzs⟩ := h'.items
    refine of_items fun i x hx => ?_
    obtain ⟨y, hy⟩ := exists_getElem?_of_length_le hlen hx
    obtain ⟨z, hz, hyz⟩ := hzs i y hy
    exact ⟨z, hz, ih i x y hx hy hyz (hw.items z (List.mem_of_getElem? hz))⟩
  | map hkeys horder h ih =>
    intro w t h' hw
    obtain ⟨es'', rfl, horder', hes''⟩ := h'.entries
    refine of_entries (fun hkind => (horder hkind).trans (horder' hkind)) fun key x hx => ?_
    obtain ⟨y, hy⟩ := hkeys key x hx
    obtain ⟨z, hz, hyz⟩ := hes'' key y hy
    exact ⟨z, hz, ih key x y hx hy hyz (hw.value_of_get? hz)⟩
  | record hlen h ih =>
    intro w t h' hw
    obtain ⟨zs, rfl, hlen', hzs⟩ := h'.slots
    refine of_slots (hlen'.trans hlen) fun i x hx => ?_
    obtain ⟨y, hy⟩ := exists_getElem?_of_length_le (Nat.le_of_eq hlen.symm) hx
    obtain ⟨z, hz, hyz⟩ := hzs i y hy
    obtain ⟨u, hu⟩ := hw.exists_slotType hz
    exact ⟨z, hz, ih i x y hx hy hyz hu⟩

end Value.ExtendedBy

/-! ## Steps -/

namespace Step

variable {s : Schema} {t : Ty} {st : Step} {v w x : Value} {p q : Place v}

/-- What stands in a slot may be replaced by what extends it. -/
theorem LeadsInto.extendedBy_slotPlace (hinto : st.LeadsInto v)
    (hq : st.slotPlace v = .ok (.place v q)) (h : q.value.ExtendedBy s w) :
    v.ExtendedBy s (q.fill w) := by
  cases hinto with
  | field =>
    obtain ⟨hx, hfill⟩ := Value.atSlot?_record (Offer.of_eq_place (Except.ok.inj hq))
    rw [hfill]
    exact .of_slots List.length_set (Value.ExtendedBy.itemsExtended_set hx h)
  | item =>
    obtain ⟨hx, hfill⟩ := Value.atIndex?_seq (Offer.of_eq_place (Except.ok.inj hq))
    rw [hfill]
    exact .of_items (Value.ExtendedBy.itemsExtended_set hx h)
  | entry =>
    obtain ⟨hx, hfill⟩ := Value.atKey?_map (Offer.of_eq_place (Except.ok.inj hq))
    rw [hfill]
    exact .of_entries (fun _ => Entries.prefix_map_fst_replace _ w _)
      (Value.ExtendedBy.entriesExtended_replace hx h)

/-- What is read behind a step may be replaced by what extends it. -/
theorem LeadsInto.extendedBy_place (hinto : st.LeadsInto v) (hp : st.place v = .ok (.place v p))
    (h : p.value.ExtendedBy s w) : v.ExtendedBy s (p.fill w) := by
  obtain ⟨q, hq, hinner⟩ := slotPlace_of_place hp
  obtain ⟨hval, hfill⟩ := Place.inner?_eq_some hinner
  rw [hfill]
  exact hinto.extendedBy_slotPlace hq (.rewrap hval h)

/-- What a step reads is read in an extension, or what extends it. -/
theorem LeadsInto.read_extendedBy (hinto : st.LeadsInto v) (h : v.ExtendedBy s w)
    (hx : st.read v = .ok (some x)) : ∃ y, st.read w = .ok (some y) ∧ x.ExtendedBy s y := by
  obtain ⟨c, hc, hval⟩ := slot_of_read hx
  suffices hslot : ∃ c', st.slot w = .ok (some c') ∧ c.ExtendedBy s c' by
    obtain ⟨c', hc', hext⟩ := hslot
    obtain ⟨y, hy, hxy⟩ := hext.exists_unwrapped hval
    exact ⟨y, by rw [read_of_slot hc']; exact congrArg Except.ok hy, hxy⟩
  cases hinto with
  | field =>
    obtain ⟨ys, rfl, -, hys⟩ := h.slots
    simp only [slot, Member.read, Value.map_value_atSlot?, Except.ok.injEq] at hc ⊢
    exact hys _ c hc
  | item =>
    obtain ⟨ys, rfl, hys⟩ := h.items
    simp only [slot, Except.ok.injEq] at hc ⊢
    exact hys _ c hc
  | entry =>
    obtain ⟨es', rfl, -, hes'⟩ := h.entries
    simp only [slot, Except.ok.injEq] at hc ⊢
    exact hes' _ c hc

/-- What is stored in a list behind its end extends it. -/
theorem extendedBy_writeItem {k : SeqKind} {item : Ty} {items : List Value} {i : Nat}
    (hnone : items[i]? = none) :
    (Value.seq k item items).ExtendedBy s (.seq k item (st.writeItem s item items i x).1) := by
  cases hw : st.writeItem s item items i x with
  | mk ys r =>
    obtain ⟨-, hlt, -⟩ | ⟨zs, -, ⟨-, -, rfl⟩ | ⟨-, rfl⟩⟩ := writeItem_spec hw
    · rw [List.getElem?_eq_getElem hlt] at hnone
      cases hnone
    · rw [List.append_assoc]
      exact .of_longer (List.prefix_append _ _)
    · exact .of_longer (List.prefix_append _ _)

/-- What is stored where there is no slot yet extends the value. -/
theorem LeadsInto.extendedBy_store (hinto : st.LeadsInto v)
    (hnone : st.slotPlace v = .ok (.nothing v)) : v.ExtendedBy s (st.store s v x).value := by
  cases hinto with
  | @field f path xs =>
    have hslot : (Value.record path xs).atSlot? f.slot = none :=
      Offer.of_eq_nothing (Except.ok.inj hnone)
    simp only [store, Member.write, hslot]
    exact .refl _
  | @item i k item o items =>
    have hget : items[i]? = none := by
      rw [← Value.map_value_atIndex? i k item, Offer.of_eq_nothing (Except.ok.inj hnone)]
      rfl
    simp only [store]
    split
    · exact extendedBy_writeItem hget
    · simp only [writeArrayItem, hget]
      exact .refl _
  | @entry key label k a b o es hkey =>
    have hget : Entries.get? key es = none := by
      rw [← Value.map_value_atKey? key k a b, Offer.of_eq_nothing (Except.ok.inj hnone)]
      rfl
    simp only [store]
    split
    · exact .of_insert hget
    · exact .refl _

/-- What is stored where null is read extends the value. -/
theorem extendedBy_store (hs : s.Typed) (hfields : s.OnlyFields t) (hst : st.Fits s t)
    (hv : HasType s v t) (hp : st.place v = .ok (.nothing v)) (hx : HasType s x st.type) :
    v.ExtendedBy s (st.store s v x).value := by
  have hinto := leadsInto hfields hst hv
  obtain ⟨o, hslot, -⟩ := hinto.slot_eq_slotPlace
  cases o with
  | none => exact hinto.extendedBy_store hslot
  | some q =>
    have hinner : q.inner? = none := by
      rw [place, hslot] at hp
      exact Offer.of_eq_nothing (Except.ok.inj hp)
    have hnull : q.value.unwrapped = none := by
      rw [← q.map_value_inner?, hinner]
      rfl
    have hqtype := (typed_slotPlace hs hst hv hslot).value
    rw [hinto.store_eq_done s hslot hqtype.typeOf_eq hx.typeOf_eq]
    exact hinto.extendedBy_slotPlace hslot (.of_null hqtype hnull hx)

end Step

/-! ## Walks -/

namespace Evaluator

variable {ev : Evaluator} {payload : Payload} {a b : Atom} {rest : List Atom} {st : Step} {s : Step}
  {v w x root : Value} {t : Ty} {f : Fault}

section Fields

variable (hev : ev.Typed) (hfields : ev.schema.OnlyFields t) (hst : st.Fits ev.schema t)
  (hv : HasType ev.schema v t)

include hev hfields hst hv

/-- What is created was null. -/
theorem extendedBy_fillIn : v.ExtendedBy ev.schema (ev.fillIn st b v).value := by
  have hleaves := (Step.leadsInto hfields hst hv).leavesValue
  unfold fillIn
  split
  · exact .refl v
  · next w p hp =>
    obtain rfl : w = v := hleaves v _ hp
    exact .refl w
  · next w hp =>
    obtain rfl : w = v := hleaves v _ hp
    split
    · exact .refl w
    · next x hx =>
      have hxtype := (Step.hasType_create hev.schema hx).self
      rw [Written.after, Step.write]
      split
      · next y hy =>
        refine Step.extendedBy_store hev.schema hfields hst hv hp
          (hasType_prepare (fun z hz => ?_) hy)
        cases hz
        exact hxtype
      · exact .refl w

/-- What is made longer keeps its items. -/
theorem extendedBy_lengthen : v.ExtendedBy ev.schema (ev.lengthen st b v).value := by
  have hinto := Step.leadsInto hfields hst hv
  obtain h | ⟨f, h⟩ | ⟨p, left, longer, n, hp, hout, h⟩ := lengthen_cases hev hinto hst hv b
  · rw [h]; exact .refl v
  · rw [h]; exact .refl v
  · rw [h]
    exact hinto.extendedBy_place hp (.of_grownTo hout.grownTo)

theorem extendedBy_approach : v.ExtendedBy ev.schema (ev.approach st b v).value := by
  unfold approach
  cases hfill : (ev.fillIn st b v).result with
  | error f =>
    rw [(Written.andThen_of_error hfill).1]
    exact extendedBy_fillIn hev hfields hst hv
  | ok =>
    rw [(Written.andThen_of_ok hfill).1]
    have hv' := hasType_fillIn (b := b) hev hst hv
    exact (extendedBy_fillIn hev hfields hst hv).trans
      (extendedBy_lengthen hev hfields hst hv') (hasType_lengthen hev hst hv')

end Fields

/-- A walk that fails leaves a value that extends the one it began with: by induction on the path,
since what was put in a place extends what stood there. -/
theorem extendedBy_write (hev : ev.Typed) (hpay : payload.Typed ev.schema) {atoms : List Atom} :
    ∀ {v : Value} {t : Ty} {site : Site} {f : Fault}, ev.schema.OnlyFields t →
      HasType ev.schema v t → site.Fits ev.schema t →
      (ev.write payload v site atoms).result = .error f →
        v.ExtendedBy ev.schema (ev.write payload v site atoms).value := by
  induction atoms with
  | nil => intro v t site f _ _ _ _; rw [write]; exact .refl v
  | cons a rest ih =>
    intro v t site f hfields hv hsite h
    cases hres : ev.resolve site a with
    | error g => rw [write_error hres]; exact .refl v
    | ok r =>
      cases r with
      | site next => exact absurd hres (not_site_of_resolve hev hfields hsite)
      | step st =>
        have hst := fits_step hev hsite hres
        cases rest with
        | nil =>
          rw [write_last hres] at h ⊢
          rw [deliver_value_of_error h]
          exact .refl v
        | cons b rest =>
          have hafter := hasType_write hev hpay (a :: b :: rest) hv hsite
          have happroach := extendedBy_approach (b := b) hev hfields hst hv
          have hv' := hasType_approach (b := b) hev hst hv
          rw [write_step hres] at h hafter ⊢
          cases ha : (ev.approach st b v).result with
          | error g => rw [(Written.andThen_of_error ha).1]; exact happroach
          | ok =>
            rw [(Written.andThen_of_ok ha).2] at h
            rw [(Written.andThen_of_ok ha).1] at hafter ⊢
            refine happroach.trans ?_ hafter
            have hinto := Step.leadsInto hfields hst hv'
            unfold descend at h ⊢
            split
            · exact .refl _
            · next w hp =>
              obtain rfl : w = (ev.approach st b v).value := hinto.leavesValue _ _ hp
              exact .refl _
            · next w p hp =>
              obtain rfl : w = (ev.approach st b v).value := hinto.leavesValue _ _ hp
              simp only [hp] at h
              obtain ⟨hptype, hsite'⟩ := fits_place hev hst hv' hp
              exact hinto.extendedBy_place hp
                (ih (hfields.below hst) hptype hsite' h)

/-- What is read along a path is read in an extension, or what extends it. -/
theorem read_extendedBy (hev : ev.Typed) {atoms : List Atom} :
    ∀ {v w : Value} {t : Ty} {site : Site}, ev.schema.OnlyFields t → HasType ev.schema v t →
      site.Fits ev.schema t → v.ExtendedBy ev.schema w →
      ev.read v site atoms = .ok (.found x s) →
        ∃ y, ev.read w site atoms = .ok (.found y s) ∧ x.ExtendedBy ev.schema y := by
  induction atoms with
  | nil => intro v w t site _ _ _ _ h; rw [read] at h; cases h
  | cons a rest ih =>
    intro v w t site hfields hv hsite hext h
    cases hres : ev.resolve site a with
    | error g => rw [read_error hres] at h; cases h
    | ok r =>
      cases r with
      | site next => exact absurd hres (not_site_of_resolve hev hfields hsite)
      | step st =>
        have hst := fits_step hev hsite hres
        obtain ⟨y, hy⟩ := read_of_found hres h
        obtain ⟨z, hz, hyz⟩ := (Step.leadsInto hfields hst hv).read_extendedBy hext hy
        cases rest with
        | nil =>
          rw [read_last hres hy] at h
          cases h
          exact ⟨z, read_last hres hz, hyz⟩
        | cons b rest =>
          have hytype := Step.hasType_read hev.schema hst hv hy
          rw [read_step hres hy, hytype.typeOf_eq] at h
          rw [read_step hres hz, hyz.typeOf_eq, hytype.typeOf_eq]
          exact ih (hfields.below hst) hytype (fits_below hst _) hyz h

/-! ## Expressions -/

/-- A write that fails where there are only fields leaves a root that extends the one before, and
every leaf that could be read is read still. -/
theorem set_extendedBy (hev : ev.Typed) (hfields : ev.schema.OnlyFields root.typeOf)
    (hpay : payload.Typed ev.schema) (hroot : HasType ev.schema root root.typeOf) {source : String}
    (h : (ev.set source payload root).result = .error f) :
    root.ExtendedBy ev.schema (ev.set source payload root).value ∧
      ∀ other l, ev.get other root = .ok (some (.leaf l)) →
        ev.get other (ev.set source payload root).value = .ok (some (.leaf l)) := by
  have hext : root.ExtendedBy ev.schema (ev.set source payload root).value := by
    cases hparse : parse source with
    | error g => rw [set_of_parse_error hparse]; exact .refl root
    | ok atoms =>
      obtain ⟨hvalue, hresult⟩ := set_of_parse hparse ev payload root
      rw [hresult] at h
      rw [hvalue]
      exact extendedBy_write hev hpay hfields hroot (fits_start root) h
  refine ⟨hext, fun other l hl => ?_⟩
  cases hother : parse other with
  | error g => simp [get, reading, hother, blame, bind, Except.bind] at hl
  | ok others =>
    obtain ⟨s, hread⟩ := read_of_get hother hl
    obtain ⟨y, hy, hly⟩ := read_extendedBy hev hfields hroot (fits_start root) hext hread
    obtain rfl := hly.eq_leaf
    refine get_eq (s := s) hother ?_
    rw [start, hext.typeOf_eq]
    exact hy

set_option maxRecDepth 10000 in
/-- A text is no quantity of a line, and that is found out when a second line is there. -/
theorem set_extendedBy_stocked :
    Crate.evaluator.Typed ∧ Crate.evaluator.schema.OnlyFields Crate.stocked.typeOf ∧
      (Payload.value (some (.text "many"))).Typed Crate.evaluator.schema ∧
      HasType Crate.evaluator.schema Crate.stocked Crate.stocked.typeOf ∧
      (Crate.evaluator.set "lines[1].qty" (.value (some (.text "many"))) Crate.stocked).result =
        .error (.typeMismatch "qty" (.int .u32) (.value .text)) ∧
      Crate.stocked.ExtendedBy Crate.evaluator.schema (Crate.evaluator.set "lines[1].qty"
        (.value (some (.text "many"))) Crate.stocked).value ∧
      ∀ other l, Crate.evaluator.get other Crate.stocked = .ok (some (.leaf l)) →
        Crate.evaluator.get other (Crate.evaluator.set "lines[1].qty"
          (.value (some (.text "many"))) Crate.stocked).value = .ok (some (.leaf l)) := by
  have htyped : Crate.evaluator.Typed := typed_of_isPlain Crate.isPlain
  have hfields := Schema.OnlyFields.of_isPlain Crate.isPlain Crate.stocked.typeOf
  have hpay : (Payload.value (some (.text "many"))).Typed Crate.evaluator.schema :=
    .of_checks _ _ (by decide)
  have hfails : (Crate.evaluator.set "lines[1].qty" (.value (some (.text "many")))
      Crate.stocked).result = .error (.typeMismatch "qty" (.int .u32) (.value .text)) := rfl
  exact ⟨htyped, hfields, hpay, Crate.hasType_stocked, hfails,
    set_extendedBy htyped hfields hpay Crate.hasType_stocked hfails⟩

end Evaluator

end ObjectPath
