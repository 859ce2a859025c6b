import ObjectPath.Proofs.Slots

/-!
# Items behind the end of a sequence

A write at an index behind the end of a list creates the missing item and appends it behind default
ones.  An array is filled up with default items before the write comes to the index, so the item is
a default one there.  Both leave the same items: what is created in place of a missing item is what
a default item is made ready to (`Evaluator.created_iff`).

So a write at an index leaves the items padded with default ones (`paddedTo`), and at the index what
is left of the item that was there, or of a default one (`Evaluator.write_item_iff`).
-/

namespace ObjectPath

/-! ## Lists that are filled up -/

/-- The items with default ones behind them, so that there is one at the index `i`. -/
def paddedTo (items : List Value) (i : Nat) (d : Value) : List Value :=
  items ++ List.replicate (i + 1 - items.length) d

section Padding

variable {items : List Value} {i j : Nat} {d x : Value}

theorem length_paddedTo (items : List Value) (i : Nat) (d : Value) :
    (paddedTo items i d).length = max items.length (i + 1) := by
  rw [paddedTo, List.length_append, List.length_replicate]
  omega

theorem paddedTo_of_lt (h : i < items.length) (d : Value) : paddedTo items i d = items := by
  have hnone : i + 1 - items.length = 0 := by omega
  rw [paddedTo, hnone, List.replicate_zero, List.append_nil]

theorem getElem?_paddedTo_of_lt (h : j < items.length) (i : Nat) (d : Value) :
    (paddedTo items i d)[j]? = items[j]? :=
  List.getElem?_append_left h

theorem getElem?_paddedTo_of_le (h : items.length ≤ j) (hj : j ≤ i) (d : Value) :
    (paddedTo items i d)[j]? = some d := by
  have hlt : j - items.length < i + 1 - items.length := by omega
  rw [paddedTo, List.getElem?_append_right h, List.getElem?_replicate, if_pos hlt]

/-- At the index stands the item that was there, or a default one. -/
theorem getElem?_paddedTo_self (items : List Value) (i : Nat) (d : Value) :
    (paddedTo items i d)[i]? = some (items[i]?.getD d) := by
  by_cases h : i < items.length
  · rw [getElem?_paddedTo_of_lt h, List.getElem?_eq_getElem h]
    rfl
  · have hle : items.length ≤ i := Nat.le_of_not_lt h
    rw [getElem?_paddedTo_of_le hle (Nat.le_refl i), List.getElem?_eq_none hle]
    rfl

theorem paddedTo_paddedTo (items : List Value) (i : Nat) (d : Value) :
    paddedTo (paddedTo items i d) i d = paddedTo items i d := by
  refine paddedTo_of_lt ?_ d
  rw [length_paddedTo]
  omega

/-- Appending default items and then one more is replacing the last one of a padded list. -/
theorem paddedTo_set_of_le (h : items.length ≤ i) (d x : Value) :
    (paddedTo items i d).set i x = items ++ List.replicate (i - items.length) d ++ [x] := by
  have hcount : i + 1 - items.length = i - items.length + 1 := by omega
  have hlength : (items ++ List.replicate (i - items.length) d).length = i := by
    rw [List.length_append, List.length_replicate]
    omega
  rw [paddedTo, hcount, List.replicate_succ', ← List.append_assoc,
    List.set_append_right _ _ (Nat.le_of_eq hlength), hlength, Nat.sub_self]
  rfl

end Padding

/-- The items `ys` are those of `items` with `new` at the index `i`, and default items before it
where there were none. -/
structure Grown (items : List Value) (i : Nat) (d new : Value) (ys : List Value) : Prop where
  length : ys.length = max items.length (i + 1)
  kept : ∀ j, j < items.length → j ≠ i → ys[j]? = items[j]?
  padded : ∀ j, items.length ≤ j → j < i → ys[j]? = some d
  written : ys[i]? = some new

theorem grown_set (items : List Value) (i : Nat) (d new : Value) :
    Grown items i d new ((paddedTo items i d).set i new) where
  length := by rw [List.length_set, length_paddedTo]
  kept j hj hne := by rw [List.getElem?_set_ne hne.symm, getElem?_paddedTo_of_lt hj]
  padded j hle hj := by
    rw [List.getElem?_set_ne (Nat.ne_of_gt hj), getElem?_paddedTo_of_le hle (Nat.le_of_lt hj)]
  written := by
    refine List.getElem?_set_self ?_
    rw [length_paddedTo]
    omega

/-! ## Created sequences -/

namespace Step

variable {s : Schema} {st : Step} {b : Atom} {item : Ty} {d x : Value}

/-- What is created in place of what is no array is the default value. -/
theorem create_eq_ok_iff (h : ∀ e, st.type.declared ≠ .seq .boxed e) :
    st.create s b = .ok x ↔ s.default? st.type.declared = some x := by
  simp only [create]
  split
  · next k e hd =>
    have hk : k.growable = true := by
      cases k with
      | vec | deque => rfl
      | boxed => exact absurd hd (h e)
    rw [if_pos hk, hd]
    cases s.default? (.seq k e) <;> simp
  · cases s.default? st.type.declared <;> simp

/-- A created list is empty. -/
theorem create_list_iff {k : SeqKind} (hk : k.growable = true)
    (h : st.type.declared = .seq k item) : st.create s b = .ok x ↔ x = .seq k item [] := by
  have hne : ∀ e, st.type.declared ≠ .seq .boxed e := by
    intro e he
    rw [h] at he
    cases he
    cases hk
  rw [create_eq_ok_iff hne, h]
  exact Option.some_inj.trans eq_comm

/-- A created array has the length that the next atom needs. -/
theorem create_array_iff (hs : s.Typed) (h : st.type.declared = .seq .boxed item) :
    st.create s b = .ok x ↔ ∃ i d, b.index? = some i ∧ i + 1 < UInt64.size ∧
      s.default? item = some d ∧ x = .seq .boxed item (List.replicate (i + 1) d) := by
  have hcollect : ∀ {d : Value} (n : Nat), s.default? item = some d →
      Value.collect .boxed item (List.replicate n d) =
        .ok (.seq .boxed item (List.replicate n d)) := by
    intro d n hd
    refine Value.collect_of_typeOf (fun z hz => ?_) .boxed
    rw [List.eq_of_mem_replicate hz, (hasType_default hs hd).typeOf_eq]
  simp only [create, h, SeqKind.growable, Bool.false_eq_true, if_false]
  constructor
  · intro hx
    split at hx
    · cases hx
    · next i hi =>
      by_cases hbound : i + 1 < UInt64.size
      · simp only [requiredLength, if_pos hbound] at hx
        split at hx
        · cases hx
        · next d hd =>
          rw [hcollect _ hd] at hx
          cases hx
          exact ⟨i, d, hi, hbound, hd, rfl⟩
      · simp only [requiredLength, if_neg hbound] at hx
        cases hx
  · rintro ⟨i, d, hi, hbound, hd, rfl⟩
    simp only [hi, requiredLength, if_pos hbound, hd, hcollect _ hd]

/-- A value is stored behind the end of a growable sequence, with default items before it. -/
theorem store_behind {k : SeqKind} {items : List Value} {i : Nat} {o : Option Member}
    (hk : k.growable = true) (hshort : items.length ≤ i) (hbound : i + 1 < UInt64.size)
    (hd : s.default? item = some d) (hdtype : d.typeOf = item) (hx : x.typeOf = item) :
    (element i item o).store s (.seq k item items) x =
      .done (.seq k item ((paddedTo items i d).set i x)) := by
  have hnone : items[i]? = none := List.getElem?_eq_none hshort
  simp only [store, if_pos hk, writeItem, hnone, requiredLength, if_pos hbound,
    pad_of_default hd hdtype, Value.push, if_pos hx, paddedTo_set_of_le hshort]
  rfl

end Step

/-! ## Indices and items -/

theorem Beyond.of_length_le {b : Atom} {item : Ty} {items : List Value} {i : Nat}
    (hi : b.index? = some i) (h : Beyond b (.seq .boxed item items)) : items.length ≤ i := by
  obtain ⟨_, _, j, hseq, hj, hshort⟩ := h
  cases hseq
  rw [hi] at hj
  cases hj
  exact hshort

theorem not_beyond_replicate {b : Atom} {i : Nat} (hi : b.index? = some i) (item : Ty) (d : Value) :
    ¬ Beyond b (.seq .boxed item (List.replicate (i + 1) d)) := by
  intro h
  have hle := Beyond.of_length_le hi h
  rw [List.length_replicate] at hle
  omega

theorem not_beyond_of_growable {b : Atom} {k : SeqKind} (hk : k.growable = true) (item : Ty)
    (items : List Value) : ¬ Beyond b (.seq k item items) := by
  rintro ⟨_, _, _, hseq, -⟩
  cases hseq
  cases hk

theorem HasType.unwrapped_of_ne {s : Schema} {v : Value} {t : Ty} (h : HasType s v t)
    (ht : ∀ e, t ≠ .option e) : v.unwrapped = some v := by
  cases h with
  | absent t | present => exact absurd rfl (ht _)
  | leaf | seq | map | record => rfl

theorem Value.exists_atIndex? (k : SeqKind) (item : Ty) {items : List Value} {i : Nat} {x : Value}
    (h : items[i]? = some x) : ∃ q, (Value.seq k item items).atIndex? i = some q ∧ q.value = x ∧
      ∀ y, q.fill y = .seq k item (items.set i y) := by
  rw [← Value.map_value_atIndex? i k item] at h
  obtain ⟨q, hq, hx⟩ := Option.map_eq_some_iff.1 h
  exact ⟨q, hq, hx, (Value.atIndex?_seq hq).2⟩

theorem Ty.declared_eq_self {t : Ty} (h : ∀ e, t ≠ .option e) : t.declared = t := by
  cases t with
  | option e => exact absurd rfl (h e)
  | leaf | seq | map | record => rfl

/-- What is prepared from a value of the declared type shows that value. -/
theorem Ty.unwrapped_prepare_declared {t : Ty} {label : String} {x y : Value}
    (hx : x.typeOf = t.declared) (h : t.prepare label (some x) = .ok y) :
    y.unwrapped = some x := by
  cases t with
  | option e =>
    cases (Ty.prepare_inner label hx).symm.trans h
    rfl
  | leaf | seq | map | record =>
    cases (Ty.prepare_of_fit label (if_pos hx)).symm.trans h
    cases x with
    | absent | present => cases hx
    | leaf | seq | map | record => rfl

/-! ## Items that are created -/

/-- What was created in place of a missing item stands in its slot as `c`, and the next atom leads
into `u`. -/
inductive Created (s : Schema) (st : Step) (next : Atom) : Value → Value → Prop
  | mk {x c u : Value} (hx : st.create s next = .ok x)
      (hc : st.type.prepare st.label (some x) = .ok c) (hlong : Lengthened s next x u) :
      Created s st next c u

section Created

variable {s : Schema} {st : Step} {b : Atom} {e : Ty} {c d u z new : Value}

/-- A missing optional item is created like one that is null. -/
theorem created_option_iff (hs : s.Typed) (htype : st.type = .option e) :
    Created s st b c u ↔ Readied s st b (.absent e) c u := by
  constructor
  · intro h
    cases h with
    | mk hx hc hlong =>
      cases (Step.prepare_created hs htype hx).symm.trans hc
      exact ⟨.created hx, _, rfl, hlong⟩
  · intro h
    obtain ⟨w, hw, hlong⟩ := h.lengthened
    obtain ⟨x, hx, rfl⟩ := h.filled.of_null rfl
    cases hw
    exact .mk hx (Step.prepare_created hs htype hx) hlong

section NotOptional

variable (hs : s.Typed) (hd : s.default? st.type = some d) (hoption : ∀ e, st.type ≠ .option e)

include hs hd hoption

theorem readied_default_iff : Readied s st b d c u ↔ c = d ∧ Lengthened s b d u := by
  have hunwrapped := (hasType_default hs hd).unwrapped_of_ne hoption
  constructor
  · intro h
    obtain ⟨w, hw, hlong⟩ := h.lengthened
    obtain rfl := h.filled.eq_of_unwrapped hunwrapped
    cases hunwrapped.symm.trans hw
    exact ⟨rfl, hlong⟩
  · rintro ⟨rfl, hlong⟩
    exact ⟨.kept hunwrapped, c, hunwrapped, hlong⟩

omit hd in
theorem created_iff_of_create :
    Created s st b c u ↔ st.create s b = .ok c ∧ Lengthened s b c u := by
  have hprepare : ∀ {x : Value}, st.create s b = .ok x →
      st.type.prepare st.label (some x) = .ok x := by
    intro x hx
    have hxtype := (Step.hasType_create hs hx).typeOf_eq
    rw [Ty.declared_eq_self hoption] at hxtype
    exact Ty.prepare_of_fit st.label (if_pos hxtype)
  constructor
  · intro h
    cases h with
    | mk hx hc hlong =>
      cases (hprepare hx).symm.trans hc
      exact ⟨hx, hlong⟩
  · rintro ⟨hx, hlong⟩
    exact .mk hx (hprepare hx) hlong

/-- A missing item that is neither optional nor an array is created as the default one. -/
theorem created_other_iff (hboxed : ∀ e, st.type ≠ .seq .boxed e) :
    Created s st b c u ↔ Readied s st b d c u := by
  have hdeclared := Ty.declared_eq_self hoption
  have hcreate : st.create s b = .ok c ↔ c = d := by
    rw [Step.create_eq_ok_iff fun e he => hboxed e (hdeclared.symm.trans he), hdeclared, hd,
      Option.some.injEq, eq_comm]
  rw [created_iff_of_create hs hoption, readied_default_iff hs hd hoption, hcreate]
  refine and_congr_right fun hc => ?_
  rw [hc]

end NotOptional

/-- A missing array is created with the length that the next atom needs, and the default one, which
is empty, is made that long. -/
theorem created_array_iff (hs : s.Typed) (htype : st.type = .seq .boxed e)
    (hindex : u = .seq .boxed e [] → ∃ i, b.index? = some i) :
    (∃ c, Created s st b c u ∧ new = c.rewrap z) ↔
      ∃ c, Readied s st b (.seq .boxed e []) c u ∧ new = c.rewrap z := by
  have hoption : ∀ t, st.type ≠ .option t := by
    intro t ht
    rw [htype] at ht
    cases ht
  have hd : s.default? st.type = some (.seq .boxed e []) := by
    rw [htype]
    rfl
  have harray := (Ty.declared_eq_self hoption).trans htype
  simp only [created_iff_of_create hs hoption, readied_default_iff hs hd hoption,
    Step.create_array_iff hs harray]
  constructor
  · rintro ⟨c, ⟨⟨i, d, hi, hbound, hd, rfl⟩, hlong⟩, rfl⟩
    cases hlong with
    | kept => exact ⟨_, ⟨rfl, .longer (.mk hi (Nat.zero_le i) hbound hd)⟩, rfl⟩
    | longer hout => exact absurd hout.beyond (not_beyond_replicate hi e d)
  · rintro ⟨c, ⟨rfl, hlong⟩, rfl⟩
    cases hlong with
    | kept hnot =>
      obtain ⟨i, hi⟩ := hindex rfl
      exact absurd ⟨e, [], i, rfl, hi, Nat.zero_le i⟩ hnot
    | longer hout =>
      cases hout with
      | @mk _ _ i d hi _ hbound hd =>
        exact ⟨_, ⟨⟨i, d, hi, hbound, hd, rfl⟩, .kept (not_beyond_replicate hi e d)⟩, rfl⟩

end Created

namespace Evaluator

variable {ev : Evaluator} {payload : Payload} {site : Site} {a b : Atom} {rest : List Atom}
  {st : Step} {v u u' w z new d : Value} {t item : Ty} {o : Option Member} {items : List Value}
  {i : Nat} {k : SeqKind}

/-- Only an index leads into a sequence. -/
theorem exists_index_of_leaves (h : (ev.write payload (.seq k item items) (.value (.seq k item) o)
    (b :: rest)).Leaves w) : ∃ i, b.index? = some i := by
  cases hi : b.index? with
  | some i => exact ⟨i, rfl⟩
  | none =>
    have hres : ev.resolve (.value (.seq k item) o) b =
        .error (.malformedPath (.notAnIndex b)) := by
      simp only [resolve, hi]
    rw [write_error hres] at h
    exact absurd h (Written.not_leaves_of_error rfl)

section Item

variable (hev : ev.Typed) (hd : ev.schema.default? item = some d)

include hev

/-- What was created behind the end of a sequence stands in its slot, and a write goes on there. -/
theorem descend_created_leaves_iff (hitems : ∀ x ∈ items, HasType ev.schema x item)
    (ho : ∀ m, o = some m → m.Known ev.schema) {x y : Value}
    (hx : (Step.element i item o).create ev.schema b = .ok x)
    (hy : item.prepare (Step.element i item o).label (some x) = .ok y)
    (hfilled : (ev.fillIn (.element i item o) b (.seq k item items)).Leaves
      (.seq k item ((paddedTo items i d).set i y))) :
    (∃ v', (ev.lengthen (.element i item o) b
          (.seq k item ((paddedTo items i d).set i y))).Leaves v' ∧
        (ev.descend payload (.element i item o) (b :: rest) v').Leaves w) ↔
      ∃ u' z, Lengthened ev.schema b x u' ∧
        (ev.write payload u' (.value u'.typeOf o) (b :: rest)).Leaves z ∧
        w = .seq k item ((paddedTo items i d).set i (y.rewrap z)) := by
  have hst : (Step.element i item o).Fits ev.schema (.seq k item) := .element ho
  have hv := hasType_fillIn (b := b) hev hst (.seq hitems)
  rw [hfilled.value] at hv
  obtain ⟨q, hq, hvalue, hfill⟩ := Value.exists_atIndex? k item (grown_set items i d y).written
  have hyx : q.value.unwrapped = some x := by
    rw [hvalue]
    exact Ty.unwrapped_prepare_declared (Step.hasType_create hev.schema hx).typeOf_eq hy
  rw [lengthen_descend_leaves_iff hev .item hst hv (congrArg (Except.ok <| Offer.of ·) hq) hyx,
    hvalue]
  simp only [hfill, List.set_set]
  rfl

include hd

/-- In a sequence a missing item that is created is what a default item is made ready to. -/
theorem created_iff (st : Step) (htype : st.type = item)
    (hz : (ev.write payload u (.value u.typeOf st.origin) (b :: rest)).Leaves z) :
    (∃ c, Created ev.schema st b c u ∧ new = c.rewrap z) ↔
      ∃ c, Readied ev.schema st b d c u ∧ new = c.rewrap z := by
  subst htype
  by_cases hoption : ∃ e, st.type = .option e
  · obtain ⟨e, he⟩ := hoption
    rw [he] at hd
    cases hd
    simp only [created_option_iff hev.schema he]
  · by_cases hboxed : ∃ e, st.type = .seq .boxed e
    · obtain ⟨e, he⟩ := hboxed
      rw [he] at hd
      cases hd
      refine created_array_iff hev.schema he fun hu => ?_
      rw [hu] at hz
      exact exists_index_of_leaves hz
    · simp only [created_other_iff hev.schema hd (fun e he => hoption ⟨e, he⟩)
        (fun e he => hboxed ⟨e, he⟩)]

section Items

variable (hitems : ∀ x ∈ items, HasType ev.schema x item)
  (ho : ∀ m, o = some m → m.Known ev.schema) (hi : b.index? = some i)

include hitems ho hi

/-- A write behind the end of a growable sequence leaves default items before the index, and there
what a write in a default item leaves. -/
theorem write_behind_iff (hk : k.growable = true) (hshort : items.length ≤ i)
    (hbound : i + 1 < UInt64.size) :
    (ev.write payload (.seq k item items) (.value (.seq k item) o) (b :: rest)).Leaves w ↔
      ∃ new, ev.SlotWritten payload (.element i item o) rest d new ∧
        w = .seq k item ((paddedTo items i d).set i new) := by
  have hres := ev.resolve_item hi k item o
  have hdtype := (hasType_default hev.schema hd).typeOf_eq
  have hstore : ∀ x : Value, x.typeOf = (Step.element i item o).type →
      (Step.element i item o).store ev.schema (.seq k item items) x =
        .done (.seq k item ((paddedTo items i d).set i x)) :=
    fun x hx => Step.store_behind hk hshort hbound hd hdtype hx
  cases rest with
  | nil =>
    rw [write_last hres]
    exact deliver_leaves_iff hstore d
  | cons c rest =>
    have hfill : ∀ {v' : Value}, (ev.fillIn (.element i item o) c (.seq k item items)).Leaves v' ↔
        ∃ x y, (Step.element i item o).create ev.schema c = .ok x ∧
          item.prepare (Step.element i item o).label (some x) = .ok y ∧
          v' = .seq k item ((paddedTo items i d).set i y) :=
      fillIn_missing_leaves_iff hstore (Step.place_item_of_le hshort k item o)
    rw [write_step hres, Written.leaves_andThen]
    simp only [approach, Written.leaves_andThen]
    constructor
    · rintro ⟨v', ⟨v'', hfilled, hlengthen⟩, hdescend⟩
      obtain ⟨x, y, hx, hy, rfl⟩ := hfill.1 hfilled
      obtain ⟨u, z, hlong, hz, rfl⟩ :=
        (descend_created_leaves_iff hev hitems ho hx hy hfilled).1 ⟨v', hlengthen, hdescend⟩
      obtain ⟨y', hready, hnew⟩ :=
        (created_iff hev hd (.element i item o) rfl hz).1 ⟨y, .mk hx hy hlong, rfl⟩
      refine ⟨y.rewrap z, ?_, rfl⟩
      rw [hnew]
      exact .within hready hz
    · rintro ⟨new, hwritten, rfl⟩
      cases hwritten with
      | @within _ _ _ y' u z hready hz =>
        obtain ⟨y, hcreated, hnew⟩ :=
          (created_iff hev hd (.element i item o) rfl hz).2 ⟨y', hready, rfl⟩
        rw [hnew]
        cases hcreated with
        | mk hx hy hlong =>
          have hfilled := hfill.2 ⟨_, y, hx, hy, rfl⟩
          obtain ⟨v', hlengthen, hdescend⟩ :=
            (descend_created_leaves_iff hev hitems ho hx hy hfilled).2 ⟨u, z, hlong, hz, rfl⟩
          exact ⟨v', ⟨_, hfilled, hlengthen⟩, hdescend⟩

/-- A write at an index that a sequence has or can get leaves default items where there were none
before the index, and there what a write in the item leaves, or in a default one. -/
theorem write_item_iff (hopen : i < items.length ∨ k.growable = true ∧ i + 1 < UInt64.size) :
    (ev.write payload (.seq k item items) (.value (.seq k item) o) (b :: rest)).Leaves w ↔
      ∃ new, ev.SlotWritten payload (.element i item o) rest (items[i]?.getD d) new ∧
        w = .seq k item ((paddedTo items i d).set i new) := by
  by_cases hlt : i < items.length
  · obtain ⟨q, hq, hvalue, hfill⟩ :=
      Value.exists_atIndex? k item (List.getElem?_eq_getElem hlt)
    rw [write_slot_iff hev .item (.element ho) (.seq hitems) (congrArg (Except.ok <| Offer.of ·) hq)
      (ev.resolve_item hi k item o), hvalue, List.getElem?_eq_getElem hlt, paddedTo_of_lt hlt]
    simp only [hfill]
    rfl
  · have hshort : items.length ≤ i := Nat.le_of_not_lt hlt
    obtain ⟨hk, hbound⟩ := hopen.resolve_left hlt
    rw [List.getElem?_eq_none hshort]
    exact write_behind_iff hev hd hitems ho hi hk hshort hbound

end Items

end Item

end Evaluator

end ObjectPath
