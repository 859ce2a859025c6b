import ObjectPath.Proofs.Padding

/-!
# Slots that hold a sequence

A slot holds a sequence, or is null.  A list is filled up when an item is stored behind its end, an
array one step earlier, when the slot that holds it is approached; a null array is created long
enough.  Nothing of this can be told from the items that are left in the slot:
`Evaluator.write_holder_iff` is one equivalence for all kinds of sequences.

At the last index a write is refused (`Evaluator.write_holder_full`).
-/

namespace ObjectPath

/-! ## Slots that hold a sequence -/

/-- A slot holds some items as a sequence of a kind, or it is null and there are none. -/
inductive Value.Holds (k : SeqKind) (item : Ty) : List Value → Value → Prop
  | plain (items : List Value) : Holds k item items (.seq k item items)
  | present (items : List Value) : Holds k item items (.present (.seq k item items))
  | null : Holds k item [] (.absent (.seq k item))

/-- The content of a slot with another value in it, behind the optional layer if there is one. -/
def Value.holding : Value → Value → Value
  | absent _, v | present _, v => present v
  | _, v => v

/-- The items that a write at an index leads into: those of an array are filled up before. -/
def SeqKind.readied (k : SeqKind) (items : List Value) (i : Nat) (d : Value) : List Value :=
  if k.growable then items else paddedTo items i d

section Sequences

variable {s : Schema} {st : Step} {b : Atom} {k : SeqKind} {item t : Ty} {items : List Value}
  {i : Nat} {c d x u' z new : Value}

theorem SeqKind.eq_boxed_of_not_growable (h : ¬ k.growable = true) : k = .boxed := by
  cases k with
  | vec | deque => exact absurd rfl h
  | boxed => rfl

/-- When the items are ready, there is an item at the index or one can be appended. -/
theorem SeqKind.readied_open (k : SeqKind) (items : List Value) (d : Value)
    (hbound : i + 1 < UInt64.size) :
    i < (k.readied items i d).length ∨ k.growable = true ∧ i + 1 < UInt64.size := by
  by_cases hk : k.growable = true
  · exact .inr ⟨hk, hbound⟩
  · left
    rw [readied, if_neg hk, length_paddedTo]
    omega

theorem SeqKind.paddedTo_readied (k : SeqKind) (items : List Value) (i : Nat) (d : Value) :
    paddedTo (k.readied items i d) i d = paddedTo items i d := by
  unfold readied
  split
  · rfl
  · exact paddedTo_paddedTo items i d

theorem SeqKind.getD_readied (k : SeqKind) (items : List Value) (i : Nat) (d : Value) :
    (k.readied items i d)[i]?.getD d = items[i]?.getD d := by
  unfold readied
  split
  · rfl
  · rw [getElem?_paddedTo_self]
    rfl

theorem SeqKind.readied_readied (k : SeqKind) (items : List Value) (i : Nat) (d : Value) :
    k.readied (k.readied items i d) i d = k.readied items i d := by
  by_cases hk : k.growable = true
  · simp only [readied, if_pos hk]
  · simp only [readied, if_neg hk, paddedTo_paddedTo]

theorem SeqKind.mem_readied (hx : x ∈ k.readied items i d) : x ∈ items ∨ x = d := by
  unfold readied at hx
  split at hx
  · exact .inl hx
  · rcases List.mem_append.1 hx with hx | hx
    · exact .inl hx
    · exact .inr (List.eq_of_mem_replicate hx)

theorem Value.Holds.hasType_items (h : c.Holds k item items) (hc : HasType s c t) :
    ∀ x ∈ items, HasType s x item := by
  cases h with
  | plain => exact hc.items
  | present =>
    cases hc with
    | present hc => exact hc.items
  | null => exact fun x hx => absurd hx List.not_mem_nil

theorem Value.Holds.declared_eq (h : c.Holds k item items) (hc : HasType s c t) :
    t.declared = .seq k item := by
  rw [← hc.typeOf_eq]
  cases h <;> rfl

section Ready

variable (hi : b.index? = some i) (hbound : i + 1 < UInt64.size) (hd : s.default? item = some d)

include hi hbound hd

theorem lengthened_seq_iff :
    Lengthened s b (.seq k item items) u' ↔ u' = .seq k item (k.readied items i d) := by
  by_cases hk : k.growable = true
  · have hnot := @not_beyond_of_growable b k hk item items
    rw [SeqKind.readied, if_pos hk]
    constructor
    · intro h
      cases h with
      | kept => rfl
      | longer hout => exact absurd hout.beyond hnot
    · rintro rfl
      exact .kept hnot
  · obtain rfl := SeqKind.eq_boxed_of_not_growable hk
    rw [SeqKind.readied, if_neg hk]
    by_cases hlt : i < items.length
    · have hnot : ¬ Beyond b (.seq .boxed item items) :=
        fun hbeyond => Nat.not_le_of_lt hlt (Beyond.of_length_le hi hbeyond)
      rw [paddedTo_of_lt hlt]
      constructor
      · intro h
        cases h with
        | kept => rfl
        | longer hout => exact absurd hout.beyond hnot
      · rintro rfl
        exact .kept hnot
    · have hout := Outgrown.mk hi (Nat.le_of_not_lt hlt) hbound hd
      constructor
      · intro h
        cases h with
        | kept hnot => exact absurd hout.beyond hnot
        | longer hout' =>
          cases hout' with
          | mk hi' _ _ hd' =>
            rw [hi] at hi'
            rw [hd] at hd'
            cases hi'
            cases hd'
            rfl
      · rintro rfl
        exact .longer hout

/-- A created sequence has the items that a write at the index leads into. -/
theorem Step.create_seq_iff (hs : s.Typed) (h : st.type.declared = .seq k item) :
    st.create s b = .ok x ↔ x = .seq k item (k.readied [] i d) := by
  by_cases hk : k.growable = true
  · rw [create_list_iff hk h, SeqKind.readied, if_pos hk]
  · obtain rfl := SeqKind.eq_boxed_of_not_growable hk
    rw [create_array_iff hs h, SeqKind.readied, if_neg hk]
    constructor
    · rintro ⟨j, d', hj, -, hd', rfl⟩
      rw [hi] at hj
      rw [hd] at hd'
      cases hj
      cases hd'
      rfl
    · rintro rfl
      exact ⟨i, d, hi, hbound, hd, rfl⟩

/-- Made ready, a slot holds the items that a write at the index leads into. -/
theorem Value.Holds.readied_iff (hs : s.Typed) (h : c.Holds k item items)
    (hdeclared : st.type.declared = .seq k item) :
    (∃ c', Readied s st b c c' u' ∧ new = c'.rewrap z) ↔
      u' = .seq k item (k.readied items i d) ∧ new = c.holding z := by
  have hlengthened := fun ys => @lengthened_seq_iff s b k item ys i d u' hi hbound hd
  constructor
  · rintro ⟨c', hready, rfl⟩
    obtain ⟨w, hw, hlong⟩ := hready.lengthened
    cases h with
    | plain | present =>
      obtain rfl := hready.filled.eq_of_unwrapped rfl
      cases hw
      exact ⟨(hlengthened items).1 hlong, rfl⟩
    | null =>
      obtain ⟨x, hx, rfl⟩ := hready.filled.of_null rfl
      cases hw
      obtain rfl := (Step.create_seq_iff hi hbound hd hs hdeclared).1 hx
      refine ⟨?_, rfl⟩
      rw [(hlengthened _).1 hlong, SeqKind.readied_readied]
  · rintro ⟨hu', rfl⟩
    cases h with
    | plain | present => exact ⟨_, ⟨.kept rfl, _, rfl, (hlengthened items).2 hu'⟩, rfl⟩
    | null =>
      have hx := (Step.create_seq_iff hi hbound hd hs hdeclared).2 rfl
      refine ⟨_, ⟨.created hx, _, rfl, (hlengthened _).2 ?_⟩, rfl⟩
      rw [hu', SeqKind.readied_readied]

end Ready

/-- No array is created that has an item at the last index, and a list is created empty. -/
theorem Step.create_full (hs : s.Typed) (h : st.type.declared = .seq k item)
    (hi : b.index? = some i) (hfull : ¬ i + 1 < UInt64.size) (hx : st.create s b = .ok x) :
    x = .seq k item [] := by
  by_cases hk : k.growable = true
  · exact (create_list_iff hk h).1 hx
  · obtain rfl := SeqKind.eq_boxed_of_not_growable hk
    obtain ⟨j, -, hj, hbound, -⟩ := (create_array_iff hs h).1 hx
    rw [hi] at hj
    cases hj
    exact absurd hbound hfull

end Sequences

namespace Evaluator

variable {ev : Evaluator} {payload : Payload} {site : Site} {a b : Atom} {rest : List Atom}
  {st : Step} {v w d : Value} {t item : Ty} {items : List Value} {i : Nat} {k : SeqKind}
  {q : Place v}

section Holder

variable (hev : ev.Typed) (hinto : st.LeadsInto v) (hst : st.Fits ev.schema t)
  (hv : HasType ev.schema v t) (hq : st.slotPlace v = .ok (.place v q))
  (hres : ev.resolve site a = .ok (.step st)) (hholds : q.value.Holds k item items)
  (hi : b.index? = some i)

include hev hinto hst hv hq hres hholds hi

/-- Whatever the kind of the sequence in a slot, a write at an index in it leaves the same items. -/
theorem write_holder_iff (hd : ev.schema.default? item = some d) (hbound : i + 1 < UInt64.size) :
    (ev.write payload v site (a :: b :: rest)).Leaves w ↔
      ∃ new, ev.SlotWritten payload (.element i item st.origin) rest (items[i]?.getD d) new ∧
        w = q.fill (q.value.holding (.seq k item ((paddedTo items i d).set i new))) := by
  have hqtype := (Step.typed_slotPlace hev.schema hst hv hq).value
  have hready : ∀ x ∈ k.readied items i d, HasType ev.schema x item := by
    intro x hx
    rcases SeqKind.mem_readied hx with hx | rfl
    · exact hholds.hasType_items hqtype x hx
    · exact hasType_default hev.schema hd
  have hitem : ∀ {z : Value}, (ev.write payload (.seq k item (k.readied items i d))
      (.value (.seq k item) st.origin) (b :: rest)).Leaves z ↔
      ∃ new, ev.SlotWritten payload (.element i item st.origin) rest (items[i]?.getD d) new ∧
        z = .seq k item ((paddedTo items i d).set i new) := by
    intro z
    rw [write_item_iff hev hd hready (fun m hm => hst.origin hm) hi
      (k.readied_open items d hbound), SeqKind.getD_readied, SeqKind.paddedTo_readied]
  have hreadied := fun (u z new : Value) => @Value.Holds.readied_iff ev.schema st b k item items i
    q.value d u z new hi hbound hd hev.schema hholds (hholds.declared_eq hqtype)
  rw [write_slot_iff hev hinto hst hv hq hres]
  constructor
  · rintro ⟨new', hwritten, rfl⟩
    cases hwritten with
    | @within _ _ _ c u z hready hz =>
      obtain ⟨rfl, hnew⟩ := (hreadied u z _).1 ⟨c, hready, rfl⟩
      obtain ⟨new, hwritten, rfl⟩ := hitem.1 hz
      exact ⟨new, hwritten, congrArg q.fill hnew⟩
  · rintro ⟨new, hwritten, rfl⟩
    have hz := hitem.2 ⟨new, hwritten, rfl⟩
    obtain ⟨c, hready, hnew⟩ := (hreadied _ _ _).2 ⟨rfl, rfl⟩
    refine ⟨_, ?_, rfl⟩
    rw [hnew]
    exact .within hready hz

end Holder

/-! ## The last index -/

section Full

variable (hev : ev.Typed) (hinto : st.LeadsInto v) (hst : st.Fits ev.schema t)
  (hv : HasType ev.schema v t) (hq : st.slotPlace v = .ok (.place v q)) (hi : b.index? = some i)
  (hshort : items.length ≤ i) (hfull : ¬ i + 1 < UInt64.size)

include hev hinto hst hv hq hi hshort hfull

/-- No sequence gets an item at the last index or behind it, and none is made longer for that. -/
theorem lengthen_descend_full (payload : Payload) (rest : List Atom)
    (hu : q.value.unwrapped = some (.seq k item items)) :
    ∃ f, ((ev.lengthen st b v).andThen (ev.descend payload st (b :: rest))).Agrees
      (.failed v f) := by
  obtain ⟨p, hp, hpu, -⟩ := Step.place_of_slotPlace hq hu
  obtain h | ⟨f, h⟩ | ⟨p', left, longer, n, hp', hout, -⟩ := lengthen_cases hev hinto hst hv b
  · have hclosed : k.Closed items.length i := ⟨hshort, fun _ => hfull⟩
    obtain ⟨f, hf⟩ := ev.write_closed payload rest hclosed hi item st.origin
    refine ⟨f, ?_⟩
    rw [h]
    refine (Written.leaves_done.andThen _).trans ?_
    rw [descend_of_place hp, hpu]
    refine (hf.within p.fill).trans ⟨?_, rfl⟩
    show p.fill (.seq k item items) = v
    rw [← hpu, p.fill_value]
  · refine ⟨f, ?_⟩
    rw [h]
    exact (Written.Agrees.refl _).failed_andThen _
  · rw [hp] at hp'
    cases hp'
    rw [hpu] at hout
    cases hout with
    | mk hi' _ hbound =>
      rw [hi] at hi'
      cases hi'
      exact absurd hbound hfull

/-- At the last index every write fails, and what the slot holds is unchanged, unless it was null
and an empty list was created. -/
theorem write_holder_full (payload : Payload) (rest : List Atom)
    (hres : ev.resolve site a = .ok (.step st))
    (hholds : q.value.Holds k item items) :
    ∃ f c, (ev.write payload v site (a :: b :: rest)).Agrees (.failed (q.fill c) f) ∧
      (c = q.value ∨ q.value = .absent (.seq k item) ∧ c = .present (.seq k item [])) := by
  have hqtype := (Step.typed_slotPlace hev.schema hst hv hq).value
  have hdeclared := hholds.declared_eq hqtype
  rw [write_step hres, approach]
  generalize hold : q.value = old at hholds
  have hkept : ∀ {u : Value}, old.unwrapped = some u → u = .seq k item items →
      ∃ f c, (((ev.fillIn st b v).andThen (ev.lengthen st b)).andThen
        (ev.descend payload st (b :: rest))).Agrees (.failed (q.fill c) f) ∧
        (c = old ∨ old = .absent (.seq k item) ∧ c = .present (.seq k item [])) := by
    rintro u hu rfl
    rw [← hold] at hu
    obtain ⟨p, hp, -, -⟩ := Step.place_of_slotPlace hq hu
    obtain ⟨f, hf⟩ := lengthen_descend_full hev hinto hst hv hq hi hshort hfull payload rest hu
    refine ⟨f, old, ?_, .inl rfl⟩
    rw [fillIn_of_place hp, ← hold, q.fill_value]
    exact ((Written.leaves_done.andThen _).andThen _).trans hf
  cases hholds with
  | plain | present => exact hkept rfl rfl
  | null =>
    have hnull : q.value.unwrapped = none := by
      rw [hold]
      rfl
    cases hx : st.create ev.schema b with
    | error f =>
      have hfailed : ev.fillIn st b v = .failed v f := by
        simp only [fillIn, Step.place_of_null hq hnull, hx]
      refine ⟨f, _, ?_, .inl rfl⟩
      rw [hfailed, ← hold, q.fill_value]
      exact ((Written.Agrees.refl _).failed_andThen _).failed_andThen _
    | ok x =>
      obtain rfl := Step.create_full hev.schema hdeclared hi hfull hx
      have hfilled : (ev.fillIn st b v).Leaves (q.fill (.present (.seq k item []))) := by
        refine (fillIn_leaves_iff hev hinto hst hv hq).2 ⟨_, ?_, rfl⟩
        rw [hold]
        exact .created hx
      obtain ⟨hinto', q', hq', hvalue, -⟩ := hinto.slotPlace_fill hq (.present (.seq k item []))
      have hv' := hasType_fillIn (b := b) hev hst hv
      rw [hfilled.value] at hv'
      obtain ⟨f, hf⟩ := lengthen_descend_full hev hinto' hst hv' hq' hi hshort hfull payload
        rest (congrArg Value.unwrapped hvalue)
      exact ⟨f, _, ((hfilled.andThen _).andThen _).trans hf, .inr ⟨rfl, rfl⟩⟩

end Full

end Evaluator

end ObjectPath
