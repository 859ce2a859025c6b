import ObjectPath.Proofs.Atomicity
import ObjectPath.Proofs.Delivery
import ObjectPath.Proofs.Fields
import ObjectPath.Proofs.Resembling

/-!
# Writes through slots that are there

A write through a slot that is there either stores its payload in it, or fills it if it is null,
lengthens the array in it if that is too short, and goes on with what it then holds.
`Evaluator.SlotWritten` says so for the content of the slot alone, and `Evaluator.write_slot_iff`
that a write succeeds exactly if that is possible, and what it leaves then.

An item that a sequence cannot get is out of reach: writes on a path through it fail and leave the
sequence as it was (`Evaluator.write_closed`).
-/

namespace ObjectPath

/-! ## Writes that succeed -/

/-- A write that succeeds and leaves a value behind. -/
structure Written.Leaves (w : Written) (v : Value) : Prop where
  result : w.result = .ok ()
  value : w.value = v

namespace Written

variable {w w' : Written} {v : Value} {next : Value → Written}

theorem leaves_done : (done v).Leaves v := ⟨rfl, rfl⟩

theorem Leaves.of_done {u : Value} (h : (done v).Leaves u) : u = v := h.value.symm

theorem not_leaves_of_error {f : Fault} (h : w.result = .error f) : ¬ w.Leaves v := by
  intro hleaves
  rw [hleaves.result] at h
  cases h

theorem leaves_after (e : Event) : (w.after e).Leaves v ↔ w.Leaves v :=
  ⟨fun h => ⟨h.result, h.value⟩, fun h => ⟨h.result, h.value⟩⟩

theorem leaves_within (fill : Value → Value) :
    (w.within fill).Leaves v ↔ ∃ u, w.Leaves u ∧ v = fill u := by
  constructor
  · intro h
    exact ⟨w.value, ⟨h.result, rfl⟩, h.value.symm⟩
  · rintro ⟨u, h, rfl⟩
    exact ⟨h.result, congrArg fill h.value⟩

theorem Agrees.leaves_iff (h : w.Agrees w') : w.Leaves v ↔ w'.Leaves v :=
  ⟨fun hw => ⟨h.result ▸ hw.result, h.value ▸ hw.value⟩,
    fun hw => ⟨h.result ▸ hw.result, h.value ▸ hw.value⟩⟩

/-- What follows goes on with what is left. -/
theorem Leaves.andThen (h : w.Leaves v) (next : Value → Written) :
    (w.andThen next).Agrees (next v) := by
  have hnext := Agrees.andThen_of_ok h.result next
  rwa [h.value] at hnext

theorem leaves_andThen : (w.andThen next).Leaves v ↔ ∃ u, w.Leaves u ∧ (next u).Leaves v := by
  constructor
  · intro h
    obtain ⟨hw, hnext⟩ := andThen_ok h.result
    refine ⟨w.value, ⟨hw, rfl⟩, hnext, ?_⟩
    rw [← (andThen_of_ok hw).1]
    exact h.value
  · rintro ⟨u, hw, hnext⟩
    exact (hw.andThen next).leaves_iff.2 hnext

theorem Resembles.leaves (h : w.Resembles w') (hw : w.Leaves v) : w'.Leaves v :=
  ⟨h.result.ok hw.result, h.value ▸ hw.value⟩

end Written

/-! ## Contents of slots -/

/-- What a slot holds when a write goes on behind it: what it held, or what was created for null. -/
inductive Filled (s : Schema) (st : Step) (next : Atom) : Value → Value → Prop
  | kept {c u : Value} (hu : c.unwrapped = some u) : Filled s st next c c
  | created {t : Ty} {x : Value} (hx : st.create s next = .ok x) :
      Filled s st next (.absent t) (.present x)

/-- The value that the next atom leads into: the array that takes the place of one that is too
short, or any other value itself. -/
inductive Lengthened (s : Schema) (next : Atom) : Value → Value → Prop
  | kept {u : Value} (h : ¬ Beyond next u) : Lengthened s next u u
  | longer {u left longer : Value} (h : Outgrown s next u left longer) :
      Lengthened s next u longer

/-- A slot that held `old` holds `c` when it is filled, and the next atom leads into `u`. -/
structure Readied (s : Schema) (st : Step) (next : Atom) (old c u : Value) : Prop where
  filled : Filled s st next old c
  lengthened : ∃ w, c.unwrapped = some w ∧ Lengthened s next w u

/-- What a write leaves in a slot that held `old`: what its payload is there, or what it leaves of
the value that the slot was filled with, in which the rest of the path was written. -/
inductive Evaluator.SlotWritten (ev : Evaluator) (payload : Payload) (st : Step) :
    List Atom → Value → Value → Prop
  | stored {old new : Value} {y : Option Value} (hy : ev.bound payload st = .ok y)
      (hnew : st.type.prepare st.label y = .ok new) : SlotWritten ev payload st [] old new
  | within {b : Atom} {rest : List Atom} {old c u z : Value}
      (hready : Readied ev.schema st b old c u)
      (hz : (ev.write payload u (.value u.typeOf st.origin) (b :: rest)).Leaves z) :
      SlotWritten ev payload st (b :: rest) old (c.rewrap z)

theorem Evaluator.slotWritten_nil_iff {ev : Evaluator} {payload : Payload} {st : Step}
    {old new : Value} : ev.SlotWritten payload st [] old new ↔
      ∃ y, ev.bound payload st = .ok y ∧ st.type.prepare st.label y = .ok new := by
  constructor
  · intro h
    cases h with
    | stored hy hnew => exact ⟨_, hy, hnew⟩
  · rintro ⟨y, hy, hnew⟩
    exact .stored hy hnew

theorem Filled.exists_unwrapped {s : Schema} {st : Step} {b : Atom} {old c : Value}
    (h : Filled s st b old c) : ∃ u, c.unwrapped = some u := by
  cases h with
  | kept hu => exact ⟨_, hu⟩
  | @created t x => exact ⟨x, rfl⟩

/-- Only null is filled with something else. -/
theorem Filled.eq_of_unwrapped {s : Schema} {st : Step} {b : Atom} {old c u : Value}
    (h : Filled s st b old c) (hu : old.unwrapped = some u) : c = old := by
  cases h with
  | kept => rfl
  | created => cases hu

theorem Filled.of_null {s : Schema} {st : Step} {b : Atom} {old c : Value}
    (h : Filled s st b old c) (hu : old.unwrapped = none) :
    ∃ x, st.create s b = .ok x ∧ c = .present x := by
  cases h with
  | kept hu' => rw [hu] at hu'; cases hu'
  | created hx => exact ⟨_, hx, rfl⟩

theorem Value.eq_absent_of_unwrapped {c : Value} (h : c.unwrapped = none) : ∃ t, c = .absent t := by
  cases c with
  | absent t => exact ⟨t, rfl⟩
  | leaf | present | seq | map | record => cases h

/-- What takes the place of what takes the place of a value takes the place of that value. -/
theorem Value.rewrap_rewrap {c u w : Value} (hu : c.unwrapped = some u) (hw : w.typeOf = u.typeOf)
    (z : Value) : (c.rewrap w).rewrap z = c.rewrap z := by
  cases c with
  | absent => cases hu
  | present => rfl
  | leaf | seq | map | record =>
    cases hu
    cases w with
    | absent | present => cases hw
    | leaf | seq | map | record => rfl

namespace Step

variable {st : Step} {v u : Value} {q : Place v}

theorem place_of_slotPlace (hq : st.slotPlace v = .ok (.place v q))
    (hu : q.value.unwrapped = some u) : ∃ p, st.place v = .ok (.place v p) ∧ p.value = u ∧
      ∀ w, p.fill w = q.fill (q.value.rewrap w) := by
  have hinner := q.map_value_inner?.trans hu
  obtain ⟨p, hp, rfl⟩ := Option.map_eq_some_iff.1 hinner
  refine ⟨p, ?_, rfl, (Place.inner?_eq_some hp).2⟩
  rw [place, hq]
  exact congrArg (Except.ok <| Offer.of ·) hp

theorem place_of_null (hq : st.slotPlace v = .ok (.place v q)) (hu : q.value.unwrapped = none) :
    st.place v = .ok (.nothing v) := by
  have hinner := q.map_value_inner?.trans hu
  rw [place, hq]
  exact congrArg (Except.ok <| Offer.of ·) (Option.map_eq_none_iff.1 hinner)

/-- What is created for an optional slot becomes its content. -/
theorem prepare_created {s : Schema} {b : Atom} {t : Ty} {x : Value} (hs : s.Typed)
    (htype : st.type = .option t) (hx : st.create s b = .ok x) :
    st.type.prepare st.label (some x) = .ok (.present x) := by
  have hxtype := (hasType_create hs hx).typeOf_eq
  rw [htype] at hxtype ⊢
  exact Ty.prepare_inner st.label hxtype

/-- There is no slot behind the end of a sequence. -/
theorem slotPlace_item_of_le {items : List Value} {i : Nat} (h : items.length ≤ i) (k : SeqKind)
    (item : Ty) (o : Option Member) :
    (Step.element i item o).slotPlace (.seq k item items) =
      .ok (.nothing (.seq k item items)) := by
  have hvalue := Value.map_value_atIndex? i k item items
  rw [List.getElem?_eq_none h] at hvalue
  exact congrArg (Except.ok <| Offer.of ·) (Option.map_eq_none_iff.1 hvalue)

theorem place_item_of_le {items : List Value} {i : Nat} (h : items.length ≤ i) (k : SeqKind)
    (item : Ty) (o : Option Member) :
    (Step.element i item o).place (.seq k item items) =
      .ok (.nothing (.seq k item items)) := by
  rw [place, slotPlace_item_of_le h]
  rfl

end Step

/-! ## Items out of reach -/

/-- An index behind the end of a sequence that cannot get an item there: the length of an array is
fixed, and no length is as large as `UInt64.size`. -/
structure SeqKind.Closed (k : SeqKind) (length i : Nat) : Prop where
  short : length ≤ i
  bound : k.growable = true → ¬ i + 1 < UInt64.size

namespace SeqKind.Closed

variable {k : SeqKind} {items : List Value} {i : Nat}

/-- No value is stored out of reach. -/
theorem write_failed (h : k.Closed items.length i) (s : Schema) (item : Ty) (o : Option Member)
    (y : Option Value) :
    ∃ f, (Step.element i item o).write s (.seq k item items) y = .failed (.seq k item items) f := by
  have hnone : items[i]? = none := List.getElem?_eq_none h.short
  unfold Step.write
  split
  · simp only [Step.store]
    split
    · next hk =>
      have hlength : ∀ label, requiredLength i label =
          .error (.malformedPath (.indexTooLarge i label)) := fun label => if_neg (h.bound hk)
      simp only [Step.writeItem, hnone, hlength]
      exact ⟨_, rfl⟩
    · simp only [Step.writeArrayItem, hnone]
      exact ⟨_, rfl⟩
  · exact ⟨_, rfl⟩

theorem fillIn_failed (h : k.Closed items.length i) (ev : Evaluator) (item : Ty)
    (o : Option Member) (b : Atom) :
    ∃ f, (ev.fillIn (.element i item o) b (.seq k item items)).Agrees
      (.failed (.seq k item items) f) := by
  have hplace := Step.place_item_of_le h.short k item o
  cases hx : (Step.element i item o).create ev.schema b with
  | error f =>
    simp only [Evaluator.fillIn, hplace, hx]
    exact ⟨f, .refl _⟩
  | ok x =>
    obtain ⟨f, hf⟩ := h.write_failed ev.schema item o (some x)
    rw [Evaluator.fillIn_of_create hplace hx, hf]
    exact ⟨f, rfl, rfl⟩

end SeqKind.Closed

theorem Beyond.closed {b : Atom} {u : Value} (h : Beyond b u) :
    ∃ item items i, u = .seq .boxed item items ∧ b.index? = some i ∧
      SeqKind.Closed .boxed items.length i := by
  obtain ⟨item, items, i, rfl, hi, hshort⟩ := h
  exact ⟨item, items, i, rfl, hi, hshort, nofun⟩

namespace Evaluator

variable {ev : Evaluator} {payload : Payload} {site : Site} {a b : Atom} {rest : List Atom}
  {st : Step} {v u w : Value} {t : Ty} {q : Place v}

theorem resolve_item (ev : Evaluator) {i : Nat} (hi : b.index? = some i) (k : SeqKind) (item : Ty)
    (o : Option Member) :
    ev.resolve (.value (.seq k item) o) b = .ok (.step (.element i item o)) := by
  simp only [resolve, hi]

/-- A write on a path through an item out of reach fails and changes nothing. -/
theorem write_closed (ev : Evaluator) (payload : Payload) (rest : List Atom) {k : SeqKind}
    {items : List Value} {i : Nat} (h : k.Closed items.length i) (hi : b.index? = some i)
    (item : Ty) (o : Option Member) :
    ∃ f, (ev.write payload (.seq k item items) (.value (.seq k item) o) (b :: rest)).Agrees
      (.failed (.seq k item items) f) := by
  have hres := ev.resolve_item hi k item o
  cases rest with
  | nil =>
    rw [write_last hres, deliver_eq]
    split
    · next y _ =>
      obtain ⟨f, hf⟩ := h.write_failed ev.schema item o y
      exact ⟨f, by rw [hf]; exact .refl _⟩
    · exact ⟨_, .refl _⟩
  | cons c rest =>
    rw [write_step hres, approach]
    obtain ⟨f, hf⟩ := h.fillIn_failed ev item o c
    exact ⟨f, (hf.failed_andThen _).failed_andThen _⟩

/-- A write that succeeds does not lead behind the end of an array. -/
theorem not_beyond_of_leaves {o : Option Member}
    (h : (ev.write payload v (.value v.typeOf o) (b :: rest)).Leaves w) : ¬ Beyond b v := by
  intro hbeyond
  obtain ⟨item, items, i, rfl, hi, hclosed⟩ := hbeyond.closed
  obtain ⟨f, hf⟩ := ev.write_closed payload rest hclosed hi item o
  exact Written.not_leaves_of_error hf.result h

/-! ## Writes through a slot -/

/-- An array that is long enough, and what is no array, is left as it is. -/
theorem lengthen_of_not_beyond {p : Place v} (hp : st.place v = .ok (.place v p))
    (h : ¬ Beyond b p.value) : ev.lengthen st b v = .done v := by
  unfold lengthen
  split
  · rfl
  · next i hi =>
    rw [hp]
    dsimp only
    split
    · next item items hitems =>
      refine if_pos (Nat.lt_of_not_le fun hle => h ?_)
      exact ⟨item, items, i, hitems, hi, hle⟩
    · rfl

section Store

variable {fill : Value → Value}
  (hstore : ∀ x, x.typeOf = st.type → st.store ev.schema v x = .done (fill x))

include hstore

/-- Where storing succeeds, a payload is delivered if it is prepared for its slot. -/
theorem deliver_leaves_iff (old : Value) : (ev.deliver payload st v).Leaves w ↔
    ∃ new, ev.SlotWritten payload st [] old new ∧ w = fill new := by
  rw [deliver_eq]
  simp only [slotWritten_nil_iff]
  constructor
  · intro h
    cases hy : ev.bound payload st with
    | error f =>
      rw [hy] at h
      exact absurd h (Written.not_leaves_of_error rfl)
    | ok y =>
      rw [hy] at h
      dsimp only at h
      obtain ⟨x, hx, hwrite⟩ := Step.write_ok h.result
      rw [hwrite, hstore x (Ty.typeOf_prepare hx)] at h
      exact ⟨x, ⟨y, rfl, hx⟩, h.of_done⟩
  · rintro ⟨x, ⟨y, hy, hx⟩, rfl⟩
    rw [hy]
    dsimp only
    rw [Step.write_eq_store hx, hstore x (Ty.typeOf_prepare hx)]
    exact Written.leaves_done

/-- Where storing succeeds, what is missing is created. -/
theorem fillIn_missing_leaves_iff (hp : st.place v = .ok (.nothing v)) :
    (ev.fillIn st b v).Leaves w ↔
      ∃ x c, st.create ev.schema b = .ok x ∧ st.type.prepare st.label (some x) = .ok c ∧
        w = fill c := by
  cases hx : st.create ev.schema b with
  | error f =>
    have hfailed : ev.fillIn st b v = .failed v f := by simp only [fillIn, hp, hx]
    rw [hfailed]
    refine ⟨fun h => absurd h (Written.not_leaves_of_error rfl), ?_⟩
    rintro ⟨x, c, hx', -⟩
    cases hx'
  | ok x =>
    rw [fillIn_of_create hp hx, Written.leaves_after]
    constructor
    · intro h
      obtain ⟨c, hc, hwrite⟩ := Step.write_ok h.result
      rw [hwrite, hstore c (Ty.typeOf_prepare hc)] at h
      exact ⟨x, c, rfl, hc, h.of_done⟩
    · rintro ⟨x', c, hx', hc, rfl⟩
      cases hx'
      rw [Step.write_eq_store hc, hstore c (Ty.typeOf_prepare hc)]
      exact Written.leaves_done

end Store

section Slot

variable (hev : ev.Typed) (hinto : st.LeadsInto v) (hst : st.Fits ev.schema t)
  (hv : HasType ev.schema v t) (hq : st.slotPlace v = .ok (.place v q))

include hq

theorem descend_leaves_iff (hu : q.value.unwrapped = some u) :
    (ev.descend payload st rest v).Leaves w ↔
      ∃ z, (ev.write payload u (.value u.typeOf st.origin) rest).Leaves z ∧
        w = q.fill (q.value.rewrap z) := by
  obtain ⟨p, hp, rfl, hfill⟩ := Step.place_of_slotPlace hq hu
  rw [descend_of_place hp, Written.leaves_within]
  simp only [hfill]

include hev hinto hst hv

theorem fillIn_leaves_iff :
    (ev.fillIn st b v).Leaves w ↔ ∃ c, Filled ev.schema st b q.value c ∧ w = q.fill c := by
  cases hu : q.value.unwrapped with
  | some u =>
    obtain ⟨p, hp, -, -⟩ := Step.place_of_slotPlace hq hu
    rw [fillIn_of_place hp]
    constructor
    · intro h
      exact ⟨q.value, .kept hu, h.of_done.trans q.fill_value.symm⟩
    · rintro ⟨c, hc, rfl⟩
      rw [hc.eq_of_unwrapped hu, q.fill_value]
      exact Written.leaves_done
  | none =>
    obtain ⟨i, hnull⟩ := Value.eq_absent_of_unwrapped hu
    have hqtype := (Step.typed_slotPlace hev.schema hst hv hq).value.typeOf_eq
    have htype : st.type = .option i := by
      rw [← hqtype, hnull]
      rfl
    rw [fillIn_missing_leaves_iff (fun x hx => hinto.store_eq_done _ hq hqtype hx)
      (Step.place_of_null hq hu)]
    constructor
    · rintro ⟨x, c, hx, hc, rfl⟩
      cases (Step.prepare_created hev.schema htype hx).symm.trans hc
      refine ⟨.present x, ?_, rfl⟩
      rw [hnull]
      exact .created hx
    · rintro ⟨c, hc, rfl⟩
      obtain ⟨x, hx, rfl⟩ := hc.of_null hu
      exact ⟨x, _, hx, Step.prepare_created hev.schema htype hx, rfl⟩

theorem lengthen_leaves (hu : q.value.unwrapped = some u) {left longer : Value}
    (hout : Outgrown ev.schema b u left longer) :
    (ev.lengthen st b v).Leaves (q.fill (q.value.rewrap longer)) := by
  obtain ⟨p, hp, rfl, hfill⟩ := Step.place_of_slotPlace hq hu
  obtain ⟨n, hn⟩ := lengthen_of_outgrown hp hout
  rw [hn, Written.leaves_after, write_longer hev hinto hst hv hp hout, hfill]
  exact Written.leaves_done

/-- A write goes on in what stands in a slot, or in the array that takes its place. -/
theorem lengthen_descend_leaves_iff (hu : q.value.unwrapped = some u) :
    (∃ v', (ev.lengthen st b v).Leaves v' ∧ (ev.descend payload st (b :: rest) v').Leaves w) ↔
      ∃ u' z, Lengthened ev.schema b u u' ∧
        (ev.write payload u' (.value u'.typeOf st.origin) (b :: rest)).Leaves z ∧
        w = q.fill (q.value.rewrap z) := by
  obtain ⟨p, hp, hpu, -⟩ := Step.place_of_slotPlace hq hu
  have hbelow : ∀ {left longer : Value}, Outgrown ev.schema b u left longer →
      ((ev.descend payload st (b :: rest) (q.fill (q.value.rewrap longer))).Leaves w ↔
        ∃ z, (ev.write payload longer (.value longer.typeOf st.origin) (b :: rest)).Leaves z ∧
          w = q.fill (q.value.rewrap z)) := by
    intro left longer hout
    have htype := hout.grownTo.typeOf_eq
    obtain ⟨-, q', hq', hvalue, hfill⟩ := hinto.slotPlace_fill hq (q.value.rewrap longer)
    have hu' : q'.value.unwrapped = some longer := by
      rw [hvalue]
      exact Value.unwrapped_rewrap hu htype
    rw [descend_leaves_iff hq' hu', hvalue]
    simp only [hfill, Value.rewrap_rewrap hu htype]
  constructor
  · rintro ⟨v', hlengthen, hdescend⟩
    by_cases hout : ∃ left longer, Outgrown ev.schema b u left longer
    · obtain ⟨left, longer, hout⟩ := hout
      have hlonger := lengthen_leaves hev hinto hst hv hq hu hout
      obtain rfl : q.fill (q.value.rewrap longer) = v' := hlonger.value.symm.trans hlengthen.value
      obtain ⟨z, hz, rfl⟩ := (hbelow hout).1 hdescend
      exact ⟨longer, z, .longer hout, hz, rfl⟩
    · have hkept : v = v' := by
        obtain h | ⟨f, h⟩ | ⟨p', left, longer, n, hp', hout', -⟩ :=
          lengthen_cases hev hinto hst hv b
        · rw [h] at hlengthen
          exact hlengthen.of_done.symm
        · rw [h] at hlengthen
          exact absurd hlengthen (Written.not_leaves_of_error rfl)
        · rw [hp] at hp'
          cases hp'
          exact absurd ⟨left, longer, hpu ▸ hout'⟩ hout
      subst hkept
      obtain ⟨z, hz, rfl⟩ := (descend_leaves_iff hq hu).1 hdescend
      exact ⟨u, z, .kept (not_beyond_of_leaves hz), hz, rfl⟩
  · rintro ⟨u', z, hlong, hz, rfl⟩
    cases hlong with
    | kept hlong =>
      refine ⟨v, ?_, (descend_leaves_iff hq hu).2 ⟨z, hz, rfl⟩⟩
      rw [lengthen_of_not_beyond hp (hpu ▸ hlong)]
      exact Written.leaves_done
    | longer hout =>
      exact ⟨_, lengthen_leaves hev hinto hst hv hq hu hout, (hbelow hout).2 ⟨z, hz, rfl⟩⟩

/-- What a write leaves in a slot that is there depends on what the slot holds alone, and it
succeeds exactly if it leaves something there. -/
theorem write_slot_iff (hres : ev.resolve site a = .ok (.step st)) :
    (ev.write payload v site (a :: rest)).Leaves w ↔
      ∃ new, ev.SlotWritten payload st rest q.value new ∧ w = q.fill new := by
  cases rest with
  | nil =>
    have hqtype := (Step.typed_slotPlace hev.schema hst hv hq).value.typeOf_eq
    rw [write_last hres]
    exact deliver_leaves_iff (fun x hx => hinto.store_eq_done ev.schema hq hqtype hx) q.value
  | cons b rest =>
    rw [write_step hres, Written.leaves_andThen]
    simp only [approach, Written.leaves_andThen]
    -- What is left in the slot when it is filled is where the write goes on.
    have hfilled : ∀ {c u : Value}, Filled ev.schema st b q.value c → c.unwrapped = some u →
        ((∃ v', (ev.lengthen st b (q.fill c)).Leaves v' ∧
            (ev.descend payload st (b :: rest) v').Leaves w) ↔
          ∃ u' z, Lengthened ev.schema b u u' ∧
            (ev.write payload u' (.value u'.typeOf st.origin) (b :: rest)).Leaves z ∧
            w = q.fill (c.rewrap z)) := by
      intro c u hc hu
      obtain ⟨hinto', q', hq', hvalue, hfill⟩ := hinto.slotPlace_fill hq c
      have hleaves := (fillIn_leaves_iff hev hinto hst hv hq).2 ⟨c, hc, rfl⟩
      have hv' := hasType_fillIn (b := b) hev hst hv
      rw [hleaves.value] at hv'
      rw [← hvalue] at hu
      rw [lengthen_descend_leaves_iff hev hinto' hst hv' hq' hu, hvalue]
      simp only [hfill]
    constructor
    · rintro ⟨v', ⟨v'', hfill, hlengthen⟩, hdescend⟩
      obtain ⟨c, hc, rfl⟩ := (fillIn_leaves_iff hev hinto hst hv hq).1 hfill
      obtain ⟨u, hu⟩ := hc.exists_unwrapped
      obtain ⟨u', z, hlong, hz, rfl⟩ := (hfilled hc hu).1 ⟨v', hlengthen, hdescend⟩
      exact ⟨c.rewrap z, .within ⟨hc, u, hu, hlong⟩ hz, rfl⟩
    · rintro ⟨new, hwritten, rfl⟩
      cases hwritten with
      | @within _ _ _ c u z hready hz =>
        obtain ⟨w, hw, hlong⟩ := hready.lengthened
        obtain ⟨v', hlengthen, hdescend⟩ :=
          (hfilled hready.filled hw).2 ⟨u, z, hlong, hz, rfl⟩
        have hfill := (fillIn_leaves_iff hev hinto hst hv hq).2 ⟨c, hready.filled, rfl⟩
        exact ⟨v', ⟨_, hfill, hlengthen⟩, hdescend⟩

end Slot

end Evaluator

/-! ## Contents below other members -/

section Resembling

variable {s : Schema} {st st' : Step} {b b' : Atom} {old c u u' new : Value}
  {rest rest' : List Atom} {ev : Evaluator} {payload : Payload}

theorem Filled.resembles (h : Filled s st b old c) (hst : st.Resembles st')
    (hb : b.index? = b'.index?) : Filled s st' b' old c := by
  cases h with
  | kept hu => exact .kept hu
  | created hx => exact .created ((hst.create s hb).ok hx)

theorem Lengthened.of_index? (h : Lengthened s b u u') (hb : b.index? = b'.index?) :
    Lengthened s b' u u' := by
  cases h with
  | kept h =>
    refine .kept fun hbeyond => h ?_
    obtain ⟨item, items, i, rfl, hi, hshort⟩ := hbeyond
    exact ⟨item, items, i, rfl, hb.trans hi, hshort⟩
  | longer h =>
    cases h with
    | mk hi hshort hbound hd => exact .longer (.mk (hb.symm.trans hi) hshort hbound hd)

theorem Readied.resembles (h : Readied s st b old c u) (hst : st.Resembles st')
    (hb : b.index? = b'.index?) : Readied s st' b' old c u := by
  obtain ⟨w, hw, hlong⟩ := h.lengthened
  exact ⟨h.filled.resembles hst hb, w, hw, hlong.of_index? hb⟩

/-- What can be left in a slot can be left in one below another member with the same converter. -/
theorem Evaluator.SlotWritten.resembles (h : ev.SlotWritten payload st rest old new)
    (hst : st.Resembles st') (htexts : rest.map (·.text) = rest'.map (·.text)) :
    ev.SlotWritten payload st' rest' old new := by
  cases h with
  | stored hy hnew =>
    obtain rfl := List.map_eq_nil_iff.1 htexts.symm
    refine .stored ((ev.bound_resembles payload hst).ok hy) ?_
    rw [← hst.type_eq]
    exact (st.type.prepare_resembles st.label st'.label _).ok hnew
  | @within b rest _ c u z hready hz =>
    obtain ⟨b', rest', rfl, hb, -⟩ := List.map_eq_cons_iff.1 htexts.symm
    exact .within (hready.resembles hst (Atom.index?_congr hb.symm))
      ((ev.write_resembles payload u (.value hst.origin) htexts).leaves hz)

end Resembling

end ObjectPath
