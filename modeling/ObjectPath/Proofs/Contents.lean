import ObjectPath.Proofs.Openings

/-!
# Writes by what a slot holds

`Evaluator.Puts` says what a write puts in a slot that holds some content, or the default value in
place of a slot that is missing.  A write leaves the value with that content in the slot that its
first step opens (`Evaluator.write_leaves_iff`).

Behind the slot the same holds of what stands in it, or of the default value in place of null
(`Evaluator.puts_cons_iff`).  There an array counts as a sequence that can become longer.  So
neither what is created on the way nor the lengthening of an array is seen in this description.

Slots with content of their type, where there are only fields, lead to such slots again
(`Evaluator.TypedSlot.below`); so the writes through them are taken up by induction on the atoms.
-/

namespace ObjectPath

/-- A value can only be created where there is a default one. -/
theorem Step.default?_of_create {s : Schema} {st : Step} {b : Atom} {x : Value}
    (h : st.create s b = .ok x) : ∃ d, s.default? st.type = some d := by
  have hother (hoption : ∀ e, st.type ≠ .option e) (hboxed : ∀ e, st.type ≠ .seq .boxed e) :
      ∃ d, s.default? st.type = some d := by
    have hdeclared := Ty.declared_eq_self hoption
    rw [Step.create_eq_ok_iff fun e he => hboxed e (hdeclared.symm.trans he), hdeclared] at h
    exact ⟨x, h⟩
  cases htype : st.type with
  | option t => exact ⟨_, rfl⟩
  | seq k t => exact ⟨_, rfl⟩
  | map k t u => exact ⟨_, rfl⟩
  | leaf | record =>
    rw [← htype]
    exact hother (fun e he => by rw [htype] at he; cases he) fun e he => by
      rw [htype] at he; cases he

namespace Evaluator

/-- What a write puts in a slot that holds some content, if any: what its payload is there, or what
it leaves of the content. -/
inductive Puts (ev : Evaluator) (payload : Payload) (st : Step) :
    List Atom → Option Value → Value → Prop
  | stored {held : Option Value} {y : Option Value} {new : Value}
      (hy : ev.bound payload st = .ok y) (hnew : st.type.prepare st.label y = .ok new) :
      Puts ev payload st [] held new
  | within {b : Atom} {rest : List Atom} {c new : Value}
      (h : ev.SlotWritten payload st (b :: rest) c new) :
      Puts ev payload st (b :: rest) (some c) new

variable {ev : Evaluator} {payload : Payload} {site : Site} {a b : Atom} {rest : List Atom}
  {st : Step} {v w c new : Value} {t : Ty} {o : Option Member} {held : Option Value}

theorem puts_some_iff : ev.Puts payload st rest (some c) new ↔
    ev.SlotWritten payload st rest c new := by
  constructor
  · intro h
    cases h with
    | stored hy hnew => exact .stored hy hnew
    | within h => exact h
  · intro h
    cases h with
    | stored hy hnew => exact .stored hy hnew
    | within hready hz => exact .within (.within hready hz)

theorem puts_nil_iff (old : Value) : ev.Puts payload st [] held new ↔
    ev.SlotWritten payload st [] old new := by
  rw [slotWritten_nil_iff]
  constructor
  · intro h
    cases h with
    | stored hy hnew => exact ⟨_, hy, hnew⟩
  · rintro ⟨y, hy, hnew⟩
    exact .stored hy hnew

/-! ## Writes through steps -/

/-- Where nothing can be stored in a slot that is missing, no write succeeds. -/
theorem not_leaves_of_store_failed (hres : ev.resolve site a = .ok (.step st))
    (hplace : st.place v = .ok (.nothing v))
    (hstore : ∀ x, ∃ f, (st.store ev.schema v x).result = .error f) :
    ¬ (ev.write payload v site (a :: rest)).Leaves w := by
  have hwrite (y : Option Value) : (st.write ev.schema v y).result ≠ .ok () := by
    intro h
    obtain ⟨x, -, heq⟩ := Step.write_ok h
    obtain ⟨f, hf⟩ := hstore x
    rw [heq, hf] at h
    cases h
  intro h
  cases rest with
  | nil =>
    rw [write_last hres, deliver_eq] at h
    split at h
    · exact hwrite _ h.result
    · cases h.result
  | cons b rest =>
    rw [write_step hres] at h
    have hfill := (Written.andThen_ok (Written.andThen_ok h.result).1).1
    cases hx : st.create ev.schema b with
    | error f =>
      simp only [fillIn, hplace, hx] at hfill
      cases hfill
    | ok x =>
      rw [fillIn_of_create hplace hx] at hfill
      exact hwrite _ hfill

section Steps

variable (hev : ev.Typed) (hinto : st.LeadsInto v) (hst : st.Fits ev.schema t)
  (hv : HasType ev.schema v t)

include hev hst hv

/-- What was created for a slot that was missing stands in it, and a write goes on there. -/
theorem descend_missing_iff (hopens : st.Opens ev.schema v)
    (hfilled : (ev.fillIn st b v).Leaves (st.put ev.schema v c)) {x : Value}
    (hx : c.unwrapped = some x) :
    (∃ v', (ev.lengthen st b (st.put ev.schema v c)).Leaves v' ∧
        (ev.descend payload st (b :: rest) v').Leaves w) ↔
      ∃ u z, Lengthened ev.schema b x u ∧
        (ev.write payload u (.value u.typeOf st.origin) (b :: rest)).Leaves z ∧
        w = st.put ev.schema v (c.rewrap z) := by
  obtain ⟨hinto, q, hq, hvalue, hfill⟩ := hopens.exists_place c
  have hput := hasType_fillIn (b := b) hev hst hv
  rw [hfilled.value] at hput
  rw [← hvalue] at hx
  rw [lengthen_descend_leaves_iff hev hinto hst hput hq hx, hvalue]
  simp only [hfill]

/-- A write through a slot that is missing leaves there what it would leave of the default value. -/
theorem write_missing_iff (hres : ev.resolve site a = .ok (.step st))
    (hopens : st.Opens ev.schema v) (hwithin : st.Within v)
    (hnone : st.slotPlace v = .ok (.nothing v)) :
    (ev.write payload v site (a :: rest)).Leaves w ↔
      ∃ new, ev.Puts payload st rest (ev.schema.default? st.type) new ∧
        w = st.put ev.schema v new := by
  have hstore : ∀ x : Value, x.typeOf = st.type →
      st.store ev.schema v x = .done (st.put ev.schema v x) :=
    fun x hx => Step.store_of_opens hev.schema hst hv hopens hwithin hx
  have hplace : st.place v = .ok (.nothing v) := by
    rw [Step.place, hnone]
    rfl
  cases rest with
  | nil =>
    rw [write_last hres, deliver_leaves_iff hstore v]
    simp only [puts_nil_iff v]
  | cons b rest =>
    rw [write_step hres, Written.leaves_andThen]
    simp only [approach, Written.leaves_andThen]
    have hfillIn : ∀ {v' : Value}, (ev.fillIn st b v).Leaves v' ↔ ∃ x c,
        st.create ev.schema b = .ok x ∧ st.type.prepare st.label (some x) = .ok c ∧
          v' = st.put ev.schema v c :=
      fillIn_missing_leaves_iff hstore hplace
    have hunwrapped : ∀ {x c : Value}, st.create ev.schema b = .ok x →
        st.type.prepare st.label (some x) = .ok c → c.unwrapped = some x := fun hx hc =>
      Ty.unwrapped_prepare_declared (Step.hasType_create hev.schema hx).typeOf_eq hc
    constructor
    · rintro ⟨v', ⟨v'', hfilled, hlengthen⟩, hdescend⟩
      obtain ⟨x, c, hx, hc, rfl⟩ := hfillIn.1 hfilled
      obtain ⟨u, z, hlong, hz, rfl⟩ := (descend_missing_iff hev hst hv hopens hfilled
        (hunwrapped hx hc)).1 ⟨v', hlengthen, hdescend⟩
      obtain ⟨d, hd⟩ := Step.default?_of_create hx
      obtain ⟨c', hready, hnew⟩ := (created_iff hev hd st rfl hz).1 ⟨c, .mk hx hc hlong, rfl⟩
      refine ⟨c.rewrap z, ?_, rfl⟩
      rw [hd, hnew]
      exact .within (.within hready hz)
    · rintro ⟨new, hputs, rfl⟩
      cases hd : ev.schema.default? st.type with
      | none => rw [hd] at hputs; cases hputs
      | some d =>
        rw [hd, puts_some_iff] at hputs
        cases hputs with
        | @within _ _ _ c' u z hready hz =>
          obtain ⟨c, hcreated, hnew⟩ := (created_iff hev hd st rfl hz).2 ⟨c', hready, rfl⟩
          rw [hnew]
          cases hcreated with
          | mk hx hc hlong =>
            have hfilled := hfillIn.2 ⟨_, c, hx, hc, rfl⟩
            obtain ⟨v', hlengthen, hdescend⟩ := (descend_missing_iff hev hst hv hopens hfilled
              (hunwrapped hx hc)).2 ⟨u, z, hlong, hz, rfl⟩
            exact ⟨v', ⟨_, hfilled, hlengthen⟩, hdescend⟩

include hinto

/-- A write through a slot that is opened puts something there. -/
theorem write_opened_iff (hres : ev.resolve site a = .ok (.step st))
    (hopens : st.Opens ev.schema v) (hwithin : st.Within v) :
    (ev.write payload v site (a :: rest)).Leaves w ↔
      ∃ new, ev.Puts payload st rest (st.held? ev.schema v) new ∧
        w = st.put ev.schema v new := by
  obtain ⟨o, ho, hslot⟩ := hinto.slot_eq_slotPlace
  cases o with
  | none =>
    have hheld : st.held? ev.schema v = ev.schema.default? st.type := by
      unfold Step.held?
      rw [hslot]
      rfl
    rw [hheld]
    exact write_missing_iff hev hst hv hres hopens hwithin ho
  | some q =>
    obtain ⟨-, hheld, hfill⟩ := hinto.opens ho ev.schema
    rw [write_slot_iff hev hinto hst hv ho hres, hheld]
    simp only [puts_some_iff, hfill]

/-- A write only succeeds where its step opens the value. -/
theorem opened_of_leaves (hres : ev.resolve site a = .ok (.step st))
    (h : (ev.write payload v site (a :: rest)).Leaves w) :
    st.Opens ev.schema v ∧ st.Within v := by
  cases hinto with
  | field =>
    cases hst with
    | member hm => exact ⟨.field (Step.slot_lt_of_typed hev.schema hm hv), trivial⟩
  | entry hkey => exact ⟨.entry hkey, trivial⟩
  | @item i k item o xs =>
    refine Classical.byContradiction fun hclosed => ?_
    have hle : xs.length ≤ i := Nat.le_of_not_lt fun hlt => hclosed ⟨.item (.inl hlt), .inr hlt⟩
    refine not_leaves_of_store_failed hres (Step.place_item_of_le hle k item o) (fun x => ?_) h
    refine Step.store_closed hle (fun hk hbound hpad => hclosed ?_) x
    exact ⟨.item (.inr ⟨hbound, hpad.imp_left fun hi => ⟨hk, hi⟩⟩), .inl hk⟩

/-- A write leaves the value with what it puts in the slot that its step opens. -/
theorem write_leaves_iff (hres : ev.resolve site a = .ok (.step st)) :
    (ev.write payload v site (a :: rest)).Leaves w ↔
      (st.Opens ev.schema v ∧ st.Within v) ∧
        ∃ new, ev.Puts payload st rest (st.held? ev.schema v) new ∧
          w = st.put ev.schema v new := by
  constructor
  · intro h
    obtain ⟨hopens, hwithin⟩ := opened_of_leaves hev hinto hst hv hres h
    exact ⟨⟨hopens, hwithin⟩, (write_opened_iff hev hinto hst hv hres hopens hwithin).1 h⟩
  · rintro ⟨⟨hopens, hwithin⟩, h⟩
    exact (write_opened_iff hev hinto hst hv hres hopens hwithin).2 h

end Steps

/-- A write that succeeds takes a step first. -/
theorem exists_step_of_leaves (hev : ev.Typed) (hfields : ev.schema.OnlyFields t)
    (hsite : site.Fits ev.schema t) {atoms : List Atom}
    (h : (ev.write payload v site atoms).Leaves w) :
    ∃ a rest st, atoms = a :: rest ∧ ev.resolve site a = .ok (.step st) := by
  cases atoms with
  | nil =>
    rw [write] at h
    exact absurd h (Written.not_leaves_of_error rfl)
  | cons a rest =>
    cases hres : ev.resolve site a with
    | error f =>
      rw [write_error hres] at h
      exact absurd h (Written.not_leaves_of_error rfl)
    | ok r =>
      cases r with
      | site next => exact absurd hres (not_site_of_resolve hev hfields hsite)
      | step st => exact ⟨a, rest, st, rfl, hres⟩

/-! ## Writes behind a slot -/

/-- A step that an index resolves to leads to the item. -/
theorem index_of_resolve {k : SeqKind} {item : Ty}
    (hres : ev.resolve (.value (.seq k item) o) a = .ok (.step st)) :
    ∃ i, a.index? = some i ∧ st = .element i item o := by
  simp only [resolve] at hres
  split at hres
  · next i hi =>
    cases hres
    exact ⟨i, hi, rfl⟩
  · cases hres

theorem within_iff_not_beyond (hinto : st.LeadsInto v)
    (hres : ev.resolve (.value v.typeOf o) a = .ok (.step st)) : st.Within v ↔ ¬ Beyond a v := by
  cases hinto with
  | field | entry =>
    refine ⟨fun _ hbeyond => ?_, fun _ => trivial⟩
    obtain ⟨_, _, _, hseq, -⟩ := hbeyond
    cases hseq
  | @item i k item o' xs =>
    obtain ⟨j, hj, heq⟩ := index_of_resolve hres
    cases heq
    constructor
    · rintro (hk | hlt)
      · exact not_beyond_of_growable hk item xs
      · rintro ⟨_, _, _, hseq, hi, hle⟩
        cases hseq
        cases hj.symm.trans hi
        exact absurd hlt (Nat.not_lt.2 hle)
    · intro h
      cases k with
      | vec | deque => exact .inl rfl
      | boxed => exact .inr (Nat.lt_of_not_le fun hle => h ⟨item, xs, i, rfl, hj, hle⟩)

/-- The longer array is the one with a default item put at the index. -/
theorem outgrown_put {left longer : Value} (hout : Outgrown ev.schema a v left longer)
    (hres : ev.resolve (.value v.typeOf o) a = .ok (.step st)) :
    st.Opens ev.schema v ∧ ∃ d, st.held? ev.schema v = some d ∧ longer = st.put ev.schema v d := by
  cases hout with
  | @mk item xs i d hi hshort hbound hd =>
    obtain ⟨j, hj, rfl⟩ := index_of_resolve hres
    cases hi.symm.trans hj
    refine ⟨.item (.inr ⟨hbound, .inr (Option.isSome_iff_exists.2 ⟨d, hd⟩)⟩), d, ?_, ?_⟩
    · simp only [Step.held?, Step.slot, List.getElem?_eq_none hshort]
      exact hd
    · rw [Step.put, Step.filler, hd, Option.getD_some, paddedTo_set_default hshort, paddedTo]

/-- Behind the end of an array a longer one takes its place. -/
theorem outgrown_of_not_within (hopens : st.Opens ev.schema v) (hwithin : ¬ st.Within v)
    (hres : ev.resolve (.value v.typeOf o) a = .ok (.step st)) :
    ∃ left longer, Outgrown ev.schema a v left longer := by
  cases hopens with
  | field | entry => exact absurd trivial hwithin
  | @item i k item o' xs hopen =>
    obtain ⟨hk, hge⟩ := not_or.1 hwithin
    obtain ⟨j, hj, heq⟩ := index_of_resolve hres
    cases heq
    obtain ⟨hbound, hpad⟩ := hopen.resolve_left hge
    obtain ⟨d, hd⟩ := Option.isSome_iff_exists.1 (hpad.resolve_left fun h => hk h.1)
    cases k with
    | vec | deque => exact absurd rfl hk
    | boxed => exact ⟨_, _, .mk hj (Nat.le_of_not_lt hge) hbound hd⟩

section Behind

variable (hev : ev.Typed) (hst : st.Fits ev.schema v.typeOf)
  (hv : HasType ev.schema v v.typeOf) (hinto : st.LeadsInto v)
  (hres : ev.resolve (.value v.typeOf o) a = .ok (.step st))

include hev hst hv hinto hres

/-- Where an array is made longer first, a write succeeds for every slot that is opened. -/
theorem lengthened_leaves_iff :
    (∃ u, Lengthened ev.schema a v u ∧
        (ev.write payload u (.value u.typeOf o) (a :: rest)).Leaves w) ↔
      st.Opens ev.schema v ∧ ∃ new, ev.Puts payload st rest (st.held? ev.schema v) new ∧
        w = st.put ev.schema v new := by
  have hlonger : ∀ {left longer : Value}, Outgrown ev.schema a v left longer →
      ((ev.write payload longer (.value longer.typeOf o) (a :: rest)).Leaves w ↔
        ∃ new, ev.Puts payload st rest (st.held? ev.schema v) new ∧
          w = st.put ev.schema v new) := by
    intro left longer hout
    obtain ⟨hopens, d, hheld, rfl⟩ := outgrown_put hout hres
    have htype := hopens.typeOf_put d
    have htyped := Step.hasType_put hev.schema hst hv hopens
      (Step.hasType_held hev.schema hst hv hinto hheld)
    rw [← htype] at hres
    rw [write_leaves_iff hev (hopens.put d).leadsInto hst htyped hres, hopens.held?_put, hheld]
    simp only [hopens.put_put]
    exact and_iff_right ⟨hopens.put d, hopens.within_put d⟩
  constructor
  · rintro ⟨u, hlong, hw⟩
    cases hlong with
    | kept =>
      obtain ⟨⟨hopens, -⟩, h⟩ := (write_leaves_iff hev hinto hst hv hres).1 hw
      exact ⟨hopens, h⟩
    | longer hout => exact ⟨(outgrown_put hout hres).1, (hlonger hout).1 hw⟩
  · rintro ⟨hopens, h⟩
    by_cases hwithin : st.Within v
    · exact ⟨v, .kept ((within_iff_not_beyond hinto hres).1 hwithin),
        (write_leaves_iff hev hinto hst hv hres).2 ⟨⟨hopens, hwithin⟩, h⟩⟩
    · obtain ⟨left, longer, hout⟩ := outgrown_of_not_within hopens hwithin hres
      exact ⟨longer, .longer hout, (hlonger hout).2 h⟩

end Behind

end Evaluator

/-! ## What stands in a slot -/

/-- A value as the content of a slot of a type. -/
def Ty.holding : Ty → Value → Value
  | option _, v => .present v
  | _, v => v

/-- What a path goes on in behind a slot with some content: what stands there, or the default value
in place of null. -/
def Step.base? (s : Schema) (st : Step) (c : Value) : Option Value :=
  c.unwrapped.or (s.default? st.type.declared)

section Content

variable {s : Schema} {st : Step} {t : Ty} {c u z : Value}

theorem Value.rewrap_eq_holding (hc : HasType s c t) (hu : c.unwrapped = some u) (z : Value) :
    c.rewrap z = t.holding z := by
  cases hc with
  | absent => cases hu
  | present | leaf | seq | map | record => rfl

theorem HasType.holding (hz : HasType s z t.declared) : HasType s (t.holding z) t := by
  cases t with
  | option t => exact .present hz
  | leaf | seq | map | record => exact hz

theorem Ty.unwrapped_holding (hz : z.typeOf = t.declared) : (t.holding z).unwrapped = some z := by
  cases t with
  | option t => rfl
  | leaf | seq | map | record =>
    cases z with
    | absent | present => cases hz
    | leaf | seq | map | record => rfl

theorem Step.base_holding (hz : z.typeOf = st.type.declared) :
    st.base? s (st.type.holding z) = some z := by
  rw [base?, Ty.unwrapped_holding hz]
  rfl

theorem Step.hasType_base (hs : s.Typed) (hc : HasType s c st.type) (hu : st.base? s c = some u) :
    HasType s u st.type.declared := by
  unfold base? at hu
  cases hc' : c.unwrapped with
  | none => rw [hc'] at hu; exact hasType_default hs hu
  | some w =>
    rw [hc'] at hu
    cases hu
    exact hc.unwrapped hc'

end Content

namespace Evaluator

variable {ev : Evaluator} {payload : Payload} {b : Atom} {rest : List Atom} {st : Step}
  {c z new : Value} {t : Ty}

/-- What is created for null and lengthened is what the default value is lengthened to. -/
theorem create_lengthened_iff (hev : ev.Typed) : (∃ x u, st.create ev.schema b = .ok x ∧
      Lengthened ev.schema b x u ∧
      (ev.write payload u (.value u.typeOf st.origin) (b :: rest)).Leaves z) ↔
    ∃ d, ev.schema.default? st.type.declared = some d ∧ ∃ u, Lengthened ev.schema b d u ∧
      (ev.write payload u (.value u.typeOf st.origin) (b :: rest)).Leaves z := by
  by_cases hboxed : ∃ e, st.type.declared = .seq .boxed e
  · obtain ⟨e, he⟩ := hboxed
    have hd : ev.schema.default? st.type.declared = some (.seq .boxed e []) := by
      rw [he]
      rfl
    simp only [Step.create_array_iff hev.schema he, hd, Option.some.injEq]
    constructor
    · rintro ⟨x, u, ⟨i, d, hi, hbound, hd, rfl⟩, hlong, hz⟩
      refine ⟨_, rfl, u, ?_, hz⟩
      cases hlong with
      | kept => exact .longer (.mk hi (Nat.zero_le i) hbound hd)
      | longer hout => exact absurd hout.beyond (not_beyond_replicate hi e d)
    · rintro ⟨d, rfl, u, hlong, hz⟩
      cases hlong with
      | kept hnot =>
        obtain ⟨i, hi⟩ := exists_index_of_leaves hz
        exact absurd ⟨e, [], i, rfl, hi, Nat.zero_le i⟩ hnot
      | longer hout =>
        cases hout with
        | @mk _ _ i d hi _ hbound hd =>
          exact ⟨_, _, ⟨i, d, hi, hbound, hd, rfl⟩, .kept (not_beyond_replicate hi e d), hz⟩
  · simp only [Step.create_eq_ok_iff fun e he => hboxed ⟨e, he⟩]
    constructor
    · rintro ⟨x, u, hx, hlong, hz⟩
      exact ⟨x, hx, u, hlong, hz⟩
    · rintro ⟨x, hx, u, hlong, hz⟩
      exact ⟨x, u, hx, hlong, hz⟩

/-- What a write that goes on leaves in a slot is what it leaves of the value that it goes on in,
and where that is an array, of the longer one. -/
theorem slotWritten_iff_base (hev : ev.Typed) (hc : HasType ev.schema c st.type) :
    ev.SlotWritten payload st (b :: rest) c new ↔
      ∃ d, st.base? ev.schema c = some d ∧ ∃ u z, Lengthened ev.schema b d u ∧
        (ev.write payload u (.value u.typeOf st.origin) (b :: rest)).Leaves z ∧
        new = st.type.holding z := by
  cases hu : c.unwrapped with
  | some w =>
    have hbase : st.base? ev.schema c = some w := by
      rw [Step.base?, hu]
      rfl
    simp only [hbase, Option.some.injEq]
    constructor
    · intro h
      cases h with
      | @within _ _ _ _ u z hready hz =>
        obtain ⟨w', hw', hlong⟩ := hready.lengthened
        obtain rfl := hready.filled.eq_of_unwrapped hu
        cases hu.symm.trans hw'
        exact ⟨w, rfl, u, z, hlong, hz, Value.rewrap_eq_holding hc hu z⟩
    · rintro ⟨d, rfl, u, z, hlong, hz, rfl⟩
      rw [← Value.rewrap_eq_holding hc hu z]
      exact .within ⟨.kept hu, w, hu, hlong⟩ hz
  | none =>
    obtain ⟨e, rfl⟩ := Value.eq_absent_of_unwrapped hu
    have htype : st.type = .option e := hc.typeOf_eq.symm
    have hbase : st.base? ev.schema (.absent e) = ev.schema.default? st.type.declared := rfl
    have hholding (z : Value) : st.type.holding z = .present z := by
      rw [htype]
      rfl
    simp only [hbase, hholding]
    constructor
    · intro h
      cases h with
      | @within _ _ _ _ u z hready hz =>
        obtain ⟨x, hx, rfl⟩ := hready.filled.of_null rfl
        obtain ⟨w', hw', hlong⟩ := hready.lengthened
        cases hw'
        obtain ⟨d, hd, u', hlong', hz'⟩ :=
          (create_lengthened_iff hev).1 ⟨x, u, hx, hlong, hz⟩
        exact ⟨d, hd, u', z, hlong', hz', rfl⟩
    · rintro ⟨d, hd, u, z, hlong, hz, rfl⟩
      obtain ⟨x, u', hx, hlong', hz'⟩ := (create_lengthened_iff hev).2 ⟨d, hd, u, hlong, hz⟩
      exact .within ⟨.created hx, x, rfl, hlong'⟩ hz'

/-! ## Content of its type -/

/-- A slot that a step leads to from a value with only fields, with content of its type, if any. -/
inductive TypedSlot (ev : Evaluator) (st : Step) (held : Option Value) : Prop
  | mk {t : Ty} (hst : st.Fits ev.schema t) (hfields : ev.schema.OnlyFields t)
      (htyped : ∀ c, held = some c → HasType ev.schema c st.type) : TypedSlot ev st held

namespace TypedSlot

variable {held : Option Value} {u v x : Value} {st' : Step}

theorem of_fits (hev : ev.Typed) (hfields : ev.schema.OnlyFields t) (hst : st.Fits ev.schema t)
    (hv : HasType ev.schema v t) : ev.TypedSlot st (st.held? ev.schema v) :=
  .mk hst hfields fun _ hc =>
    Step.hasType_held hev.schema hst hv (Step.leadsInto hfields hst hv) hc

theorem hasType (h : ev.TypedSlot st (some c)) : HasType ev.schema c st.type := by
  obtain ⟨_, _, htyped⟩ := h
  exact htyped c rfl

/-- With other content of its type it is such a slot, too. -/
theorem hold (h : ev.TypedSlot st held) (hx : HasType ev.schema x st.type) :
    ev.TypedSlot st (some x) := by
  obtain ⟨hst, hfields, -⟩ := h
  exact .mk hst hfields fun _ hc => by cases hc; exact hx

/-- What a path goes on in behind the slot is of the declared type, with only fields. -/
theorem base (hev : ev.Typed) (h : ev.TypedSlot st (some c))
    (hu : st.base? ev.schema c = some u) : HasType ev.schema u st.type.declared ∧
      ev.schema.OnlyFields st.type.declared ∧
        (Site.value u.typeOf st.origin).Fits ev.schema st.type.declared := by
  have htyped := Step.hasType_base hev.schema h.hasType hu
  obtain ⟨hst, hfields, -⟩ := h
  rw [htyped.typeOf_eq]
  exact ⟨htyped, hfields.below hst, fits_below hst _⟩

/-- The next step leads from there to such a slot again. -/
theorem below (hev : ev.Typed) (h : ev.TypedSlot st (some c))
    (hu : st.base? ev.schema c = some u)
    (hres : ev.resolve (.value u.typeOf st.origin) b = .ok (.step st')) :
    ev.TypedSlot st' (st'.held? ev.schema u) := by
  obtain ⟨htyped, hfields, hsite⟩ := h.base hev hu
  exact .of_fits hev hfields (fits_step hev hsite hres) htyped

end TypedSlot

/-- What a write that goes on puts in a slot: in the value that stands there, or in the default
value in place of null, its next step puts something in a slot that it opens. -/
theorem puts_cons_iff (hev : ev.Typed) (hslot : ev.TypedSlot st (some c)) :
    ev.Puts payload st (b :: rest) (some c) new ↔
      ∃ u st' new', st.base? ev.schema c = some u ∧
        ev.resolve (.value u.typeOf st.origin) b = .ok (.step st') ∧ st'.Opens ev.schema u ∧
        ev.Puts payload st' rest (st'.held? ev.schema u) new' ∧
        new = st.type.holding (st'.put ev.schema u new') := by
  rw [puts_some_iff, slotWritten_iff_base hev hslot.hasType]
  have hbelow : ∀ {d : Value} {st' : Step} {z : Value}, st.base? ev.schema c = some d →
      ev.resolve (.value d.typeOf st.origin) b = .ok (.step st') →
      ((∃ u, Lengthened ev.schema b d u ∧
          (ev.write payload u (.value u.typeOf st.origin) (b :: rest)).Leaves z) ↔
        st'.Opens ev.schema d ∧ ∃ new', ev.Puts payload st' rest (st'.held? ev.schema d) new' ∧
          z = st'.put ev.schema d new') := by
    intro d st' z hd hres
    obtain ⟨htyped, hfields, hsite⟩ := hslot.base hev hd
    have htype := htyped.typeOf_eq
    rw [← htype] at htyped hfields hsite
    have hst' := fits_step hev hsite hres
    exact lengthened_leaves_iff hev hst' htyped (Step.leadsInto hfields hst' htyped) hres
  constructor
  · rintro ⟨d, hd, u, z, hlong, hz, rfl⟩
    obtain ⟨-, hfields, hsite⟩ := hslot.base hev hd
    have hutype : u.typeOf = d.typeOf := by
      cases hlong with
      | kept => rfl
      | longer hout => exact hout.grownTo.typeOf_eq
    have hstarts := hz
    rw [hutype] at hstarts
    obtain ⟨_, _, st', heq, hres⟩ := exists_step_of_leaves hev hfields hsite hstarts
    cases heq
    obtain ⟨hopens, new', hputs, rfl⟩ := (hbelow hd hres).1 ⟨u, hlong, hz⟩
    exact ⟨d, st', new', hd, hres, hopens, hputs, rfl⟩
  · rintro ⟨d, st', new', hd, hres, hopens, hputs, rfl⟩
    obtain ⟨u, hlong, hz⟩ := (hbelow hd hres).2 ⟨hopens, new', hputs, rfl⟩
    exact ⟨d, hd, u, _, hlong, hz, rfl⟩

/-- Where a step opens the value behind a slot, what is put there decides what is put in the
slot. -/
theorem puts_below_iff (hev : ev.Typed) (hslot : ev.TypedSlot st (some c)) {u : Value}
    {st' : Step} (hu : st.base? ev.schema c = some u)
    (hres : ev.resolve (.value u.typeOf st.origin) b = .ok (.step st'))
    (hopens : st'.Opens ev.schema u) :
    ev.Puts payload st (b :: rest) (some c) new ↔
      ∃ new', ev.Puts payload st' rest (st'.held? ev.schema u) new' ∧
        new = st.type.holding (st'.put ev.schema u new') := by
  rw [puts_cons_iff hev hslot]
  constructor
  · rintro ⟨u', st'', new', hu', hres', -, hputs, rfl⟩
    cases hu.symm.trans hu'
    cases hres.symm.trans hres'
    exact ⟨new', hputs, rfl⟩
  · rintro ⟨new', hputs, rfl⟩
    exact ⟨u, st', new', hu, hres, hopens, hputs, rfl⟩

/-- What a write puts in a slot is of the type of the slot. -/
theorem hasType_puts (hev : ev.Typed) (hpay : payload.Typed ev.schema) (rest : List Atom) :
    ∀ {st : Step} {held : Option Value} {new : Value}, ev.TypedSlot st held →
      ev.Puts payload st rest held new → HasType ev.schema new st.type := by
  induction rest with
  | nil =>
    intro st held new hslot h
    obtain ⟨hst, -, -⟩ := hslot
    cases h with
    | stored hy hnew => exact hasType_prepare (hasType_bound hev hpay hst hy) hnew
  | cons b rest ih =>
    intro st held new hslot h
    cases held with
    | none => cases h
    | some c =>
      obtain ⟨u, st', new', hu, hres, hopens, hputs, rfl⟩ := (puts_cons_iff hev hslot).1 h
      have hnew' := ih (hslot.below hev hu hres) hputs
      obtain ⟨htyped, -, hsite⟩ := hslot.base hev hu
      have hst' := fits_step hev hsite hres
      exact (Step.hasType_put hev.schema hst' htyped hopens hnew').holding

theorem set_leaves_iff {source : String} {atoms : List Atom} {root w : Value}
    (h : parse source = .ok atoms) : (ev.set source payload root).Leaves w ↔
      (ev.write payload root (start root) atoms).Leaves w := by
  simp only [set, h, Written.leaves_after]

end Evaluator

end ObjectPath
