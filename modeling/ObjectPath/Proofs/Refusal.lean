import ObjectPath.Proofs.Faults
import ObjectPath.Proofs.Passing
import ObjectPath.Proofs.Sharing

/-!
# Writes that are refused

A write fails with `Fault.unwritable` only where a member without a setter is asked to store a value
(`Step.write_unwritable`).  The walk ends there (`Evaluator.RefusedAt`), and the member should hold
what it held before.

It does so unless its array was too short for the next index and not empty: then the items were
moved out before the member was asked (`Evaluator.refused_keeps_iff`).
-/

namespace ObjectPath

/-! ## Where refusals come from -/

/-- A property without a setter. -/
def Member.Refuses (name : String) : Member → Prop
  | property p _ => p.setter? = none ∧ p.name = name
  | field _ => False

/-- A step through a property without a setter. -/
def Step.Refuses (name : String) : Step → Prop
  | member m | indexed m _ _ => m.Refuses name
  | element _ _ _ | entry _ _ _ _ => False

/-- A property has no setter at all if it has none that fits its type and its index. -/
theorem Property.MadeOf.setter?_eq_none {s : Schema} {path : String} {d : RecordDecl}
    {p : Property} (hs : s.Typed) (hd : s.record? path = some d) (hp : p.MadeOf d.members.methods)
    (h : ∀ a, p.writer? = some (p.type, a) → ¬ Property.Stores p.index? a) : p.setter? = none := by
  cases hset : p.setter? with
  | none => rfl
  | some m =>
    have hw : p.writer? = some (m.type, m.access) := by rw [Property.writer?, hset]; rfl
    obtain ⟨htype, hkind, -⟩ := hp.writer hs hd hw
    rw [htype] at hw
    exact absurd hkind (h _ hw)

namespace Member

variable {s : Schema} {m : Member} {t u : Ty} {v v' x i : Value} {name label : String}

/-- A member refuses a value only if it is a property without a setter. -/
theorem write_unwritable (hs : s.Typed) (hm : m.Of s t) (hu : m.index? = none)
    (hv : HasType s v t) (h : m.write v x = .error (.unwritable name)) : m.Refuses name := by
  obtain ⟨path, d, rfl, hd, hmade⟩ := hm.madeOf
  cases hmade with
  | @field f hf =>
    -- A field has a slot in every record of its type.
    obtain ⟨sl, hsl, -⟩ := (hs.record path d hd).field f hf
    obtain ⟨xs, y, rfl, hy, -⟩ := hv.exists_slot hd hsl
    rw [← Value.map_value_atSlot? path, Option.map_eq_some_iff] at hy
    obtain ⟨q, hq, -⟩ := hy
    simp only [write, hq] at h
    split at h <;> cases h
  | @property p hidden hp =>
    simp only [write] at h
    split at h
    · split at h <;> cases h
    · next hnone =>
      cases h
      refine ⟨hp.setter?_eq_none hs hd fun a ha hkind => ?_, rfl⟩
      rw [show p.index? = none from hu] at hkind
      cases hkind
      exact hnone _ _ ha

theorem writeAt_unwritable (hs : s.Typed) (hm : m.Of s t) (hu : m.index? = some u)
    (h : m.writeAt label v i x = .error (.unwritable name)) : m.Refuses name := by
  obtain ⟨path, d, rfl, hd, hmade⟩ := hm.madeOf
  cases hmade with
  | field => cases hu
  | @property p hidden hp =>
    simp only [writeAt] at h
    split at h
    · split at h <;> cases h
    · next hnone =>
      cases h
      refine ⟨hp.setter?_eq_none hs hd fun a ha hkind => ?_, rfl⟩
      rw [show p.index? = some u from hu] at hkind
      cases hkind
      exact hnone _ _ _ ha

/-- A property without a setter takes no value. -/
theorem write_of_refuses (h : m.Refuses name) : m.write v x ≠ .ok v' := by
  cases m with
  | field => exact h.elim
  | property p hidden =>
    simp [write, Property.writer?, h.1]

theorem writeAt_of_refuses (h : m.Refuses name) : m.writeAt label v i x ≠ .ok v' := by
  cases m with
  | field => exact h.elim
  | property p hidden =>
    simp [writeAt, Property.writer?, h.1]

end Member

namespace Step

variable {s : Schema} {st : Step} {t item : Ty} {v x : Value} {y : Option Value} {f : Fault}
  {name : String} {items ys : List Value} {n i : Nat}

theorem slotPlace_error (h : st.slotPlace v = .error f) : f ≠ .unwritable name := by
  cases st with
  | member m =>
    simp only [slotPlace, Member.place] at h
    split at h
    · split at h
      · cases h
      · cases h; simp
    · cases h
  | indexed m i l =>
    simp only [slotPlace, Member.placeAt] at h
    split at h
    · split at h
      · cases h
      · cases h; simp
    · cases h; simp
  | element | entry =>
    simp only [slotPlace] at h
    split at h
    · cases h
    · cases h; simp [wrongContainer]

theorem place_error (h : st.place v = .error f) : f ≠ .unwritable name := by
  unfold place at h
  split at h
  · cases h
  · next hp => cases h; exact slotPlace_error hp

/-- A value is refused only by a property without a setter, and nothing changes then. -/
theorem store_unwritable (hs : s.Typed) (hst : st.Fits s t) (hv : HasType s v t)
    (h : (st.store s v x).result = .error (.unwritable name)) :
    st.Refuses name ∧ (st.store s v x).value = v := by
  cases hst with
  | member hm hu =>
    obtain ⟨hr, hval⟩ := Written.attempt_error h
    exact ⟨Member.write_unwritable hs hm hu hv hr, hval⟩
  | indexed hm hu =>
    obtain ⟨hr, hval⟩ := Written.attempt_error h
    exact ⟨Member.writeAt_unwritable hs hm hu hr, hval⟩
  | @element i k item o =>
    cases hv with
    | @seq _ _ items =>
      simp only [store] at h
      split at h
      · exact absurd rfl (writeItem_error (Prod.ext rfl h))
      · split at h
        · cases h
        · next hw => cases h; exact absurd rfl (writeArrayItem_error hw)
  | entry =>
    cases hv with
    | map =>
      simp only [store] at h
      split at h <;> cases h

/-- A write is refused only by a property without a setter, and it changes nothing then. -/
theorem write_unwritable (hs : s.Typed) (hst : st.Fits s t) (hv : HasType s v t)
    (h : (st.write s v y).result = .error (.unwritable name)) :
    st.Refuses name ∧ (st.write s v y).value = v := by
  unfold write at h ⊢
  split at h
  · next hx => exact store_unwritable hs hst hv h
  · next hx => cases h; cases Ty.prepare_error hx

/-- Nothing is written through a step that refuses. -/
theorem write_of_refuses (h : st.Refuses name) : (st.write s v y).result ≠ .ok () := by
  intro hok
  obtain ⟨x, -, heq⟩ := write_ok hok
  rw [heq] at hok
  cases st with
  | element | entry => exact h
  | member m => exact Member.write_of_refuses h (Written.attempt_ok hok)
  | indexed m i label => exact Member.writeAt_of_refuses h (Written.attempt_ok hok)

end Step

namespace Evaluator

variable {ev : Evaluator} {payload : Payload} {site next : Site} {a b : Atom}
  {pre rest : List Atom} {st s : Step} {v h : Value} {f : Fault} {t : Ty} {name : String}

/-! ## The end of a refused walk -/

/-- A write is refused at the step `s` at the end of the atoms `pre`, with `rest` left behind it:
at its last step, or where a step is approached. -/
inductive RefusedAt (ev : Evaluator) (payload : Payload) (name : String) :
    Value → Site → List Atom → List Atom → Step → Prop
  | last {v : Value} {site : Site} {a : Atom} {s : Step}
      (hres : ev.resolve site a = .ok (.step s))
      (h : (ev.deliver payload s v).result = .error (.unwritable name)) :
      RefusedAt ev payload name v site [a] [] s
  | approach {v : Value} {site : Site} {a b : Atom} {rest : List Atom} {s : Step}
      (hres : ev.resolve site a = .ok (.step s))
      (h : (ev.approach s b v).result = .error (.unwritable name)) :
      RefusedAt ev payload name v site [a] (b :: rest) s
  | index {v : Value} {site next : Site} {a : Atom} {pre rest : List Atom} {s : Step}
      (hres : ev.resolve site a = .ok (.site next))
      (h : RefusedAt ev payload name v next pre rest s) :
      RefusedAt ev payload name v site (a :: pre) rest s
  | further {v : Value} {site : Site} {a b : Atom} {pre rest : List Atom} {s s' : Step}
      {u : Value} {p : Place u} (hres : ev.resolve site a = .ok (.step s'))
      (ha : (ev.approach s' b v).result = .ok ())
      (hp : s'.place (ev.approach s' b v).value = .ok (.place u p))
      (h : RefusedAt ev payload name p.value (.value p.value.typeOf s'.origin) (b :: pre) rest s) :
      RefusedAt ev payload name v site (a :: b :: pre) rest s

theorem deliver_unwritable (hev : ev.Typed) (hst : st.Fits ev.schema t)
    (hv : HasType ev.schema v t)
    (h : (ev.deliver payload st v).result = .error (.unwritable name)) :
    st.Refuses name ∧ (ev.deliver payload st v).value = v := by
  rw [deliver_eq] at h ⊢
  split at h
  · exact Step.write_unwritable hev.schema hst hv h
  · next hb =>
    cases h
    cases payload with
    | value y => cases hb
    | strings raw =>
      rcases Registry.parseStrings_error hb with hc | ⟨hc, -⟩ <;> cases hc

theorem fillIn_unwritable (hev : ev.Typed) (hst : st.Fits ev.schema t)
    (hv : HasType ev.schema v t)
    (h : (ev.fillIn st b v).result = .error (.unwritable name)) :
    st.Refuses name ∧ st.place v = .ok (.nothing (ev.fillIn st b v).value) := by
  cases hp : st.place v with
  | error f =>
    rw [fillIn, hp] at h
    cases h
    exact absurd rfl (Step.place_error hp : Fault.unwritable name ≠ _)
  | ok o =>
    cases o with
    | place w p => rw [fillIn_of_place hp] at h; cases h
    | nothing w =>
      cases hc : st.create ev.schema b with
      | error f =>
        rw [fillIn, hp] at h
        simp only [hc] at h
        cases h
        cases Step.create_error hc
      | ok z =>
        rw [fillIn_of_create hp hc] at h ⊢
        have hw := Step.hasType_left hev.schema hst hv hp
        obtain ⟨hrefuses, hval⟩ := Step.write_unwritable hev.schema hst hw h
        exact ⟨hrefuses, congrArg (Except.ok <| Offer.nothing ·) hval.symm⟩

/-- Nothing is created through a step that refuses. -/
theorem fillIn_of_refuses (h : st.Refuses name) (hok : (ev.fillIn st b v).result = .ok ()) :
    ∃ w, ∃ p : Place w, st.place v = .ok (.place w p) := by
  cases hp : st.place v with
  | error f => rw [fillIn, hp] at hok; cases hok
  | ok o =>
    cases o with
    | place w p => exact ⟨w, p, rfl⟩
    | nothing w =>
      cases hc : st.create ev.schema b with
      | error f => rw [fillIn, hp] at hok; simp only [hc] at hok; cases hok
      | ok z =>
        rw [fillIn_of_create hp hc] at hok
        exact absurd hok (Step.write_of_refuses h)

/-- When lengthening an array is refused, its items were moved out already. -/
theorem lengthen_unwritable (hev : ev.Typed) (hst : st.Fits ev.schema t)
    (hv : HasType ev.schema v t)
    (h : (ev.lengthen st b v).result = .error (.unwritable name)) :
    st.Refuses name ∧ ∃ w, ∃ (p : Place w) (left longer : Value), st.place v = .ok (.place w p) ∧
      Outgrown ev.schema b p.value left longer ∧ (ev.lengthen st b v).value = p.fill left := by
  obtain ⟨w, -, hd⟩ | ⟨w, f, -, hd, hf⟩ | ⟨w, p, left, longer, n, hp, hout, hd⟩ :=
    ev.lengthen_spec st b v
  · rw [hd] at h; cases h
  · rw [hd] at h
    cases h
    rcases hf with hp | ⟨i, hlength⟩
    · exact absurd rfl (Step.place_error hp : Fault.unwritable name ≠ _)
    · cases requiredLength_error hlength
  · rw [hd] at h ⊢
    have htyped := Step.typed_place hev.schema hst hv hp
    have hleft := htyped.fill _ (hout.hasType_left htyped.value)
    obtain ⟨hrefuses, hval⟩ := Step.write_unwritable hev.schema hst hleft h
    exact ⟨hrefuses, w, p, left, longer, hp, hout, hval⟩

/-- A refused approach changes nothing, or it moved the items out of an array that is too short. -/
theorem approach_unwritable (hev : ev.Typed) (hst : st.Fits ev.schema t)
    (hleaves : st.LeavesValue) (hv : HasType ev.schema v t)
    (h : (ev.approach st b v).result = .error (.unwritable name)) :
    st.Refuses name ∧
      (st.place v = .ok (.nothing v) ∧ (ev.approach st b v).value = v ∨
        ∃ (p : Place v) (left longer : Value), st.place v = .ok (.place v p) ∧
          Outgrown ev.schema b p.value left longer ∧ (ev.approach st b v).value = p.fill left) := by
  cases hfill : (ev.fillIn st b v).result with
  | error f =>
    unfold approach at h ⊢
    rw [(Written.andThen_of_error hfill).2] at h
    cases h
    obtain ⟨hrefuses, hp⟩ := fillIn_unwritable hev hst hv hfill
    have hval : (ev.fillIn st b v).value = v := hleaves v _ hp
    rw [hval] at hp
    exact ⟨hrefuses, .inl ⟨hp, by rw [(Written.andThen_of_error hfill).1, hval]⟩⟩
  | ok =>
    have hlen : (ev.lengthen st b (ev.fillIn st b v).value).result =
        .error (.unwritable name) := (Written.andThen_of_ok hfill).2.symm.trans h
    -- Creating succeeded, so there was nothing to create: the step refuses.
    have hrefuses := (lengthen_unwritable hev hst (hasType_fillIn hev hst hv) hlen).1
    obtain ⟨w, q, hq⟩ := fillIn_of_refuses hrefuses hfill
    obtain rfl : w = v := hleaves v _ hq
    obtain ⟨hval, hres⟩ := approach_of_place ev b hq
    obtain ⟨-, u, p, left, longer, hp, hout, hleft⟩ :=
      lengthen_unwritable hev hst hv (hres.symm.trans h)
    obtain rfl : u = w := hleaves _ _ hp
    exact ⟨hrefuses, .inr ⟨p, left, longer, hp, hout, hval.trans hleft⟩⟩

/-- A refused write is refused at a step. -/
theorem refusedAt_of_write (hev : ev.Typed) {atoms : List Atom} :
    ∀ {v : Value} {t : Ty} {site : Site}, HasType ev.schema v t → site.Fits ev.schema t →
      (ev.write payload v site atoms).result = .error (.unwritable name) →
      ∃ pre rest s, atoms = pre ++ rest ∧ ev.RefusedAt payload name v site pre rest s := by
  induction atoms with
  | nil => intro v t site _ _ h; rw [write] at h; cases site <;> cases h
  | cons a rest ih =>
    intro v t site hv hsite h
    cases hres : ev.resolve site a with
    | error f =>
      rw [write_error hres] at h
      cases h
      exact absurd rfl (resolve_error hres).ne_internal
    | ok r =>
      cases r with
      | site next =>
        rw [write_site hres] at h
        obtain ⟨pre, rest, s, rfl, hat⟩ := ih hv (fits_site hev hsite hres) h
        exact ⟨a :: pre, rest, s, rfl, .index hres hat⟩
      | step st =>
        have hst := fits_step hev hsite hres
        cases rest with
        | nil =>
          rw [write_last hres] at h
          exact ⟨[a], [], st, rfl, .last hres h⟩
        | cons b rest =>
          rw [write_step hres] at h
          cases ha : (ev.approach st b v).result with
          | error f =>
            rw [(Written.andThen_of_error ha).2] at h
            cases h
            exact ⟨[a], b :: rest, st, rfl, .approach hres ha⟩
          | ok =>
            rw [(Written.andThen_of_ok ha).2] at h
            have hv' := hasType_approach (b := b) hev hst hv
            unfold descend at h
            split at h
            · next hp =>
              cases h
              exact absurd rfl (Step.place_error hp : Fault.unwritable name ≠ _)
            · cases h
            · next p hp =>
              obtain ⟨hptype, hsite'⟩ := fits_place hev hst hv' hp
              obtain ⟨pre, rest', s, heq, hat⟩ := ih hptype hsite' h
              cases pre with
              | nil => cases hat
              | cons b' pre =>
                obtain ⟨rfl, rfl⟩ := List.cons.inj heq
                exact ⟨a :: b :: pre, rest', s, rfl, .further hres ha hp hat⟩

theorem RefusedAt.refuses (hev : ev.Typed) (hlaw : ev.schema.Coherent)
    (hat : ev.RefusedAt payload name v site pre rest s) :
    ∀ {t : Ty}, HasType ev.schema v t → site.Fits ev.schema t → s.Refuses name := by
  induction hat with
  | last hres h =>
    intro t hv hsite
    exact (deliver_unwritable hev (fits_step hev hsite hres) hv h).1
  | approach hres h =>
    intro t hv hsite
    have hst := fits_step hev hsite hres
    exact (approach_unwritable hev hst (hst.leavesValue_of_coherent hlaw) hv h).1
  | index hres _ ih => intro t hv hsite; exact ih hv (fits_site hev hsite hres)
  | further hres _ hp _ ih =>
    intro t hv hsite
    have hst := fits_step hev hsite hres
    obtain ⟨hptype, hsite'⟩ := fits_place hev hst (hasType_approach hev hst hv) hp
    exact ih hptype hsite'

/-! ## What the refusing member holds -/

/-- The value that holds the last step of a path, with that step, if no value before is null. -/
def holder? (ev : Evaluator) (v : Value) : Site → List Atom → Option (Value × Step)
  | _, [] => none
  | site, a :: rest =>
    match ev.resolve site a with
    | .error _ => none
    | .ok (.site next) => ev.holder? v next rest
    | .ok (.step s) =>
      if rest.isEmpty then some (v, s)
      else
        match s.read v with
        | .ok (some x) => ev.holder? x (.value x.typeOf s.origin) rest
        | _ => none

/-- The array behind a step that refuses is too short for the next atom and not empty, and its items
can be moved to a longer one. -/
def Spilled (ev : Evaluator) (s : Step) (b : Atom) (v x : Value) : Prop :=
  (∃ name, s.Refuses name) ∧ ∃ p : Place v, s.place v = .ok (.place v p) ∧ s.Shows ev.schema p ∧
    ∃ left longer, Outgrown ev.schema b x left longer ∧ left ≠ x

theorem holder?_site (hres : ev.resolve site a = .ok (.site next)) :
    ev.holder? v site (a :: rest) = ev.holder? v next rest := by
  rw [holder?, hres]

theorem holder?_last (hres : ev.resolve site a = .ok (.step st)) :
    ev.holder? v site [a] = some (v, st) := by
  simp only [holder?, hres, List.isEmpty_nil, if_true]

theorem holder?_step {x : Value} (hres : ev.resolve site a = .ok (.step st))
    (hx : st.read v = .ok (some x)) :
    ev.holder? v site (a :: b :: rest) =
      ev.holder? x (.value x.typeOf st.origin) (b :: rest) := by
  rw [holder?, hres]
  simp only [hx]
  rfl

theorem exists_read_of_holder? {r : Value × Step} (hres : ev.resolve site a = .ok (.step st))
    (h : ev.holder? v site (a :: b :: rest) = some r) : ∃ x, st.read v = .ok (some x) := by
  rw [holder?, hres] at h
  simp only [List.isEmpty_cons] at h
  split at h
  · next h' => cases h'
  · split at h
    · next x hx => exact ⟨x, hx⟩
    · cases h

/-- An approach that succeeds spills nothing. -/
theorem not_spilled_of_ok {x : Value} (hx : st.read v = .ok (some x))
    (ha : (ev.approach st b v).result = .ok ()) : ¬ ev.Spilled st b v x := by
  rintro ⟨⟨name, hrefuses⟩, p, hp, hshow, left, longer, hout, -⟩
  obtain rfl : p.value = x := Option.some.inj (Except.ok.inj (hshow.1.symm.trans hx))
  obtain ⟨n, hlen⟩ := lengthen_of_outgrown hp hout
  rw [(approach_of_place ev b hp).2, hlen] at ha
  exact Step.write_of_refuses hrefuses ha

/-- Behind an approach that succeeds, what spills is further down, where the place is shown. -/
theorem meets_spilled_iff {p : Place (ev.approach st b v).value}
    (hres : ev.resolve site a = .ok (.step st)) (ha : (ev.approach st b v).result = .ok ())
    (hp : st.place (ev.approach st b v).value = .ok (.place _ p)) :
    ev.Meets ev.Spilled v site (a :: b :: rest) ↔
      st.Shows ev.schema p ∧ st.read v = .ok (some p.value) ∧
        ev.Meets ev.Spilled p.value (.value p.value.typeOf st.origin) (b :: rest) := by
  rw [meets_step_iff hres]
  constructor
  · rintro (⟨x, hx, hspilled⟩ | ⟨q, -, hq, hshow, hx, hmeets⟩)
    · exact absurd hspilled (not_spilled_of_ok hx ha)
    · rw [hp] at hq
      cases hq
      exact ⟨hshow, hx, hmeets⟩
  · rintro ⟨hshow, hx, hmeets⟩
    exact .inr ⟨p, ha, hp, hshow, hx, hmeets⟩

/-- A member is no element behind the end of an array, so the way to it is read as before. -/
theorem holder?_beyond {x : Value} {o : Option Member} (hb : Beyond b x)
    (hrefuses : s.Refuses name) : ev.holder? x (.value x.typeOf o) (b :: rest) ≠ some (h, s) := by
  obtain ⟨i, item, -, hres, hread⟩ := resolve_beyond ev o hb
  intro hh
  cases rest with
  | nil => rw [holder?_last hres] at hh; cases hh; exact hrefuses
  | cons b' rest =>
    obtain ⟨x, hx⟩ := exists_read_of_holder? hres hh
    rw [hread] at hx
    cases hx

section Typed

variable (hev : ev.Typed) (hlaw : ev.schema.Coherent)

include hev hlaw

/-- What a refused approach does to the value that is read behind the step. -/
theorem read_refused_iff (hst : st.Fits ev.schema t) (hv : HasType ev.schema v t)
    (hres : ev.resolve site a = .ok (.step st))
    (ha : (ev.approach st b v).result = .error (.unwritable name)) :
    st.read (ev.approach st b v).value = st.read v ↔
      ¬ ev.Meets ev.Spilled v site (a :: b :: rest) := by
  have hmeets : ev.Meets ev.Spilled v site (a :: b :: rest) ↔
      ∃ x, st.read v = .ok (some x) ∧ ev.Spilled st b v x := by
    rw [meets_step_iff hres]
    refine ⟨fun h => h.elim id ?_, .inl⟩
    rintro ⟨p, ha', -⟩
    rw [ha] at ha'
    cases ha'
  rw [hmeets]
  obtain ⟨hrefuses, ⟨hp, hval⟩ | ⟨p, left, longer, hp, hout, hval⟩⟩ :=
    approach_unwritable hev hst (hst.leavesValue_of_coherent hlaw) hv ha
  · rw [hval]
    refine ⟨fun _ => ?_, fun _ => rfl⟩
    rintro ⟨x, -, -, q, hq, -⟩
    rw [hp] at hq
    cases hq
  · have htyped := Step.typed_place hev.schema hst hv hp
    have hleft := hout.hasType_left htyped.value
    rw [hval]
    by_cases hshow : st.Shows ev.schema p
    · rw [hshow.1, hshow.2 left hleft, Except.ok.injEq, Option.some.injEq]
      refine ⟨?_, fun h => Classical.byContradiction fun hne =>
        h ⟨p.value, rfl, ⟨name, hrefuses⟩, p, hp, hshow, left, longer, hout, hne⟩⟩
      rintro rfl ⟨x, hx, -, q, -, -, left', longer', hout', hne⟩
      cases hx
      exact hne (hout'.left_unique hout)
    · have hhides := (Step.shows_or_hides hev.schema hlaw hst hv hp).resolve_left hshow
      refine ⟨fun _ => ?_, fun _ => (hhides left hleft).1⟩
      rintro ⟨x, -, -, q, hq, hshow', -⟩
      rw [hp] at hq
      cases hq
      exact hshow hshow'

/-- The member at which a write was refused is where it was, and it holds what it held if and only
if the write spilled no array. -/
theorem holder?_refused_iff (hpay : payload.Typed ev.schema)
    (hat : ev.RefusedAt payload name v site pre rest s) :
    ∀ {t : Ty}, HasType ev.schema v t → site.Fits ev.schema t →
      ¬ ev.Meets ev.Overwritten v site (pre ++ rest) → ev.holder? v site pre = some (h, s) →
      ∃ h', ev.holder? (ev.write payload v site (pre ++ rest)).value site pre = some (h', s) ∧
        (s.read h' = s.read h ↔ ¬ ev.Meets ev.Spilled v site (pre ++ rest)) := by
  induction hat with
  | last hres hr =>
    intro t hv hsite _ hh
    rw [holder?_last hres] at hh
    cases hh
    refine ⟨h, ?_, fun _ => not_meets_last hres, fun _ => rfl⟩
    rw [List.append_nil, write_last hres, holder?_last hres,
      (deliver_unwritable hev (fits_step hev hsite hres) hv hr).2]
  | @approach v site a b rest s hres ha =>
    intro t hv hsite _ hh
    rw [holder?_last hres] at hh
    cases hh
    refine ⟨(ev.approach s b h).value, ?_,
      read_refused_iff hev hlaw (fits_step hev hsite hres) hv hres ha⟩
    rw [List.singleton_append, write_step hres, holder?_last hres,
      (Written.andThen_of_error ha).1]
  | @index v site next a pre rest s hres _ ih =>
    intro t hv hsite hover hh
    rw [holder?_site hres] at hh ⊢
    rw [List.cons_append, meets_index_iff hres] at hover ⊢
    rw [write_site hres]
    exact ih hv (fits_site hev hsite hres) hover hh
  | @further v site a b pre rest s st u p hres ha hp hat ih =>
    intro t hv hsite hover hh
    have hst := fits_step hev hsite hres
    obtain rfl : u = (ev.approach st b v).value := hst.leavesValue_of_coherent hlaw _ _ hp
    have hv' := hasType_approach (b := b) hev hst hv
    obtain ⟨hptype, hsite'⟩ := fits_place hev hst hv' hp
    obtain ⟨x, hx⟩ := exists_read_of_holder? hres hh
    rw [holder?_step hres hx] at hh
    -- The approach leaves what is read: a member is not behind the end of an array.
    have hread : st.read (ev.approach st b v).value = .ok (some x) :=
      (approach_read hev hlaw hst hv fun h => hover (.here hres hx h)).resolve_right fun hb =>
        holder?_beyond hb (hat.refuses hev hlaw hptype hsite') hh
    by_cases hshow : st.Shows ev.schema p
    · obtain rfl : p.value = x := Option.some.inj (Except.ok.inj (hshow.1.symm.trans hread))
      obtain ⟨h', hh', hiff⟩ :=
        ih hptype hsite' (fun h => hover (.further hres ha hp hshow hx h)) hh
      have hw := hasType_write hev hpay (b :: (pre ++ rest)) hptype hsite'
      refine ⟨h', ?_, hiff.trans (not_congr ?_)⟩
      · rw [List.cons_append, List.cons_append,
          holder?_step hres (read_after_shown hev hpay hst hv hres ha hp hshow), hw.typeOf_eq,
          ← hptype.typeOf_eq]
        exact hh'
      · exact ⟨fun hmeets => (meets_spilled_iff hres ha hp).2 ⟨hshow, hx, hmeets⟩,
          fun hmeets => ((meets_spilled_iff hres ha hp).1 hmeets).2.2⟩
    · refine ⟨h, ?_, fun _ hmeets => hshow ((meets_spilled_iff hres ha hp).1 hmeets).1,
        fun _ => rfl⟩
      rcases read_after hev hlaw hpay hst hv (b := b) hres with hafter | ⟨q, -, hq, hshow', -⟩
      · exact (holder?_step hres (hafter.trans hread)).trans hh
      · rw [hp] at hq
        cases hq
        exact absurd hshow' hshow

end Typed

/-- A write that is refused ends at a property without a setter.  If the property belongs to a value
that could be reached, and no default value was stored over one on the way, then it is still there,
and holds what it held if and only if no array was spilled. -/
theorem refused_keeps_iff (hev : ev.Typed) (hlaw : ev.schema.Coherent)
    (hpay : payload.Typed ev.schema) {root : Value} (hroot : HasType ev.schema root root.typeOf)
    {source : String}
    (hset : (ev.set source payload root).result = .error (.unwritable name)) :
    ∃ pre rest s, parse source = .ok (pre ++ rest) ∧
      ev.RefusedAt payload name root (start root) pre rest s ∧ s.Refuses name ∧
      (¬ ev.Meets ev.Overwritten root (start root) (pre ++ rest) →
        ∀ h, ev.holder? root (start root) pre = some (h, s) →
          ∃ h', ev.holder? (ev.set source payload root).value (start root) pre = some (h', s) ∧
            (s.read h' = s.read h ↔ ¬ ev.Meets ev.Spilled root (start root) (pre ++ rest))) := by
  cases hparse : parse source with
  | error f =>
    rw [set_of_parse_error hparse] at hset
    cases hset
    unfold parse at hparse
    split at hparse <;> cases hparse
  | ok atoms =>
    obtain ⟨hvalue, hresult⟩ := set_of_parse hparse ev payload root
    rw [hresult] at hset
    obtain ⟨pre, rest, s, rfl, hat⟩ := refusedAt_of_write hev hroot (fits_start root) hset
    refine ⟨pre, rest, s, rfl, hat, hat.refuses hev hlaw hroot (fits_start root),
      fun hover h hh => ?_⟩
    rw [hvalue]
    exact holder?_refused_iff hev hlaw hpay hat hroot (fits_start root) hover hh

set_option maxRecDepth 10000 in
/-- The labels of a shelf have no setter, and there are two of them. -/
theorem refused_keeps_iff_stocked :
    Shelf.evaluator.Typed ∧ Shelf.evaluator.schema.Coherent ∧
      (Payload.value (some (.text "x"))).Typed Shelf.evaluator.schema ∧
      HasType Shelf.evaluator.schema Shelf.stocked Shelf.stocked.typeOf ∧
      (Shelf.evaluator.set "labels[5]" (.value (some (.text "x"))) Shelf.stocked).result =
        .error (.unwritable "labels") ∧
      ∃ pre rest s, parse "labels[5]" = .ok (pre ++ rest) ∧
        Shelf.evaluator.RefusedAt (.value (some (.text "x"))) "labels" Shelf.stocked
          (start Shelf.stocked) pre rest s ∧
        s.Refuses "labels" ∧
        (¬ Shelf.evaluator.Meets Shelf.evaluator.Overwritten Shelf.stocked (start Shelf.stocked)
            (pre ++ rest) →
          ∀ h, Shelf.evaluator.holder? Shelf.stocked (start Shelf.stocked) pre = some (h, s) →
            ∃ h', Shelf.evaluator.holder?
                (Shelf.evaluator.set "labels[5]" (.value (some (.text "x"))) Shelf.stocked).value
                (start Shelf.stocked) pre = some (h', s) ∧
              (s.read h' = s.read h ↔ ¬ Shelf.evaluator.Meets Shelf.evaluator.Spilled
                Shelf.stocked (start Shelf.stocked) (pre ++ rest))) := by
  have hpay : (Payload.value (some (.text "x"))).Typed Shelf.evaluator.schema :=
    .of_checks _ _ (by decide)
  have hset : (Shelf.evaluator.set "labels[5]" (.value (some (.text "x"))) Shelf.stocked).result =
      .error (.unwritable "labels") := rfl
  have hlaw : Shelf.evaluator.schema.Coherent := Shelf.sharesSlots.coherent Shelf.leavesRecords
  exact ⟨Shelf.typed, hlaw, hpay, Shelf.hasType_stocked, hset,
    refused_keeps_iff Shelf.typed hlaw hpay Shelf.hasType_stocked hset⟩

/-! ## Cells that are lost -/

/-- An evaluator for a workbench whose cells can be read only. -/
def unset : Evaluator :=
  ⟨Catalog.schemaWith [⟨.getter, "getCells", "a0", .plain, []⟩], .empty⟩

/-- The cells on the workbench. -/
def unsetCells : Value := .seq .boxed (.int .u8) [.int .u8 1, .int .u8 2, .int .u8 3]

/-- A workbench with three cells. -/
def unsetBench : Value := (Catalog.workbench []).fresh.setSlot 14 unsetCells

set_option maxRecDepth 10000 in
/-- The write to a cell behind the third one is refused, and no cell is left. -/
theorem unset_cells_lost :
    HasType unset.schema unsetBench unsetBench.typeOf ∧
      (Payload.value (some (.int .u8 7))).Typed unset.schema ∧
      unset.get "cells" unsetBench = .ok (some unsetCells) ∧
      (unset.set "cells[5]" (.value (some (.int .u8 7))) unsetBench).result =
        .error (.unwritable "cells") ∧
      unset.get "cells" (unset.set "cells[5]" (.value (some (.int .u8 7))) unsetBench).value =
        .ok (some (.seq .boxed (.int .u8) [])) :=
  ⟨.of_checks _ _ (by decide), .of_checks _ _ (by decide), rfl, rfl, rfl⟩

end Evaluator

end ObjectPath
