import ObjectPath.Proofs.Frames

/-!
# Values that a write passes

On its way a write passes values that could be read before.  It should leave them as they are but
for what lies further down its path, or make a sequence longer.  It approaches each of them, and a
coherent member leaves two possibilities if no default value is stored over one that is read
(`Evaluator.approach_read`): the value is read as before, or it was an array that is too short, and
its items were moved out before a longer array was stored.

`Evaluator.Meets` says that something happens to a value that a write passes.
-/

namespace ObjectPath

/-- A value, or a sequence with further items behind its own. -/
inductive Value.GrownTo : Value → Value → Prop
  | refl (x : Value) : GrownTo x x
  | longer {k : SeqKind} {t : Ty} {xs ys : List Value} (h : xs <+: ys) :
      GrownTo (.seq k t xs) (.seq k t ys)

theorem Value.GrownTo.typeOf_eq {x y : Value} (h : x.GrownTo y) : y.typeOf = x.typeOf := by
  cases h <;> rfl

/-- The atom is an index behind the end of an array. -/
def Beyond (b : Atom) (x : Value) : Prop :=
  ∃ item items i, x = .seq .boxed item items ∧ b.index? = some i ∧ items.length ≤ i

theorem Outgrown.beyond {s : Schema} {b : Atom} {array left longer : Value}
    (h : Outgrown s b array left longer) : Beyond b array := by
  cases h with
  | mk hi hshort => exact ⟨_, _, _, rfl, hi, hshort⟩

namespace Evaluator

variable {ev : Evaluator} {site : Site} {a b : Atom} {rest : List Atom} {st : Step} {v x : Value}
  {t : Ty}

/-- Behind the end of an array an index resolves to an element that is not there. -/
theorem resolve_beyond (ev : Evaluator) (o : Option Member) (h : Beyond b x) :
    ∃ i item, b.index? = some i ∧
      ev.resolve (.value x.typeOf o) b = .ok (.step (.element i item o)) ∧
      (Step.element i item o).read x = .ok none := by
  obtain ⟨item, items, i, rfl, hi, hle⟩ := h
  refine ⟨i, item, hi, by simp only [Value.typeOf, resolve, hi], ?_⟩
  rw [Step.read_of_slot rfl, List.getElem?_eq_none hle]
  rfl

theorem read_beyond (ev : Evaluator) (o : Option Member) (rest : List Atom) (h : Beyond b x) :
    ∃ label, ev.read x (.value x.typeOf o) (b :: rest) = .ok (.null label) := by
  obtain ⟨i, item, -, hres, hread⟩ := resolve_beyond ev o h
  exact ⟨_, read_null hres hread⟩

/-- Going on to a value that can be read, a write comes to a step behind which `x` is read in the
holder `v`, with the atom `b` next, and `bad` holds of them.  It goes on where its place shows what
was read before. -/
inductive Meets (ev : Evaluator) (bad : Step → Atom → (v : Value) → (x : Value) → Prop) :
    Value → Site → List Atom → Prop
  | here {v : Value} {site : Site} {a b : Atom} {rest : List Atom} {s : Step} {x : Value}
      (hres : ev.resolve site a = .ok (.step s)) (hx : s.read v = .ok (some x)) (h : bad s b v x) :
      Meets ev bad v site (a :: b :: rest)
  | index {v : Value} {site next : Site} {a : Atom} {rest : List Atom}
      (hres : ev.resolve site a = .ok (.site next)) (h : Meets ev bad v next rest) :
      Meets ev bad v site (a :: rest)
  | further {v : Value} {site : Site} {a b : Atom} {rest : List Atom} {s : Step}
      {p : Place (ev.approach s b v).value} (hres : ev.resolve site a = .ok (.step s))
      (ha : (ev.approach s b v).result = .ok ())
      (hp : s.place (ev.approach s b v).value = .ok (.place _ p)) (hshow : s.Shows ev.schema p)
      (hx : s.read v = .ok (some p.value))
      (h : Meets ev bad p.value (.value p.value.typeOf s.origin) (b :: rest)) :
      Meets ev bad v site (a :: b :: rest)

/-- A write that comes to a step meets something there, or behind the place that is shown. -/
theorem meets_step_iff {bad : Step → Atom → Value → Value → Prop}
    (hres : ev.resolve site a = .ok (.step st)) :
    ev.Meets bad v site (a :: b :: rest) ↔
      (∃ x, st.read v = .ok (some x) ∧ bad st b v x) ∨
        ∃ p : Place (ev.approach st b v).value, (ev.approach st b v).result = .ok () ∧
          st.place (ev.approach st b v).value = .ok (.place _ p) ∧ st.Shows ev.schema p ∧
          st.read v = .ok (some p.value) ∧
          ev.Meets bad p.value (.value p.value.typeOf st.origin) (b :: rest) := by
  constructor
  · intro h
    cases h with
    | here hres' hx h =>
      rw [hres] at hres'
      cases hres'
      exact .inl ⟨_, hx, h⟩
    | index hres' => rw [hres] at hres'; cases hres'
    | further hres' ha hp hshow hx h =>
      rw [hres] at hres'
      cases hres'
      exact .inr ⟨_, ha, hp, hshow, hx, h⟩
  · rintro (⟨x, hx, h⟩ | ⟨p, ha, hp, hshow, hx, h⟩)
    · exact .here hres hx h
    · exact .further hres ha hp hshow hx h

/-- A write meets nothing at its last step. -/
theorem not_meets_last {bad : Step → Atom → Value → Value → Prop}
    (hres : ev.resolve site a = .ok (.step st)) : ¬ ev.Meets bad v site [a] := by
  intro h
  cases h with
  | index hres' => rw [hres] at hres'; cases hres'

theorem meets_index_iff {bad : Step → Atom → Value → Value → Prop} {next : Site}
    (hres : ev.resolve site a = .ok (.site next)) :
    ev.Meets bad v site (a :: rest) ↔ ev.Meets bad v next rest := by
  refine ⟨fun h => ?_, .index hres⟩
  cases h with
  | here hres' | further hres' => rw [hres] at hres'; cases hres'
  | index hres' h => rw [hres] at hres'; cases hres'; exact h

/-- A default value takes the place of a value that is read: it counted as missing, and creating one
changes what is read. -/
def Overwritten (ev : Evaluator) (s : Step) (b : Atom) (v x : Value) : Prop :=
  s.read (ev.fillIn s b v).value ≠ .ok (some x)

/-- Lengthening an array behind a step leaves what is read there, or it is the array that is read,
and its items are moved to a longer one before that is stored. -/
theorem lengthen_read (hev : ev.Typed) (hlaw : ev.schema.Coherent) (hst : st.Fits ev.schema t)
    (hv : HasType ev.schema v t) (hx : st.read v = .ok (some x)) :
    st.read (ev.lengthen st b v).value = .ok (some x) ∨
      ∃ (p : Place v) (left longer : Value) (n : Nat), st.place v = .ok (.place v p) ∧
        st.Shows ev.schema p ∧ p.value = x ∧ Outgrown ev.schema b x left longer ∧
        ev.lengthen st b v = (st.write ev.schema (p.fill left) (some longer)).after
          (.grew st.label n) := by
  obtain h | ⟨f, h, -⟩ | ⟨p, left, longer, n, hp, hout, h⟩ :=
    ev.lengthen_spec_of_leaves b (hst.leavesValue_of_coherent hlaw) v
  · rw [h]; exact .inl hx
  · rw [h]; exact .inl hx
  · have htyped := Step.typed_place hev.schema hst hv hp
    rcases Step.shows_or_hides hev.schema hlaw hst hv hp with hshows | hhides
    · have hval : p.value = x := Option.some.inj (Except.ok.inj (hshows.1.symm.trans hx))
      exact .inr ⟨p, left, longer, n, hp, hshows, hval, hval ▸ hout, h⟩
    · refine .inl ?_
      rw [h]
      obtain ⟨-, hwrite⟩ := hhides left (hout.hasType_left htyped.value)
      refine (hwrite (some longer) fun y hy => ?_).trans hx
      cases hy
      exact (hout.hasType_longer hev.schema htyped.value).self

/-- What approaching a step does to a value that is read there, if no default value takes its place:
it is read as before, or it was an array that is too short. -/
theorem approach_read (hev : ev.Typed) (hlaw : ev.schema.Coherent) (hst : st.Fits ev.schema t)
    (hv : HasType ev.schema v t) (hover : ¬ ev.Overwritten st b v x) :
    st.read (ev.approach st b v).value = .ok (some x) ∨ Beyond b x := by
  have hx := Classical.not_not.1 hover
  unfold approach
  cases hfill : (ev.fillIn st b v).result with
  | error f => rw [(Written.andThen_of_error hfill).1]; exact .inl hx
  | ok =>
    rw [(Written.andThen_of_ok hfill).1]
    rcases lengthen_read (b := b) hev hlaw hst (hasType_fillIn hev hst hv) hx with
      hsame | ⟨p, left, longer, n, -, -, -, hout, -⟩
    · exact .inl hsame
    · exact .inr hout.beyond

/-- Where the place shows what is read, a step reads what the write behind it left. -/
theorem read_after_shown (hev : ev.Typed) {payload : Payload} (hpay : payload.Typed ev.schema)
    (hst : st.Fits ev.schema t) (hv : HasType ev.schema v t)
    (hres : ev.resolve site a = .ok (.step st)) (ha : (ev.approach st b v).result = .ok ())
    {u : Value} {p : Place u} (hp : st.place (ev.approach st b v).value = .ok (.place u p))
    (hshow : st.Shows ev.schema p) :
    st.read (ev.write payload v site (a :: b :: rest)).value = .ok (some
      (ev.write payload p.value (.value p.value.typeOf st.origin) (b :: rest)).value) := by
  obtain ⟨hptype, hsite'⟩ := fits_place hev hst (hasType_approach hev hst hv) hp
  rw [write_step hres, (Written.andThen_of_ok ha).1, descend_of_place hp]
  exact hshow.2 _ (hasType_write hev hpay (b :: rest) hptype hsite')

/-- What a step reads after a write: what it read after being approached, unless the place it leads
to then shows what is read, and the write went on there. -/
theorem read_after (hev : ev.Typed) (hlaw : ev.schema.Coherent) {payload : Payload}
    (hpay : payload.Typed ev.schema) (hst : st.Fits ev.schema t) (hv : HasType ev.schema v t)
    (hres : ev.resolve site a = .ok (.step st)) :
    st.read (ev.write payload v site (a :: b :: rest)).value =
        st.read (ev.approach st b v).value ∨
      ∃ p : Place (ev.approach st b v).value, (ev.approach st b v).result = .ok () ∧
        st.place (ev.approach st b v).value = .ok (.place _ p) ∧ st.Shows ev.schema p ∧
        st.read (ev.write payload v site (a :: b :: rest)).value = .ok (some
          (ev.write payload p.value (.value p.value.typeOf st.origin) (b :: rest)).value) := by
  rw [write_step hres]
  cases ha : (ev.approach st b v).result with
  | error f => exact .inl (by rw [(Written.andThen_of_error ha).1])
  | ok =>
    rw [(Written.andThen_of_ok ha).1]
    cases hp : st.place (ev.approach st b v).value with
    | error f => exact .inl (by rw [descend, hp]; rfl)
    | ok o =>
      have hleft := hst.leavesValue_of_coherent hlaw _ _ hp
      cases o with
      | nothing u =>
        refine .inl ?_
        rw [descend, hp]
        exact congrArg st.read hleft
      | place u p =>
        obtain rfl : u = (ev.approach st b v).value := hleft
        have hv' := hasType_approach (b := b) hev hst hv
        obtain ⟨hptype, hsite'⟩ := fits_place hev hst hv' hp
        rcases Step.shows_or_hides hev.schema hlaw hst hv' hp with hshows | hhides
        · refine .inr ⟨p, rfl, rfl, hshows, ?_⟩
          rw [← (Written.andThen_of_ok ha).1, ← write_step hres]
          exact read_after_shown hev hpay hst hv hres ha hp hshows
        · rw [descend_of_place hp]
          exact .inl (hhides _ (hasType_write hev hpay (b :: rest) hptype hsite')).1

end Evaluator

end ObjectPath
