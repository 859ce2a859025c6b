import ObjectPath.Proofs.Atomicity
import ObjectPath.Proofs.Delivery
import ObjectPath.Proofs.Passing

/-!
# Only nulls are created

A write should create only values that are null, and keep every value that it passes: the old value
is still read there, changed at most further down the path, and a sequence may have become longer
(`CreatesOnlyNulls`).

It does so if and only if two things do not happen on its way (`Evaluator.createsOnlyNulls_iff`).  A
value that a getter reads without offering its place counts as missing, and if there is a setter, a
default value is stored over it.  And the items of an array that is too short are moved out before
the longer array is stored, so they are lost if there is no setter, or if it stores something else.
-/

namespace ObjectPath

/-! ## Sequences that become longer -/

/-- Changing an item behind the end of a list keeps the list at the front. -/
theorem ItemsKept.prefix_iff {k : SeqKind} {i : Nat} {xs ys items : List Value}
    (h : ItemsKept k i xs ys) (hk : k.growable = false) (hi : items.length ≤ i) :
    items <+: xs ↔ items <+: ys := by
  have hlen := h.length_eq hk
  rw [List.prefix_iff_getElem?, List.prefix_iff_getElem?]
  refine ⟨fun hpre j hj => ?_, fun hpre j hj => ?_⟩
  · have hx := hpre j hj
    have hlt : j < xs.length := (List.getElem?_eq_some_iff.1 hx).1
    rw [h.items j (by omega) hlt, hx]
  · have hy := hpre j hj
    have hlt : j < ys.length := (List.getElem?_eq_some_iff.1 hy).1
    rw [← h.items j (by omega) (by omega), hy]

/-- Touching an item behind the end of an array keeps what the array has grown to. -/
theorem Step.Touches.grownTo_iff {s : Schema} {item t : Ty} {items : List Value} {i : Nat}
    {o : Option Member} {u w : Value} (h : (Step.element i t o).Touches s u w)
    (hi : items.length ≤ i) :
    (Value.seq .boxed item items).GrownTo u ↔ (Value.seq .boxed item items).GrownTo w := by
  cases h with
  | @item _ _ u' _ k xs ys hkept =>
    constructor
    · intro h
      cases h with
      | refl => exact .longer ((hkept.prefix_iff rfl hi).1 (List.prefix_refl _))
      | longer h => exact .longer ((hkept.prefix_iff rfl hi).1 h)
    · intro h
      cases h with
      | refl => exact .longer ((hkept.prefix_iff rfl hi).2 (List.prefix_refl _))
      | longer h => exact .longer ((hkept.prefix_iff rfl hi).2 h)

namespace Evaluator

variable {ev : Evaluator} {payload : Payload} {site next : Site} {a b : Atom} {rest : List Atom}
  {st : Step} {v w x y new : Value} {o : Option Member} {t : Ty}

/-! ## What should hold of the values that are passed -/

/-- `w` is `v`, made longer if it is a sequence, and then changed at most where the atoms lead. -/
def Changed (ev : Evaluator) (site : Site) (atoms : List Atom) (v w : Value) : Prop :=
  ∃ u, v.GrownTo u ∧ (w = u ∨ ∃ s, ev.first? site atoms = some s ∧ s.Touches ev.schema u w)

/-- What is read in `v` before the end of a path is read in `w` too, with changes at most further
down the path. -/
def Keeps (ev : Evaluator) (v : Value) (site : Site) (atoms : List Atom) (w : Value) : Prop :=
  ∀ q r old s, atoms = q ++ r → r ≠ [] → ev.read v site q = .ok (.found old s) →
    ∃ new, ev.read w site q = .ok (.found new s) ∧
      ev.Changed (.value old.typeOf s.origin) r old new

/-- A write that goes on with the atom `b` comes to the last step `s` of `path`, where no place is
offered, and stores a default value there.  `w` is what this leaves of `v`. -/
def Creates (ev : Evaluator) (v : Value) (site : Site) (path : List Atom) (b : Atom) (s : Step)
    (w : Value) : Prop :=
  ∃ u left fill d, ev.ComesTo v site path s u fill ∧ s.place u = .ok (.nothing left) ∧
    s.create ev.schema b = .ok d ∧ (s.write ev.schema left (some d)).result = .ok () ∧
      w = fill (s.write ev.schema left (some d)).value

/-- What can be read before the end of a path is still read there when a default value has been
stored for it. -/
def Spares (ev : Evaluator) (v : Value) (site : Site) (atoms : List Atom) : Prop :=
  ∀ q b r old s w, atoms = q ++ b :: r → ev.read v site q = .ok (.found old s) →
    ev.Creates v site q b s w → ev.read w site q = .ok (.found old s)

/-- A write from `v` to `w` creates only values that were null and keeps the values it passes. -/
structure CreatesOnlyNulls (ev : Evaluator) (v : Value) (atoms : List Atom) (w : Value) : Prop where
  created : ev.Spares v (start v) atoms
  kept : ev.Keeps v (start v) atoms w

/-- A value that is read behind a step is lost when a write approaches the step: what is read then
is neither the value nor a longer sequence. -/
def Lost (ev : Evaluator) (s : Step) (b : Atom) (v x : Value) : Prop :=
  ∀ y, s.read (ev.approach s b v).value = .ok (some y) → ¬ x.GrownTo y

theorem Changed.of_grownTo (h : v.GrownTo w) (atoms : List Atom) : ev.Changed site atoms v w :=
  ⟨w, h, .inl rfl⟩

/-- An array that is changed behind its end has only become longer. -/
theorem Changed.grownTo (hb : Beyond b x)
    (h : ev.Changed (.value x.typeOf o) (b :: rest) x new) : x.GrownTo new := by
  obtain ⟨i, item, hi, hres, -⟩ := resolve_beyond ev o hb
  obtain ⟨u, hu, rfl | ⟨s, hs, htouch⟩⟩ := h
  · exact hu
  · simp only [first?, hres, Option.some.injEq] at hs
    subst hs
    obtain ⟨item', items, i', rfl, hi', hle⟩ := hb
    rw [hi] at hi'
    cases hi'
    exact (htouch.grownTo_iff hle).1 hu

/-! ## Values that are kept, step by step -/

theorem keeps_refl (atoms : List Atom) : ev.Keeps v site atoms v :=
  fun _ r old _ _ _ h => ⟨old, h, .of_grownTo (.refl old) r⟩

theorem keeps_nil : ev.Keeps v site [] w := by
  intro q r old s h hr _
  obtain ⟨-, rfl⟩ := List.append_eq_nil_iff.1 h.symm
  exact absurd rfl hr

theorem keeps_index (hres : ev.resolve site a = .ok (.site next)) :
    ev.Keeps v site (a :: rest) w ↔ ev.Keeps v next rest w := by
  constructor
  · intro h q r old s hq hr hread
    obtain ⟨new, hnew, hchanged⟩ := h (a :: q) r old s (by rw [hq]; rfl) hr
      (by rw [read_site hres]; exact hread)
    rw [read_site hres] at hnew
    exact ⟨new, hnew, hchanged⟩
  · intro h q r old s hq hr hread
    cases q with
    | nil => cases hread
    | cons a' q =>
      obtain ⟨rfl, hrest⟩ := List.cons.inj hq
      rw [read_site hres] at hread ⊢
      exact h q r old s hrest hr hread

/-- The last step of a path is not passed. -/
theorem keeps_last : ev.Keeps v site [a] w := by
  intro q r old s hq hr hread
  cases q with
  | nil => cases hread
  | cons a' q =>
    obtain ⟨-, hq⟩ := List.cons.inj hq
    obtain ⟨-, rfl⟩ := List.append_eq_nil_iff.1 hq.symm
    exact absurd rfl hr

/-- What is passed is kept if what a step reads is, and what is passed in it. -/
theorem keeps_step (hres : ev.resolve site a = .ok (.step st))
    (h : ∀ x, st.read v = .ok (some x) → ∃ new, st.read w = .ok (some new) ∧
      new.typeOf = x.typeOf ∧ ev.Changed (.value x.typeOf st.origin) (b :: rest) x new ∧
      ev.Keeps x (.value x.typeOf st.origin) (b :: rest) new) :
    ev.Keeps v site (a :: b :: rest) w := by
  intro q r old s hq hr hread
  cases q with
  | nil => cases hread
  | cons a' q =>
    obtain ⟨rfl, hrest⟩ := List.cons.inj hq
    cases hx : st.read v with
    | error f => rw [read_refused hres hx] at hread; cases hread
    | ok c =>
      cases c with
      | none => rw [read_null hres hx] at hread; cases hread
      | some x =>
        obtain ⟨new, hnew, htype, hchanged, hkeeps⟩ := h x hx
        cases q with
        | nil =>
          rw [read_last hres hx] at hread
          cases hread
          obtain rfl : b :: rest = r := hrest
          exact ⟨new, read_last hres hnew, hchanged⟩
        | cons b' q =>
          rw [read_step hres hx] at hread
          rw [read_step hres hnew, htype]
          obtain rfl : b = b' := (List.cons.inj hrest).1
          exact hkeeps (b :: q) r old s hrest hr hread

/-- A value that is found behind a step is read there. -/
theorem read_below_of_found {s : Step} (hres : ev.resolve site a = .ok (.step st))
    (h : ev.read v site (a :: b :: rest) = .ok (.found y s)) : ∃ x, st.read v = .ok (some x) ∧
      ev.read x (.value x.typeOf st.origin) (b :: rest) = .ok (.found y s) := by
  obtain ⟨x, hx⟩ := read_of_found hres h
  exact ⟨x, hx, (read_step hres hx).symm.trans h⟩

theorem read_last_of_found {s : Step} (hres : ev.resolve site a = .ok (.step st))
    (h : ev.read v site [a] = .ok (.found y s)) : st.read v = .ok (some y) := by
  obtain ⟨x, hx⟩ := read_of_found hres h
  rw [read_last hres hx] at h
  cases h
  exact hx

theorem changed_of_keeps (hres : ev.resolve site a = .ok (.step st))
    (hx : st.read v = .ok (some x)) (h : ev.Keeps v site (a :: b :: rest) w) :
    ∃ new, st.read w = .ok (some new) ∧
      ev.Changed (.value x.typeOf st.origin) (b :: rest) x new := by
  obtain ⟨new, hnew, hchanged⟩ := h [a] (b :: rest) x st rfl (by simp) (read_last hres hx)
  exact ⟨new, read_last_of_found hres hnew, hchanged⟩

theorem keeps_of_keeps (hres : ev.resolve site a = .ok (.step st))
    (hx : st.read v = .ok (some x)) (hnew : st.read w = .ok (some new))
    (htype : new.typeOf = x.typeOf) (h : ev.Keeps v site (a :: b :: rest) w) :
    ev.Keeps x (.value x.typeOf st.origin) (b :: rest) new := by
  intro q r old s hq hr hread
  cases q with
  | nil => cases hread
  | cons b' q =>
    obtain ⟨new', hnew', hchanged⟩ := h (a :: b' :: q) r old s (by rw [hq]; rfl) hr
      (by rw [read_step hres hx]; exact hread)
    rw [read_step hres hnew, htype] at hnew'
    exact ⟨new', hnew', hchanged⟩

/-- Nothing is passed behind the end of an array. -/
theorem keeps_beyond (hb : Beyond b x) : ev.Keeps x (.value x.typeOf o) (b :: rest) new := by
  intro q r old s hq hr hread
  cases q with
  | nil => cases hread
  | cons b' q =>
    obtain ⟨rfl, -⟩ := List.cons.inj hq
    obtain ⟨label, hnull⟩ := read_beyond ev o q hb
    rw [hnull] at hread
    cases hread

/-! ## Default values that are stored -/

/-- A value that is read where a default value takes its place: no place was offered there, and the
default value was stored. -/
theorem Overwritten.stored (hst : st.Fits ev.schema t) (hlaw : ev.schema.Coherent)
    (hx : st.read v = .ok (some x)) (h : ev.Overwritten st b v x) :
    ∃ d, st.place v = .ok (.nothing v) ∧ st.create ev.schema b = .ok d ∧
      (st.write ev.schema v (some d)).result = .ok () ∧
      st.read (st.write ev.schema v (some d)).value ≠ .ok (some x) := by
  unfold Overwritten at h
  cases hp : st.place v with
  | error f =>
    simp only [fillIn, hp] at h
    exact absurd hx h
  | ok o =>
    have hleft := hst.leavesValue_of_coherent hlaw v _ hp
    cases o with
    | place u p =>
      obtain rfl : u = v := hleft
      rw [fillIn_of_place hp] at h
      exact absurd hx h
    | nothing u =>
      obtain rfl : u = v := hleft
      cases hd : st.create ev.schema b with
      | error f =>
        simp only [fillIn, hp, hd] at h
        exact absurd hx h
      | ok d =>
        rw [fillIn_of_create hp hd] at h
        refine ⟨d, rfl, rfl, ?_, h⟩
        cases hwrite : (st.write ev.schema u (some d)).result with
        | ok => rfl
        | error f =>
          -- A default value that is not stored changes nothing.
          refine absurd ?_ h
          rw [← hx]
          exact congrArg st.read (Step.write_value_of_error hwrite)

/-- A default value that was stored, though there was a value to read, has taken its place. -/
theorem overwritten_of_stored {d : Value} (hp : st.place v = .ok (.nothing w))
    (hd : st.create ev.schema b = .ok d)
    (h : st.read (st.write ev.schema w (some d)).value ≠ .ok (some x)) :
    ev.Overwritten st b v x := by
  unfold Overwritten
  rw [fillIn_of_create hp hd]
  exact h

/-- What a default value is stored in is put back typed. -/
theorem ComesTo.hasType_stored (hev : ev.Typed) {u left d : Value} {q : List Atom} {s : Step}
    {fill : Value → Value} (h : ev.ComesTo v site q s u fill) (hp : s.place u = .ok (.nothing left))
    (hd : s.create ev.schema b = .ok d) (hv : HasType ev.schema v t)
    (hsite : site.Fits ev.schema t) :
    HasType ev.schema (fill (s.write ev.schema left (some d)).value) t := by
  obtain ⟨t', hu, hs, hfill⟩ := h.hasType_fill hev hv hsite
  refine hfill _ (s.hasType_write hev.schema hs (Step.hasType_left hev.schema hs hu hp) ?_)
  rintro y hy
  exact Option.some.inj hy ▸ (Step.hasType_create hev.schema hd).self

/-! ## The two directions -/

/-- What is read once a step is approached: the same, or a longer array. -/
theorem read_approach (hev : ev.Typed) (hlaw : ev.schema.Coherent) (hst : st.Fits ev.schema t)
    (hv : HasType ev.schema v t) (hover : ¬ ev.Overwritten st b v x) (hlost : ¬ ev.Lost st b v x) :
    ∃ y, st.read (ev.approach st b v).value = .ok (some y) ∧ x.GrownTo y ∧
      (y = x ∨ Beyond b x) := by
  rcases approach_read hev hlaw hst hv hover with hsame | hb
  · exact ⟨x, hsame, .refl x, .inl rfl⟩
  · obtain ⟨y, hnot⟩ := Classical.not_forall.1 hlost
    obtain ⟨hy, hgrown⟩ := Classical.not_imp.1 hnot
    exact ⟨y, hy, Classical.not_not.1 hgrown, .inr hb⟩

section Typed

variable (hev : ev.Typed) (hlaw : ev.schema.Coherent)

include hev hlaw

/-- Where no default value takes the place of a value that is read, what is stored on the way leaves
what is read there: by induction on the way to where it is stored. -/
theorem spares_of_not_meets {atoms q r : List Atom} {u left old d : Value} {s : Step}
    {fill : Value → Value} (h : ev.ComesTo v site q s u fill) (hp : s.place u = .ok (.nothing left))
    (hd : s.create ev.schema b = .ok d) :
    ∀ {t : Ty}, HasType ev.schema v t → site.Fits ev.schema t → atoms = q ++ b :: r →
      ¬ ev.Meets ev.Overwritten v site atoms → ev.read v site q = .ok (.found old s) →
        ev.read (fill (s.write ev.schema left (some d)).value) site q = .ok (.found old s) := by
  induction h generalizing atoms with
  | @last v site a s hres =>
    rintro t hv hsite rfl hmeets hread
    have hx := read_last_of_found hres hread
    have hkept : s.read (s.write ev.schema left (some d)).value = .ok (some old) :=
      Classical.not_not.1 fun hnot => hmeets (.here hres hx (overwritten_of_stored hp hd hnot))
    exact read_last hres hkept
  | index hres _ ih =>
    rintro t hv hsite rfl hmeets hread
    rw [read_site hres] at hread ⊢
    exact ih hp hd hv (fits_site hev hsite hres) rfl (fun h => hmeets (.index hres h)) hread
  | @further v w site a b' rest s st fill u p hres ha hp' hcomes ih =>
    rintro t hv hsite rfl hmeets hread
    have hst := fits_step hev hsite hres
    have hv' := hasType_approach (b := b') hev hst hv
    obtain rfl : u = (ev.approach st b' v).value :=
      hst.leavesValue_of_coherent hlaw _ _ hp'
    obtain ⟨hptype, hsite'⟩ := fits_place hev hst hv' hp'
    obtain ⟨x, hx, hbelow⟩ := read_below_of_found hres hread
    have hnot : ¬ ev.Overwritten st b' v x := fun h => hmeets (.here hres hx h)
    -- What was read behind the step is read there when the step has been approached.
    have hsame : st.read (ev.approach st b' v).value = .ok (some x) := by
      refine (approach_read hev hlaw hst hv hnot).resolve_right fun hb => ?_
      obtain ⟨label, hnull⟩ := read_beyond ev st.origin rest hb
      rw [hnull] at hbelow
      cases hbelow
    have hfilled := hcomes.hasType_stored hev hp hd hptype hsite'
    rcases Step.shows_or_hides hev.schema hlaw hst hv' hp' with hshow | hhide
    · obtain rfl : p.value = x := Option.some.inj (Except.ok.inj (hshow.1.symm.trans hsame))
      refine (read_step hres (hshow.2 _ hfilled)).trans ?_
      rw [hfilled.typeOf_eq, ← hptype.typeOf_eq]
      exact ih hp hd hptype hsite' rfl
        (fun h => hmeets (.further hres ha hp' hshow hx h)) hbelow
    · exact (read_step hres ((hhide _ hfilled).1.trans hsame)).trans hbelow

/-- A default value that takes the place of a value that is read was stored there. -/
theorem not_spares_of_meets {atoms : List Atom} (h : ev.Meets ev.Overwritten v site atoms) :
    ∀ {t : Ty}, HasType ev.schema v t → site.Fits ev.schema t → ¬ ev.Spares v site atoms := by
  induction h with
  | @here v site a b rest st x hres hx hover =>
    intro t hv hsite hspares
    obtain ⟨d, hp, hd, hok, hnot⟩ := hover.stored (fits_step hev hsite hres) hlaw hx
    have hread := hspares [a] b rest x st _ rfl (read_last hres hx)
      ⟨v, v, id, d, .last hres, hp, hd, hok, rfl⟩
    exact hnot (read_last_of_found hres hread)
  | index hres _ ih =>
    intro t hv hsite hspares
    refine ih hv (fits_site hev hsite hres) ?_
    rintro q b r old s _ rfl hread ⟨u, left, fill, d, hcomes, hp, hd, hok, rfl⟩
    rw [← read_site hres] at hread ⊢
    exact hspares _ b r old s _ rfl hread ⟨u, left, fill, d, .index hres hcomes, hp, hd, hok, rfl⟩
  | @further v site a b rest st p hres ha hp hshow hx _ ih =>
    intro t hv hsite hspares
    have hst := fits_step hev hsite hres
    have hv' := hasType_approach (b := b) hev hst hv
    obtain ⟨hptype, hsite'⟩ := fits_place hev hst hv' hp
    refine ih hptype hsite' ?_
    rintro q b' r old s _ hq hread ⟨u, left, fill, d, hcomes, hp', hd, hok, rfl⟩
    cases q with
    | nil => cases hread
    | cons c q =>
      obtain ⟨rfl, rfl⟩ := List.cons.inj hq
      have hfilled := hcomes.hasType_stored hev hp' hd hptype hsite'
      have hkept := hspares (a :: b :: q) b' r old s _ rfl ((read_step hres hx).trans hread)
        ⟨u, left, p.fill ∘ fill, d, .further hres ha hp hcomes, hp', hd, hok, rfl⟩
      have hbelow := (read_step hres (hshow.2 _ hfilled)).symm.trans hkept
      rwa [hfilled.typeOf_eq, ← hptype.typeOf_eq] at hbelow

theorem spares_iff {atoms : List Atom} (hv : HasType ev.schema v t)
    (hsite : site.Fits ev.schema t) :
    ev.Spares v site atoms ↔ ¬ ev.Meets ev.Overwritten v site atoms := by
  constructor
  · exact fun h hmeets => not_spares_of_meets hev hlaw hmeets hv hsite h
  · rintro h q b r old s _ hatoms hread ⟨u, left, fill, d, hcomes, hp, hd, -, rfl⟩
    exact spares_of_not_meets hev hlaw hcomes hp hd hv hsite hatoms h hread

variable (hpay : payload.Typed ev.schema)

include hpay

/-- A write that stores no default value over another one and loses nothing keeps what it
passes. -/
theorem keeps_write {atoms : List Atom} :
    ∀ {v : Value} {t : Ty} {site : Site}, HasType ev.schema v t → site.Fits ev.schema t →
      ¬ ev.Meets ev.Overwritten v site atoms → ¬ ev.Meets ev.Lost v site atoms →
      ev.Keeps v site atoms (ev.write payload v site atoms).value := by
  induction atoms with
  | nil => intros; exact keeps_nil
  | cons a rest ih =>
    intro v t site hv hsite hover hlost
    cases hres : ev.resolve site a with
    | error f => rw [write_error hres]; exact keeps_refl _
    | ok r =>
      cases r with
      | site next =>
        rw [write_site hres, keeps_index hres]
        exact ih hv (fits_site hev hsite hres) (fun h => hover (.index hres h))
          fun h => hlost (.index hres h)
      | step st =>
        cases rest with
        | nil => exact keeps_last
        | cons b rest =>
          have hst := fits_step hev hsite hres
          have hv' := hasType_approach (b := b) hev hst hv
          refine keeps_step hres fun x hx => ?_
          have hxtype := Step.hasType_read hev.schema hst hv hx
          obtain ⟨y, hy, hgrown, hyx⟩ := read_approach hev hlaw hst hv
            (fun h => hover (.here hres hx h)) fun h => hlost (.here hres hx h)
          rcases read_after hev hlaw hpay hst hv (b := b) hres with
            hafter | ⟨p, ha, hp, hshow, hafter⟩
          · refine ⟨y, hafter.trans hy, hgrown.typeOf_eq, .of_grownTo hgrown _, ?_⟩
            rcases hyx with rfl | hb
            · exact keeps_refl _
            · exact keeps_beyond hb
          · obtain rfl : p.value = y := by simpa using hshow.1.symm.trans hy
            obtain ⟨hptype, hsite'⟩ := fits_place hev hst hv' hp
            have hw := hasType_write hev hpay (b :: rest) hptype hsite'
            have hsame : p.value.typeOf = x.typeOf := hgrown.typeOf_eq
            refine ⟨_, hafter, hw.typeOf_eq.trans hxtype.typeOf_eq.symm, ⟨p.value, hgrown, ?_⟩, ?_⟩
            · rw [← hsame]
              exact touches_write hev payload (b :: rest) hptype hsite'
            · rcases hyx with hyx | hb
              · rw [← hyx]
                have hx' : st.read v = .ok (some p.value) := hyx ▸ hx
                exact ih hptype hsite' (fun h => hover (.further hres ha hp hshow hx' h))
                  fun h => hlost (.further hres ha hp hshow hx' h)
              · exact keeps_beyond hb

/-- A write that keeps what it passes, and stores no default value over another one, loses
nothing. -/
theorem not_lost_of_keeps {atoms : List Atom} (h : ev.Meets ev.Lost v site atoms) :
    ∀ {t : Ty}, HasType ev.schema v t → site.Fits ev.schema t →
      ¬ ev.Meets ev.Overwritten v site atoms →
      ¬ ev.Keeps v site atoms (ev.write payload v site atoms).value := by
  induction h with
  | index hres _ ih =>
    intro t hv hsite hover hkeeps
    rw [write_site hres, keeps_index hres] at hkeeps
    exact ih hv (fits_site hev hsite hres) (fun h => hover (.index hres h)) hkeeps
  | @here v site a b rest st x hres hx hlost =>
    intro t hv hsite hover hkeeps
    have hst := fits_step hev hsite hres
    have hv' := hasType_approach (b := b) hev hst hv
    rcases approach_read hev hlaw hst hv fun h => hover (.here hres hx h) with hsame | hb
    · exact hlost x hsame (.refl x)
    · obtain ⟨new, hnew, hchanged⟩ := changed_of_keeps hres hx hkeeps
      have hgrown := hchanged.grownTo hb
      rcases read_after hev hlaw hpay hst hv (b := b) hres with hafter | ⟨p, ha, hp, hshow, hafter⟩
      · exact hlost new (hafter.symm.trans hnew) hgrown
      · -- The write went on in the stored array, behind the end of the old one.
        obtain rfl := Option.some.inj (Except.ok.inj (hafter.symm.trans hnew))
        obtain ⟨hptype, hsite'⟩ := fits_place hev hst hv' hp
        have hsame : p.value.typeOf = x.typeOf := by
          rw [hptype.typeOf_eq, (Step.hasType_read hev.schema hst hv hx).typeOf_eq]
        refine hlost p.value hshow.1 ?_
        rcases touches_write hev payload (b :: rest) hptype hsite' with
          heq | ⟨s, hs, htouch⟩
        · rwa [heq] at hgrown
        · obtain ⟨i, item, hi, hres', -⟩ := resolve_beyond ev st.origin hb
          rw [hsame, first?, hres'] at hs
          obtain rfl := Option.some.inj hs
          obtain ⟨item', items, i', rfl, hi', hle⟩ := hb
          rw [hi] at hi'
          cases hi'
          exact (htouch.grownTo_iff hle).2 hgrown
  | @further v site a b rest st p hres ha hp hshow hx _ ih =>
    intro t hv hsite hover hkeeps
    have hst := fits_step hev hsite hres
    have hv' := hasType_approach (b := b) hev hst hv
    obtain ⟨hptype, hsite'⟩ := fits_place hev hst hv' hp
    have hw := hasType_write hev hpay (b :: rest) hptype hsite'
    refine ih hptype hsite' (fun h => hover (.further hres ha hp hshow hx h)) ?_
    exact keeps_of_keeps hres hx (read_after_shown hev hpay hst hv hres ha hp hshow)
      (hw.typeOf_eq.trans hptype.typeOf_eq.symm) hkeeps

end Typed

/-- A write creates only nulls and keeps what it passes if and only if no default value is stored
over a value that is read but not offered, and no value that is read is lost when the write
approaches it. -/
theorem createsOnlyNulls_iff (hev : ev.Typed) (hlaw : ev.schema.Coherent)
    (hpay : payload.Typed ev.schema) {root : Value} (hroot : HasType ev.schema root root.typeOf)
    {source : String} {atoms : List Atom} (hparse : parse source = .ok atoms) :
    ev.CreatesOnlyNulls root atoms (ev.set source payload root).value ↔
      ¬ ev.Meets ev.Overwritten root (start root) atoms ∧
        ¬ ev.Meets ev.Lost root (start root) atoms := by
  rw [(set_of_parse hparse ev payload root).1]
  have hspares : ev.Spares root (start root) atoms ↔
      ¬ ev.Meets ev.Overwritten root (start root) atoms :=
    spares_iff hev hlaw hroot (fits_start root)
  constructor
  · intro h
    have hover := hspares.1 h.created
    exact ⟨hover, fun hlost =>
      not_lost_of_keeps hev hlaw hpay hlost hroot (fits_start root) hover h.kept⟩
  · rintro ⟨hover, hlost⟩
    exact ⟨hspares.2 hover, keeps_write hev hlaw hpay hroot (fits_start root) hover hlost⟩

/-- The write to a third line in a bin, where there is one: the old array is kept at the front of
the longer one. -/
theorem createsOnlyNulls_iff_stocked :
    Shelf.evaluator.Typed ∧ Shelf.evaluator.schema.Coherent ∧
      (Payload.value (some (.int .u32 7))).Typed Shelf.evaluator.schema ∧
      HasType Shelf.evaluator.schema Shelf.stocked Shelf.stocked.typeOf ∧
      parse "bin['a b'][2].qty" = .ok [⟨"bin", .name, 0⟩, ⟨"a b", .quoted, 4⟩,
        ⟨"2", .bracketed, 11⟩, ⟨"qty", .name, 14⟩] ∧
      (Shelf.evaluator.CreatesOnlyNulls Shelf.stocked [⟨"bin", .name, 0⟩, ⟨"a b", .quoted, 4⟩,
          ⟨"2", .bracketed, 11⟩, ⟨"qty", .name, 14⟩]
          (Shelf.evaluator.set "bin['a b'][2].qty" (.value (some (.int .u32 7)))
            Shelf.stocked).value ↔
        ¬ Shelf.evaluator.Meets Shelf.evaluator.Overwritten Shelf.stocked (start Shelf.stocked)
            [⟨"bin", .name, 0⟩, ⟨"a b", .quoted, 4⟩, ⟨"2", .bracketed, 11⟩, ⟨"qty", .name, 14⟩] ∧
          ¬ Shelf.evaluator.Meets Shelf.evaluator.Lost Shelf.stocked (start Shelf.stocked)
            [⟨"bin", .name, 0⟩, ⟨"a b", .quoted, 4⟩, ⟨"2", .bracketed, 11⟩,
              ⟨"qty", .name, 14⟩]) := by
  have hpay : (Payload.value (some (.int .u32 7))).Typed Shelf.evaluator.schema :=
    .of_checks _ _ (by decide)
  have hparse : parse "bin['a b'][2].qty" = .ok [⟨"bin", .name, 0⟩, ⟨"a b", .quoted, 4⟩,
      ⟨"2", .bracketed, 11⟩, ⟨"qty", .name, 14⟩] := rfl
  have hlaw : Shelf.evaluator.schema.Coherent := Shelf.sharesSlots.coherent Shelf.leavesRecords
  exact ⟨Shelf.typed, hlaw, hpay, Shelf.hasType_stocked, hparse,
    createsOnlyNulls_iff Shelf.typed hlaw hpay Shelf.hasType_stocked hparse⟩

/-! ## A line that is read without its place -/

/-- An evaluator for a workbench whose line is read and stored, while its place is not offered. -/
def frozen : Evaluator :=
  ⟨Catalog.schemaWith
    [⟨.getter, "getLine", "l0", .frozen, []⟩, ⟨.setter, "setLine", "l0", .plain, []⟩], .empty⟩

/-- The line on the workbench. -/
def frozenLine : Value := .record Catalog.line.path [.text "A", .int .u32 1]

/-- A workbench with a line. -/
def frozenBench : Value := (Catalog.workbench []).fresh.setSlot 11 frozenLine

set_option maxRecDepth 10000 in
/-- The write of a quantity fails, and a fresh line has taken the place of the old one. -/
theorem frozen_line_recreated :
    HasType frozen.schema frozenBench frozenBench.typeOf ∧
      (Payload.value (some (.int .u32 7))).Typed frozen.schema ∧
      parse "line.qty" = .ok [⟨"line", .name, 0⟩, ⟨"qty", .name, 5⟩] ∧
      frozen.get "line" frozenBench = .ok (some frozenLine) ∧
      (frozen.set "line.qty" (.value (some (.int .u32 7))) frozenBench).result =
        .error (.malformedPath (.stillNull "line")) ∧
      frozen.get "line" (frozen.set "line.qty" (.value (some (.int .u32 7))) frozenBench).value =
        .ok (some Catalog.line.fresh) ∧
      ¬ frozen.CreatesOnlyNulls frozenBench [⟨"line", .name, 0⟩, ⟨"qty", .name, 5⟩]
        (frozen.set "line.qty" (.value (some (.int .u32 7))) frozenBench).value := by
  refine ⟨.of_checks _ _ (by decide), .of_checks _ _ (by decide), rfl, rfl, rfl, rfl, fun h => ?_⟩
  obtain ⟨new, hnew, u, hu, hchanged⟩ :=
    h.kept [⟨"line", .name, 0⟩] [⟨"qty", .name, 5⟩] frozenLine _ rfl (by simp) rfl
  obtain rfl : Catalog.line.fresh = new := by cases hnew; rfl
  cases hu
  obtain heq | ⟨s, hs, htouch⟩ := hchanged
  · exact absurd heq (by decide)
  · cases hs
    -- The old text was `A`, and only the quantity may change.
    cases htouch with
    | field h => exact absurd (h.slots 0 (by decide)) (by decide)

end Evaluator

end ObjectPath
