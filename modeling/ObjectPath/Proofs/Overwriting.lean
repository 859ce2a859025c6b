import ObjectPath.Proofs.Contents

/-!
# Writing again

Where there are only fields, reads and writes along one path obey the laws of a lens
(`Evaluator.lawful`).  Writing back what was read leaves everything as it is
(`Evaluator.write_of_read`): what is in the slots on the way is neither created nor lengthened, and
the last slot holds what is read in it already.  And of two writes the second one decides
(`Evaluator.puts_puts_iff`): what the first one created, padded or lengthened on its way the second
one would make the same.
-/

namespace ObjectPath

theorem Value.rewrap_self {c u : Value} (hu : c.unwrapped = some u) : c.rewrap u = c := by
  cases c with
  | absent => cases hu
  | present | leaf | seq | map | record => cases hu; rfl

namespace Evaluator

variable {ev : Evaluator} {a b : Payload} {root : Value}

/-! ## Writing back -/

/-- Writing back what a path leads to leaves the value as it is. -/
theorem write_of_read (hev : ev.Typed) {x : Value} {s : Step} (atoms : List Atom) :
    ∀ {v : Value} {t : Ty} {site : Site}, ev.schema.OnlyFields t → HasType ev.schema v t →
      site.Fits ev.schema t → ev.read v site atoms = .ok (.found x s) →
        (ev.write (.value (some x)) v site atoms).Leaves v := by
  induction atoms with
  | nil => intro v t site _ _ _ h; rw [read] at h; cases h
  | cons a rest ih =>
    intro v t site hfields hv hsite h
    cases hres : ev.resolve site a with
    | error f => rw [read_error hres] at h; cases h
    | ok r =>
      cases r with
      | site next => exact absurd hres (not_site_of_resolve hev hfields hsite)
      | step st =>
        have hst := fits_step hev hsite hres
        have hinto := Step.leadsInto hfields hst hv
        obtain ⟨y, hy⟩ := read_of_found hres h
        obtain ⟨c, hc, hunwrapped⟩ := Step.slot_of_read hy
        obtain ⟨o, ho, hslot⟩ := hinto.slot_eq_slotPlace
        obtain ⟨q, rfl, rfl⟩ := Option.map_eq_some_iff.1 (Except.ok.inj (hslot.symm.trans hc))
        have hqtype := (Step.typed_slotPlace hev.schema hst hv ho).value
        have hytype := hqtype.unwrapped hunwrapped
        rw [write_slot_iff hev hinto hst hv ho hres]
        refine ⟨q.value, ?_, q.fill_value.symm⟩
        cases rest with
        | nil =>
          rw [read_last hres hy] at h
          cases h
          refine .stored rfl ?_
          rw [Ty.prepare, Ty.fit_rewrap hqtype hunwrapped rfl, Value.rewrap_self hunwrapped]
        | cons b rest =>
          rw [read_step hres hy] at h
          rw [hytype.typeOf_eq] at h
          have hbelow := ih (hfields.below hst) hytype (fits_below hst _) h
          rw [← hytype.typeOf_eq] at hbelow
          have hready : Readied ev.schema st b q.value q.value y :=
            ⟨.kept hunwrapped, y, hunwrapped, .kept (not_beyond_of_leaves hbelow)⟩
          have hwithin := SlotWritten.within hready hbelow
          rwa [Value.rewrap_self hunwrapped] at hwithin

/-! ## Writing twice -/

/-- What was put in a slot does not matter to a write along the same path. -/
theorem puts_puts_iff (hev : ev.Typed) (ha : a.Typed ev.schema) (rest : List Atom) :
    ∀ {st : Step} {held : Option Value} {x y : Value}, ev.TypedSlot st held →
      ev.Puts a st rest held x →
        (ev.Puts b st rest (some x) y ↔ ev.Puts b st rest held y) := by
  induction rest with
  | nil =>
    intro st held x y _ _
    rw [puts_nil_iff x, puts_nil_iff x]
  | cons n rest ih =>
    intro st held x y hslot h
    cases held with
    | none => cases h
    | some c =>
      have hx := hasType_puts hev ha (n :: rest) hslot h
      obtain ⟨u, st', x', hu, hres, hopens, hputs, rfl⟩ := (puts_cons_iff hev hslot).1 h
      -- The first write left the value behind the slot with other content in the next slot.
      have htype := (hopens.typeOf_put x').trans (hslot.base hev hu).1.typeOf_eq
      have hput := Step.base_holding (s := ev.schema) htype
      have hres' : ev.resolve (.value (st'.put ev.schema u x').typeOf st.origin) n =
          .ok (.step st') := by
        rw [hopens.typeOf_put]
        exact hres
      rw [puts_below_iff hev (hslot.hold hx) hput hres' (hopens.put x'), hopens.held?_put,
        puts_below_iff hev hslot hu hres hopens]
      have hbelow {y' : Value} : ev.Puts b st' rest (some x') y' ↔
          ev.Puts b st' rest (st'.held? ev.schema u) y' :=
        ih (hslot.below hev hu hres) hputs
      simp only [hbelow, hopens.put_put]

/-- A write after another one along the same path leaves what it would have left without it. -/
theorem write_write_iff (hev : ev.Typed) (ha : a.Typed ev.schema) {atoms : List Atom}
    {v w w' : Value} {t : Ty} {site : Site} (hfields : ev.schema.OnlyFields t)
    (hv : HasType ev.schema v t) (hsite : site.Fits ev.schema t)
    (h : (ev.write a v site atoms).Leaves w) :
    (ev.write b w site atoms).Leaves w' ↔ (ev.write b v site atoms).Leaves w' := by
  obtain ⟨n, rest, st, rfl, hres⟩ := exists_step_of_leaves hev hfields hsite h
  have hst := fits_step hev hsite hres
  have hinto := Step.leadsInto hfields hst hv
  have hslot : ev.TypedSlot st (st.held? ev.schema v) := .of_fits hev hfields hst hv
  obtain ⟨⟨hopens, hwithin⟩, x, hputs, rfl⟩ := (write_leaves_iff hev hinto hst hv hres).1 h
  have hx := hasType_puts hev ha rest hslot hputs
  have hput := Step.hasType_put hev.schema hst hv hopens hx
  have hagain {y : Value} : ev.Puts b st rest (some x) y ↔
      ev.Puts b st rest (st.held? ev.schema v) y :=
    puts_puts_iff hev ha rest hslot hputs
  rw [write_leaves_iff hev (hopens.put x).leadsInto hst hput hres,
    write_leaves_iff hev hinto hst hv hres, hopens.held?_put,
    and_iff_right ⟨hopens.put x, hopens.within_put x⟩, and_iff_right ⟨hopens, hwithin⟩]
  simp only [hagain, hopens.put_put]

/-! ## Expressions -/

/-- Reads and writes of an expression are those of a part of the root.  Writing back what was read
succeeds and leaves the root as it was; and a write after another one succeeds if and only if it
succeeds without the other one, and leaves the same root. -/
structure Lawful (ev : Evaluator) (source : String) (root : Value) : Prop where
  get_put : ∀ v, ev.get source root = .ok (some v) →
    (ev.set source (.value (some v)) root).Leaves root
  put_put : ∀ a b r, a.Typed ev.schema → (ev.set source a root).Leaves r →
    ∀ r', (ev.set source b r).Leaves r' ↔ (ev.set source b root).Leaves r'

/-- Where there are only fields, every expression is lawful. -/
theorem lawful (hev : ev.Typed) (hfields : ev.schema.OnlyFields root.typeOf)
    (hroot : HasType ev.schema root root.typeOf) (source : String) : ev.Lawful source root := by
  refine ⟨fun v hv => ?_, fun a b r ha hr r' => ?_⟩
  · obtain ⟨atoms, hparse⟩ := exists_parse_of_get hv
    obtain ⟨s, hs⟩ := read_of_get hparse hv
    exact (set_leaves_iff hparse).2 (write_of_read hev atoms hfields hroot (fits_start root) hs)
  · cases hparse : parse source with
    | error f =>
      rw [set_of_parse_error hparse] at hr
      exact absurd hr (Written.not_leaves_of_error rfl)
    | ok atoms =>
      rw [set_leaves_iff hparse] at hr
      have hstart : start r = start root := by
        rw [← hr.value]
        exact start_write hev ha hroot atoms
      rw [set_leaves_iff hparse, set_leaves_iff hparse, hstart]
      exact write_write_iff hev ha hfields hroot (fits_start root) hr

set_option maxRecDepth 10000 in
/-- The first write to the fourth line of a crate makes the lines longer, and is forgotten. -/
theorem lawful_stocked :
    Crate.evaluator.Typed ∧ Crate.evaluator.schema.OnlyFields Crate.stocked.typeOf ∧
      HasType Crate.evaluator.schema Crate.stocked Crate.stocked.typeOf ∧
      (∀ source, Crate.evaluator.Lawful source Crate.stocked) ∧
      (Crate.evaluator.set "lines[3].qty" (.value (some (.int .u32 7))) Crate.stocked).result =
        .ok () ∧
      Crate.evaluator.get "lines[0].sku" Crate.stocked = .ok (some (.text "x")) :=
  have htyped : Crate.evaluator.Typed := typed_of_isPlain Crate.isPlain
  have hfields := Schema.OnlyFields.of_isPlain Crate.isPlain Crate.stocked.typeOf
  ⟨htyped, hfields, Crate.hasType_stocked,
    fun source => lawful htyped hfields Crate.hasType_stocked source, rfl, rfl⟩

end Evaluator

end ObjectPath
