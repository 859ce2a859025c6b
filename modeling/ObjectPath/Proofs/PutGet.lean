import ObjectPath.Proofs.Walks
import ObjectPath.Proofs.Sharing

/-!
# What was written is read

Where members share their slots, an expression that was written to is read, and gives what was
written as the slot takes it: seen through one optional layer (`Ty.sees`).  The walk of the write
creates values, pads lists and lengthens arrays on its way; the read follows the places it went
through (`Evaluator.read_write`).
-/

namespace ObjectPath

/-! ## What a slot makes of a value -/

/-- What is read of a value that was written to a slot of a type: a value of the type of the slot
behind its optional layer, a value of the inner type as it is, and the only item of another sequence
likewise.  Null and a sequence without items are read as null. -/
def Ty.sees (slot : Ty) : Option Value → Option Value
  | none => none
  | some v =>
    if v.typeOf = slot then v.unwrapped
    else if slot = .option v.typeOf then some v
    else
      match v with
      | .seq _ _ [x] => if x.typeOf = slot then x.unwrapped else some x
      | _ => none

theorem Ty.ne_option (t : Ty) : t ≠ .option t := fun h => by
  have := congrArg sizeOf h
  simp only [Ty.option.sizeOf_spec] at this
  omega

/-- An optional slot takes a value of its inner type as its content. -/
theorem Ty.prepare_inner {t : Ty} {v : Value} (label : String) (hv : v.typeOf = t) :
    (Ty.option t).prepare label (some v) = .ok (.present v) := by
  have hne : v.typeOf ≠ .option t := by
    rw [hv]
    exact Ty.ne_option t
  refine Ty.prepare_of_fit label ?_
  rw [Ty.fit, if_neg hne]
  exact if_pos hv

theorem Ty.unwrapped_prepareNull {t : Ty} {label : String} {x : Value}
    (h : t.prepareNull label = .ok x) : x.unwrapped = none := by
  cases t with
  | option u => cases h; rfl
  | leaf | seq | map | record => cases h

/-- What is prepared for a slot is what the slot shows. -/
theorem Ty.unwrapped_prepare {t : Ty} {label : String} {y : Option Value} {x : Value}
    (h : t.prepare label y = .ok x) : x.unwrapped = t.sees y := by
  cases y with
  | none => exact Ty.unwrapped_prepareNull h
  | some v =>
    simp only [Ty.prepare] at h
    split at h
    · next hf =>
      cases h
      rcases Ty.fit_ok hf with ⟨ht, rfl⟩ | ⟨ht, rfl⟩
      · unfold Ty.sees
        exact (if_pos ht).symm
      · have hne : v.typeOf ≠ t := ht ▸ Ty.ne_option v.typeOf
        unfold Ty.sees
        exact ((if_neg hne).trans (if_pos ht)).symm
    · next w hf =>
      obtain ⟨rfl, hne, hopt⟩ := Ty.fit_error hf
      simp only [Ty.sees, if_neg hne, if_neg hopt]
      split at h
      · exact Ty.unwrapped_prepareNull h
      · next z =>
        split at h
        · next hz =>
          cases h
          rcases Ty.fit_ok hz with ⟨ht, rfl⟩ | ⟨ht, rfl⟩
          · exact (if_pos ht).symm
          · have hne : z.typeOf ≠ t := ht ▸ Ty.ne_option z.typeOf
            exact (if_neg hne).symm
        · cases h
      · cases h
      · cases h

/-! ## The walk of the read behind the walk of the write -/

/-- The reading of a step that reads a value, or null. -/
def Reading.of (s : Step) : Option Value → Reading
  | some v => .found v s
  | none => .null s.label

namespace Evaluator

variable {ev : Evaluator} {payload : Payload}

theorem read_of_step {site : Site} {a : Atom} {st : Step} {v : Value} {c : Option Value}
    (h : ev.resolve site a = .ok (.step st)) (hc : st.read v = .ok c) :
    ev.read v site [a] = .ok (.of st c) := by
  cases c with
  | none => exact read_null h hc
  | some w => exact read_last h hc

/-- What a walk stored is read by the walk of a read. -/
theorem read_write (hev : ev.Typed) (hlaw : ev.schema.SharesSlots) (hpay : payload.Typed ev.schema)
    {atoms : List Atom} :
    ∀ {v : Value} {t : Ty} {site : Site}, HasType ev.schema v t → site.Fits ev.schema t →
      (ev.write payload v site atoms).result = .ok () →
      ∃ s y, ev.terminal site atoms = .ok s ∧ ev.bound payload s = .ok y ∧
        ev.read (ev.write payload v site atoms).value site atoms = .ok (.of s (s.type.sees y)) := by
  induction atoms with
  | nil => intro v t site _ _ h; rw [write] at h; cases h
  | cons a rest ih =>
    intro v t site hv hsite h
    cases hres : ev.resolve site a with
    | error f => rw [write_error hres] at h; cases h
    | ok r =>
      cases r with
      | site next =>
        rw [write_site hres] at h ⊢
        rw [terminal_site hres, read_site hres]
        exact ih hv (fits_site hev hsite hres) h
      | step st =>
        have hst := fits_step hev hsite hres
        cases rest with
        | nil =>
          rw [write_last hres, deliver_eq] at h ⊢
          split at h
          · next y hy =>
            obtain ⟨x, hx, hread⟩ :=
              Step.read_write hlaw hst hv (hasType_bound hev hpay hst hy) h
            refine ⟨st, y, terminal_last hres, hy, ?_⟩
            rw [read_of_step hres hread, Ty.unwrapped_prepare hx]
          · cases h
        | cons b rest =>
          rw [write_step hres] at h ⊢
          obtain ⟨happroach, hdescend⟩ := Written.andThen_ok h
          obtain ⟨w, p, hp, hinner⟩ := descend_ok hdescend
          -- From here on the read goes through the place that the write went through.
          have hv' := hasType_approach (b := b) hev hst hv
          have hshows := Step.shows hev.schema (hlaw t) hst hv' hp
          obtain ⟨hptype, hsite'⟩ := fits_place hev hst hv' hp
          have hw := hasType_write hev hpay (b :: rest) hptype hsite'
          obtain ⟨s, y, hs, hy, hread⟩ := ih hptype hsite' hinner
          rw [hptype.typeOf_eq] at hs
          refine ⟨s, y, (terminal_step hres).trans hs, hy, ?_⟩
          rw [(Written.andThen_of_ok happroach).1, descend_of_place hp]
          refine (read_step hres (hshows.2 _ hw)).trans ?_
          rw [hw.typeOf_eq, ← hptype.typeOf_eq]
          exact hread

theorem get_eq {source : String} {atoms : List Atom} {v : Value} {s : Step} {c : Option Value}
    (hparse : parse source = .ok atoms) (h : ev.read v (start v) atoms = .ok (.of s c)) :
    ev.get source v = .ok c := by
  have hreading : ev.reading source v = .ok (.of s c) := by
    simp only [reading, hparse, bind, Except.bind, h, blame]
  cases c <;> simp [get, hreading, Reading.of, bind, Except.bind, pure, Except.pure]

/-- Only an expression gives something. -/
theorem exists_parse_of_get {source : String} {v : Value} {c : Option Value}
    (h : ev.get source v = .ok c) : ∃ atoms, parse source = .ok atoms := by
  cases hparse : parse source with
  | ok atoms => exact ⟨atoms, rfl⟩
  | error f =>
    unfold get reading at h
    rw [hparse] at h
    cases h

theorem read_of_get {source : String} {atoms : List Atom} (hparse : parse source = .ok atoms)
    (h : ev.get source v = .ok (some x)) : ∃ s, ev.read v (start v) atoms = .ok (.found x s) := by
  cases hr : ev.read v (start v) atoms with
  | error f =>
    simp [get, reading, hparse, hr, blame, bind, Except.bind] at h
  | ok r =>
    cases r with
    | null label =>
      simp [get, reading, hparse, hr, blame, bind, Except.bind, pure, Except.pure] at h
    | found y s =>
      simp [get, reading, hparse, hr, blame, bind, Except.bind, pure, Except.pure] at h
      exact ⟨s, by rw [h]⟩

/-- If a write succeeds where members share their slots, then the expression is read and gives what
was written, as the slot at its end shows it.  That is a value as it was handed over, or what the
strings were converted to. -/
theorem get_set (hev : ev.Typed) (hlaw : ev.schema.SharesSlots) {source : String}
    (hpay : payload.Typed ev.schema) {root : Value} (hroot : HasType ev.schema root root.typeOf)
    (h : (ev.set source payload root).result = .ok ()) :
    ∃ atoms s y, parse source = .ok atoms ∧ ev.terminal (start root) atoms = .ok s ∧
      ev.bound payload s = .ok y ∧
      ev.get source (ev.set source payload root).value = .ok (s.type.sees y) := by
  cases hparse : parse source with
  | error f => rw [set_of_parse_error hparse] at h; cases h
  | ok atoms =>
    obtain ⟨hvalue, hresult⟩ := set_of_parse hparse ev payload root
    rw [hresult] at h
    obtain ⟨s, y, hs, hy, hread⟩ := read_write hev hlaw hpay hroot (fits_start root) h
    refine ⟨atoms, s, y, rfl, hs, hy, ?_⟩
    rw [hvalue]
    exact get_eq (s := s) hparse (by rw [start_write hev hpay hroot atoms]; exact hread)

set_option maxRecDepth 10000 in
/-- The lines in a bin are one, and the write is to a third one: the array is made longer through
the property of the bins. -/
theorem get_set_stocked :
    Shelf.evaluator.Typed ∧ Shelf.evaluator.schema.SharesSlots ∧
      HasType Shelf.evaluator.schema Shelf.stocked Shelf.stocked.typeOf ∧
      (Payload.value (some (.int .u32 7))).Typed Shelf.evaluator.schema ∧
      (Shelf.evaluator.set "bin['a b'][2].qty" (.value (some (.int .u32 7))) Shelf.stocked).result =
        .ok () ∧
      ∃ atoms s y, parse "bin['a b'][2].qty" = .ok atoms ∧
        Shelf.evaluator.terminal (start Shelf.stocked) atoms = .ok s ∧
        Shelf.evaluator.bound (.value (some (.int .u32 7))) s = .ok y ∧
        Shelf.evaluator.get "bin['a b'][2].qty" (Shelf.evaluator.set "bin['a b'][2].qty"
          (.value (some (.int .u32 7))) Shelf.stocked).value = .ok (s.type.sees y) := by
  have hpay : (Payload.value (some (.int .u32 7))).Typed Shelf.evaluator.schema :=
    .of_checks _ _ (by decide)
  have hok : (Shelf.evaluator.set "bin['a b'][2].qty" (.value (some (.int .u32 7)))
      Shelf.stocked).result = .ok () := rfl
  exact ⟨Shelf.typed, Shelf.sharesSlots, Shelf.hasType_stocked, hpay, hok,
    get_set Shelf.typed Shelf.sharesSlots hpay Shelf.hasType_stocked hok⟩

end Evaluator

end ObjectPath
