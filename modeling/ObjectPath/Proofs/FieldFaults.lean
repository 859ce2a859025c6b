import ObjectPath.Proofs.Delivery
import ObjectPath.Proofs.Faults
import ObjectPath.Proofs.Openings
import ObjectPath.Proofs.Spelling

/-!
# Faults in graphs of fields

Where every member is a field, what a step creates is found by the next look at its slot, and so is
the longer array that takes the place of one that is too short (`Evaluator.exists_place_of_fillIn`,
`Evaluator.exists_place_of_approach`).  So a walk fails because of its path or of a converter, or it
comes to its last step (`Evaluator.onWay_or_comesTo`), and nothing else fails there than the payload
or the storing behind the end of a sequence (`Step.write_error`).

So internal faults are out of reach for every evaluation of an expression, and strings are refused
for their number only (`Evaluator.fieldFaults`).
-/

namespace ObjectPath

/-! ## Storing -/

namespace Step

variable {s : Schema} {t item : Ty} {st : Step} {v x : Value} {y : Option Value} {f : Fault}
  {items ys : List Value} {n i : Nat}

/-- Padding fails only where there is no default item: a default item is of the item type. -/
theorem pad_error_eq (hs : s.Typed) (h : st.pad s item n items = (ys, .error f)) :
    f = .instantiation item := by
  cases hd : s.default? item with
  | some d =>
    rw [pad_of_default hd (hasType_default hs hd).typeOf_eq] at h
    cases h
  | none =>
    cases n with
    | zero => cases h
    | succ n =>
      simp only [pad, hd] at h
      cases h
      rfl

/-- An item of the item type is not stored behind the end of a list because of the path only. -/
theorem writeItem_error_behind (hs : s.Typed) (hbehind : items[i]? = none) (hx : x.typeOf = item)
    (h : st.writeItem s item items i x = (ys, .error f)) : f.cause = .path := by
  simp only [writeItem, hbehind] at h
  split at h
  · next hlength => cases h; exact requiredLength_error hlength
  · split at h
    · next hpad =>
      cases h
      rw [pad_error_eq hs hpad]
      rfl
    · rw [Value.push, if_pos hx] at h
      cases h

variable (hs : s.Typed) (hinto : st.LeadsInto v) (hst : st.Fits s t) (hv : HasType s v t)

include hs hinto hst hv

/-- A value of the type of its slot is not stored because of the path only: there is no item, and
there cannot be one. -/
theorem store_error (hx : x.typeOf = st.type) (h : (st.store s v x).result = .error f) :
    f.cause = .path := by
  obtain ⟨o, hslot, -⟩ := hinto.slot_eq_slotPlace
  cases o with
  | some q =>
    rw [hinto.store_eq_done s hslot (typed_slotPlace hs hst hv hslot).value.typeOf_eq hx] at h
    cases h
  | none =>
    cases hinto with
    | @field f path xs =>
      cases hst with
      | member hm =>
        -- A field has a slot in every record of its type.
        have hget := Value.map_value_atSlot? path xs f.slot
        rw [Offer.of_eq_nothing (Except.ok.inj hslot),
          List.getElem?_eq_getElem (slot_lt_of_typed hs hm hv)] at hget
        cases hget
    | @item i k item o xs =>
      have hbehind : xs[i]? = none := by
        rw [← Value.map_value_atIndex? i k item, Offer.of_eq_nothing (Except.ok.inj hslot)]
        rfl
      by_cases hk : k.growable = true
      · simp only [store, if_pos hk] at h
        exact writeItem_error_behind hs hbehind hx (Prod.ext rfl h)
      · simp only [store, if_neg hk, writeArrayItem, hbehind] at h
        cases h
        rfl
    | entry hkey =>
      rw [store, if_pos ⟨hkey, hx⟩] at h
      cases h

/-- A write through a step fails because of the path, or its value does not fit the slot. -/
theorem write_error (h : (st.write s v y).result = .error f) :
    f.cause = .path ∨ st.type.prepare st.label y = .error f := by
  unfold write at h
  split at h
  · next hx => exact .inl (store_error hs hinto hst hv (Ty.typeOf_prepare hx) h)
  · next hx => cases h; exact .inr hx

end Step

/-! ## Approaching a step -/

namespace Evaluator

variable {ev : Evaluator} {payload : Payload} {site : Site} {a b : Atom} {rest atoms : List Atom}
  {st s : Step} {v w x root : Value} {t : Ty} {f : Fault} {source : String}

section Step

variable (hev : ev.Typed) (hfields : ev.schema.OnlyFields t) (hst : st.Fits ev.schema t)
  (hv : HasType ev.schema v t)

include hfields hst hv

theorem exists_place_eq_ok : ∃ o : Option (Place v), st.place v = .ok (.of o) := by
  obtain ⟨o, hslot, -⟩ := (Step.leadsInto hfields hst hv).slot_eq_slotPlace
  refine ⟨o.bind (·.inner?), ?_⟩
  rw [Step.place, hslot]
  cases o <;> rfl

include hev

theorem fillIn_error (h : (ev.fillIn st b v).result = .error f) : f.cause = .path := by
  obtain ⟨o, hp⟩ := exists_place_eq_ok hfields hst hv
  cases o with
  | some p => rw [fillIn_of_place hp] at h; cases h
  | none =>
    cases hx : st.create ev.schema b with
    | error g =>
      simp only [fillIn, hp, hx] at h
      cases h
      exact Step.create_error hx
    | ok x =>
      rw [fillIn_of_create hp hx] at h
      rcases Step.write_error hev.schema (Step.leadsInto hfields hst hv) hst hv h with
        hpath | hprepare
      · exact hpath
      · -- What was created for the slot fits it.
        obtain ⟨z, hz⟩ := Ty.exists_fit (Step.hasType_create hev.schema hx).typeOf_eq
        rw [Ty.prepare_of_fit st.label hz] at hprepare
        cases hprepare

/-- What was created is found behind the step. -/
theorem exists_place_of_fillIn (h : (ev.fillIn st b v).result = .ok ()) :
    ∃ w, ∃ p : Place w, st.place (ev.fillIn st b v).value = .ok (.place w p) := by
  obtain ⟨o, hp⟩ := exists_place_eq_ok hfields hst hv
  cases o with
  | some p =>
    rw [fillIn_of_place hp]
    exact ⟨_, p, hp⟩
  | none =>
    cases hx : st.create ev.schema b with
    | error g => simp only [fillIn, hp, hx] at h; cases h
    | ok x =>
      have hfilled := hasType_fillIn (b := b) hev hst hv
      have hxtype := Step.hasType_create hev.schema hx
      rw [fillIn_of_create hp hx] at h hfilled ⊢
      obtain ⟨c, hc, hread⟩ := Step.read_write_of_member
        (fun m hm => (hfields.sharesSlot m (hst.of_member hm)).readsStored) hst hv
        (fun y hy => Option.some.inj hy ▸ hxtype.self) h
      rw [Ty.unwrapped_prepare_declared hxtype.typeOf_eq hc] at hread
      obtain ⟨p, hp', -⟩ := (Step.leadsInto hfields hst hfilled).place_of_read hread
      exact ⟨_, p, hp'⟩

theorem lengthen_error (h : (ev.lengthen st b v).result = .error f) : f.cause = .path := by
  obtain hdone | ⟨g, hfailed, hg⟩ | ⟨p, left, longer, n, hp, hout, hwritten⟩ :=
    ev.lengthen_spec_of_leaves b (Step.leadsInto hfields hst hv).leavesValue v
  · rw [hdone] at h; cases h
  · rw [hfailed] at h
    cases h
    rcases hg with hp | ⟨i, hlength⟩
    · obtain ⟨o, hp'⟩ := exists_place_eq_ok hfields hst hv
      rw [hp'] at hp
      cases hp
    · exact requiredLength_error hlength
  · rw [hwritten, write_longer hev (Step.leadsInto hfields hst hv) hst hv hp hout] at h
    cases h

/-- The longer array is found where the one that was too short was. -/
theorem exists_place_of_lengthen {p : Place w} (hp : st.place v = .ok (.place w p))
    (h : (ev.lengthen st b v).result = .ok ()) :
    ∃ w, ∃ q : Place w, st.place (ev.lengthen st b v).value = .ok (.place w q) := by
  have hinto := Step.leadsInto hfields hst hv
  have hlengthened := hasType_lengthen (b := b) hev hst hv
  obtain hdone | ⟨g, hfailed⟩ | ⟨p, left, longer, n, hp, hout, hwritten⟩ :=
    lengthen_cases hev hinto hst hv b
  · rw [hdone]; exact ⟨_, p, hp⟩
  · rw [hfailed] at h; cases h
  · have hlonger := hout.hasType_longer hev.schema
      (Step.typed_place hev.schema hst hv hp).value
    have hread := (Step.shows hev.schema hfields.sharesSlot hst hv hp).2 longer hlonger
    rw [hwritten] at hlengthened ⊢
    obtain ⟨q, hq, -⟩ := (Step.leadsInto hfields hst hlengthened).place_of_read hread
    exact ⟨_, q, hq⟩

theorem approach_error (h : (ev.approach st b v).result = .error f) : f.cause = .path := by
  unfold approach at h
  cases hfill : (ev.fillIn st b v).result with
  | error g =>
    rw [(Written.andThen_of_error hfill).2] at h
    cases h
    exact fillIn_error hev hfields hst hv hfill
  | ok =>
    rw [(Written.andThen_of_ok hfill).2] at h
    exact lengthen_error hev hfields hst (hasType_fillIn hev hst hv) h

/-- Behind a step that was approached there is something to go on with. -/
theorem exists_place_of_approach (h : (ev.approach st b v).result = .ok ()) :
    ∃ w, ∃ p : Place w, st.place (ev.approach st b v).value = .ok (.place w p) := by
  obtain ⟨hfill, hlength⟩ := Written.andThen_ok h
  obtain ⟨_, p, hp⟩ := exists_place_of_fillIn hev hfields hst hv hfill
  unfold approach
  rw [(Written.andThen_of_ok hfill).1]
  exact exists_place_of_lengthen hev hfields hst (hasType_fillIn hev hst hv) hp hlength

/-- A payload is not stored because of the path, or it does not fit the slot. -/
theorem deliver_error (h : (ev.deliver payload st v).result = .error f) :
    f.cause = .path ∨ ev.bound payload st = .error f ∨
      ∃ y, ev.bound payload st = .ok y ∧ st.type.prepare st.label y = .error f := by
  rw [deliver_eq] at h
  split at h
  · next y hy =>
    rcases Step.write_error hev.schema (Step.leadsInto hfields hst hv) hst hv h with
      hpath | hprepare
    · exact .inl hpath
    · exact .inr (.inr ⟨y, hy, hprepare⟩)
  · next hy => cases h; exact .inr (.inl hy)

end Step

/-! ## Walks -/

/-- A write fails because of the path or of a converter, or it comes to its last step and fails
there. -/
theorem onWay_or_comesTo (hev : ev.Typed) (atoms : List Atom) :
    ∀ {v : Value} {t : Ty} {site : Site}, atoms ≠ [] → ev.schema.OnlyFields t →
      HasType ev.schema v t → site.Fits ev.schema t →
        (ev.write payload v site atoms).result = .error f →
          f.OnWay ∨ ∃ s w u fill, ev.ComesTo v site atoms s w fill ∧ ev.schema.OnlyFields u ∧
            s.Fits ev.schema u ∧ HasType ev.schema w u ∧
              (ev.deliver payload s w).result = .error f := by
  induction atoms with
  | nil => intro v t site hne; exact absurd rfl hne
  | cons a rest ih =>
    intro v t site _ hfields hv hsite h
    cases hres : ev.resolve site a with
    | error g =>
      rw [write_error hres] at h
      cases h
      exact .inl (resolve_error hres)
    | ok r =>
      cases r with
      | site next => exact absurd hres (not_site_of_resolve hev hfields hsite)
      | step st =>
        have hst := fits_step hev hsite hres
        cases rest with
        | nil =>
          rw [write_last hres] at h
          exact .inr ⟨st, v, t, id, .last hres, hfields, hst, hv, h⟩
        | cons b rest =>
          rw [write_step hres] at h
          cases ha : (ev.approach st b v).result with
          | error g =>
            rw [(Written.andThen_of_error ha).2] at h
            cases h
            exact .inl (.of_path (approach_error hev hfields hst hv ha))
          | ok =>
            have hv' := hasType_approach (b := b) hev hst hv
            obtain ⟨_, p, hp⟩ := exists_place_of_approach hev hfields hst hv ha
            rw [(Written.andThen_of_ok ha).2, descend_of_place hp] at h
            obtain ⟨hptype, hsite'⟩ := fits_place hev hst hv' hp
            rcases ih (List.cons_ne_nil b rest) (hfields.below hst) hptype hsite' h with
              hway | ⟨s, w, u, fill, hcomes, hlast⟩
            · exact .inl hway
            · exact .inr ⟨s, w, u, _, .further hres ha hp hcomes, hlast⟩

/-- A read fails because of the path or of a converter. -/
theorem read_error_onWay (hev : ev.Typed) (atoms : List Atom) :
    ∀ {v : Value} {t : Ty} {site : Site}, atoms ≠ [] → ev.schema.OnlyFields t →
      HasType ev.schema v t → site.Fits ev.schema t → ev.read v site atoms = .error f →
        f.OnWay := by
  induction atoms with
  | nil => intro v t site hne; exact absurd rfl hne
  | cons a rest ih =>
    intro v t site _ hfields hv hsite h
    cases hres : ev.resolve site a with
    | error g =>
      rw [read_error hres] at h
      cases h
      exact resolve_error hres
    | ok r =>
      cases r with
      | site next => exact absurd hres (not_site_of_resolve hev hfields hsite)
      | step st =>
        have hst := fits_step hev hsite hres
        obtain ⟨o, -, hslot⟩ := (Step.leadsInto hfields hst hv).slot_eq_slotPlace
        have hread := Step.read_of_slot hslot
        cases hx : (o.map (·.value)).bind (·.unwrapped) with
        | none =>
          rw [read_null hres (hread.trans (congrArg _ hx))] at h
          cases h
        | some x =>
          rw [hx] at hread
          cases rest with
          | nil => rw [read_last hres hread] at h; cases h
          | cons b rest =>
            have hxtype := Step.hasType_read hev.schema hst hv hread
            rw [read_step hres hread, hxtype.typeOf_eq] at h
            exact ih (List.cons_ne_nil b rest) (hfields.below hst) hxtype (fits_below hst _) h

/-- Declared types do not resolve because of the path or of a converter. -/
theorem terminal_error_onWay (hev : ev.Typed) (atoms : List Atom) :
    ∀ {t : Ty} {site : Site}, atoms ≠ [] → ev.schema.OnlyFields t → site.Fits ev.schema t →
      ev.terminal site atoms = .error f → f.OnWay := by
  induction atoms with
  | nil => intro t site hne; exact absurd rfl hne
  | cons a rest ih =>
    intro t site _ hfields hsite h
    cases hres : ev.resolve site a with
    | error g =>
      rw [terminal_error hres] at h
      cases h
      exact resolve_error hres
    | ok r =>
      cases r with
      | site next => exact absurd hres (not_site_of_resolve hev hfields hsite)
      | step st =>
        have hst := fits_step hev hsite hres
        cases rest with
        | nil => rw [terminal_last hres] at h; cases h
        | cons b rest =>
          rw [terminal_step hres] at h
          exact ih (List.cons_ne_nil b rest) (hfields.below hst) (fits_below hst _) h

/-! ## Expressions -/

/-- How evaluations of an expression fail: never with an internal fault, and strings are refused for
their number only, at the end of the path. -/
structure FieldFaults (ev : Evaluator) (source : String) (root : Value) : Prop where
  get : ∀ e, ev.get source root = .error e → e.fault.cause ≠ .internal
  getValue : ∀ t e, ev.getValue source t root = .error e → e.fault.cause ≠ .internal
  getString : ∀ e, ev.getString source root = .error e → e.fault.cause ≠ .internal
  getTag : ∀ k e, ev.getTag source k root = .error e → e.fault.cause ≠ .internal
  set : ∀ payload f, (ev.set source payload root).result = .error f → f.cause ≠ .internal
  /-- No string is null, and null does not fit. -/
  mismatch : ∀ raw label target found,
    (ev.set source (.strings raw) root).result = .error (.typeMismatch label target found) →
      raw = [] ∧ found = .null ∧ ∃ s w fill, ev.ComesAlong source root s w fill ∧
        label = s.label ∧ target = s.type ∧ s.type.isOptional = false ∧
          ∀ k item, s.type ≠ .seq k item
  /-- Several strings do not fit a slot for one value. -/
  arity : ∀ raw label n,
    (ev.set source (.strings raw) root).result = .error (.arity label n) →
      n = raw.length ∧ 2 ≤ raw.length ∧ ∃ s w fill, ev.ComesAlong source root s w fill ∧
        label = s.label ∧ ∀ k item, s.type.declared ≠ .seq k item

section Fields

variable (hev : ev.Typed) (hfields : ev.schema.OnlyFields root.typeOf)
  (hroot : HasType ev.schema root root.typeOf)

include hev hfields hroot

theorem reading_error {e : EvalError} (h : ev.reading source root = .error e) :
    e.fault.cause ≠ .internal := by
  cases hparse : parse source with
  | error f =>
    simp only [reading, hparse, bind, Except.bind, blame_error] at h
    cases h.2
    simp [cause_of_parse_error hparse]
  | ok atoms =>
    simp only [reading, hparse, bind, Except.bind, blame_error] at h
    exact (read_error_onWay hev atoms (parse_ne_nil hparse) hfields hroot (fits_start root)
      h.2).ne_internal

/-- A write fails because of the text, of the path or of a converter, or at its end, because of its
payload. -/
theorem set_error (h : (ev.set source payload root).result = .error f) :
    f.cause = .text ∨ f.OnWay ∨ ∃ s w fill, ev.ComesAlong source root s w fill ∧
      (ev.bound payload s = .error f ∨
        ∃ y, ev.bound payload s = .ok y ∧ s.type.prepare s.label y = .error f) := by
  cases hparse : parse source with
  | error g =>
    rw [set_of_parse_error hparse] at h
    cases h
    exact .inl (cause_of_parse_error hparse)
  | ok atoms =>
    rw [(set_of_parse hparse ev payload root).2] at h
    rcases onWay_or_comesTo hev atoms (parse_ne_nil hparse) hfields hroot (fits_start root) h with
      hway | ⟨s, w, u, fill, hcomes, hu, hsu, hw, hdeliver⟩
    · exact .inr (.inl hway)
    · rcases deliver_error hev hu hsu hw hdeliver with hpath | hpayload
      · exact .inr (.inl (.of_path hpath))
      · exact .inr (.inr ⟨s, w, fill, ⟨atoms, hparse, hcomes⟩, hpayload⟩)

/-- A fault of a payload of strings is about their number. -/
theorem set_strings_error {raw : List String} (hf : f.cause = .payload)
    (h : (ev.set source (.strings raw) root).result = .error f) :
    ∃ s w fill, ev.ComesAlong source root s w fill ∧
      (f = .arity s.label raw.length ∧ 2 ≤ raw.length ∧ (∀ k item, s.type.declared ≠ .seq k item) ∨
        raw = [] ∧ f = .typeMismatch s.label s.type .null ∧ s.type.isOptional = false ∧
          ∀ k item, s.type.declared ≠ .seq k item) := by
  rcases set_error hev hfields hroot h with
    htext | hway | ⟨s, w, fill, hcomes, hbound | ⟨y, hy, hprepare⟩⟩
  · rw [hf] at htext; cases htext
  · exact absurd hf hway.ne_payload
  · rcases Registry.parseStrings_error hbound with hconverter | harity
    · rw [hf] at hconverter; cases hconverter
    · exact ⟨s, w, fill, hcomes, .inl harity⟩
  · exact ⟨s, w, fill, hcomes, .inr (Registry.prepare_parseStrings_error hy hprepare)⟩

/-- Where there are only fields, internal faults are out of reach, and strings are refused for their
number only. -/
theorem fieldFaults (source : String) : ev.FieldFaults source root where
  get e h := reading_error hev hfields hroot (get_error h)
  getValue t e h := by
    rcases getValue_error h with hr | hf
    · exact reading_error hev hfields hroot hr
    · simp [hf]
  getString e h := by
    rcases getString_error h with hr | hf
    · exact reading_error hev hfields hroot hr
    · simp [hf]
  getTag k e h := by
    cases hparse : parse source with
    | error f =>
      simp only [Evaluator.getTag, hparse, bind, Except.bind, blame_error] at h
      cases h.2
      simp [cause_of_parse_error hparse]
    | ok atoms =>
      cases hs : ev.terminal (start root) atoms with
      | ok s => simp only [Evaluator.getTag, hparse, hs, bind, Except.bind] at h; cases h
      | error f =>
        simp only [Evaluator.getTag, hparse, hs, bind, Except.bind, blame_error] at h
        cases h.2
        exact (terminal_error_onWay hev atoms (parse_ne_nil hparse) hfields (fits_start root)
          hs).ne_internal
  set payload f h := by
    rcases set_error hev hfields hroot h with
      htext | hway | ⟨s, w, fill, -, hbound | ⟨y, -, hprepare⟩⟩
    · simp [htext]
    · exact hway.ne_internal
    · cases payload with
      | value y => cases hbound
      | strings raw =>
        rcases Registry.parseStrings_error hbound with hconverter | ⟨rfl, -⟩
        · simp [hconverter]
        · simp [Fault.cause]
    · simp [Ty.prepare_error hprepare]
  mismatch raw label target found h := by
    obtain ⟨s, w, fill, hcomes, ⟨hf, -⟩ | ⟨rfl, hf, hopt, hseq⟩⟩ :=
      set_strings_error hev hfields hroot rfl h
    · cases hf
    · cases hf
      refine ⟨rfl, rfl, s, w, fill, hcomes, rfl, rfl, hopt, fun k item hk => hseq k item ?_⟩
      rw [hk]
      rfl
  arity raw label n h := by
    obtain ⟨s, w, fill, hcomes, ⟨hf, htwo, hseq⟩ | ⟨-, hf, -⟩⟩ :=
      set_strings_error hev hfields hroot rfl h
    · cases hf
      exact ⟨rfl, htwo, s, w, fill, hcomes, rfl, hseq⟩
    · cases hf

end Fields

/-- A crate: the quantity of its line takes one string, neither none nor two. -/
theorem fieldFaults_stocked :
    Crate.evaluator.Typed ∧ Crate.evaluator.schema.OnlyFields Crate.stocked.typeOf ∧
      HasType Crate.evaluator.schema Crate.stocked Crate.stocked.typeOf ∧
      (Crate.evaluator.set "lines[0].qty" (.strings []) Crate.stocked).result =
        .error (.typeMismatch "qty" (.int .u32) .null) ∧
      (Crate.evaluator.set "lines[0].qty" (.strings ["1", "2"]) Crate.stocked).result =
        .error (.arity "qty" 2) ∧
      Crate.evaluator.FieldFaults "lines[0].qty" Crate.stocked := by
  have htyped : Crate.evaluator.Typed := typed_of_isPlain Crate.isPlain
  have hfields := Schema.OnlyFields.of_isPlain Crate.isPlain Crate.stocked.typeOf
  exact ⟨htyped, hfields, Crate.hasType_stocked, rfl, rfl,
    fieldFaults htyped hfields Crate.hasType_stocked "lines[0].qty"⟩

end Evaluator

end ObjectPath
