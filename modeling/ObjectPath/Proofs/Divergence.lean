import ObjectPath.Proofs.Fields

/-!
# The frame of a write

Two paths diverge where they take steps to different slots of one value (`Diverge`).  Where there
are only fields, a write that succeeds keeps what is read at the end of a path that diverges from
its own, and in the values it passes it keeps everything beside its path in place
(`Evaluator.KeepsOthers`): the other slots of a record, fields or not, the other items of a sequence
and the other entries of a map, in the order of their insertion.

Fields with different names may be registered for one slot.  They do not diverge: a write through
the one is read through the other (`Evaluator.aliased_field_changed`).
-/

namespace ObjectPath

/-! ## Steps beside each other -/

namespace Step

/-- Steps from one value to different slots of it. -/
inductive Apart : Step → Step → Prop
  | field {f g : Field} (h : f.slot ≠ g.slot) : Apart (.member (.field f)) (.member (.field g))
  | item {i j : Nat} {t u : Ty} {o o' : Option Member} (h : i ≠ j) :
      Apart (.element i t o) (.element j u o')
  | entry {k l : Value} {label label' : String} {t u : Ty} {o o' : Option Member} (h : k ≠ l) :
      Apart (.entry k label t o) (.entry l label' u o')

/-- The same step, however its index or its key was written. -/
inductive Alike : Step → Step → Prop
  | member (m : Member) : Alike (.member m) (.member m)
  | indexed (m : Member) (i : Value) (label label' : String) :
      Alike (.indexed m i label) (.indexed m i label')
  | item (i : Nat) (t : Ty) (o : Option Member) : Alike (.element i t o) (.element i t o)
  | entry (k : Value) (label label' : String) (t : Ty) (o : Option Member) :
      Alike (.entry k label t o) (.entry k label' t o)

end Step

/-- Two lists of steps from one value take the same steps up to one where they part. -/
inductive Diverge : List Step → List Step → Prop
  | here {s s' : Step} {ss ss' : List Step} (h : s.Apart s') : Diverge (s :: ss) (s' :: ss')
  | behind {s s' : Step} {ss ss' : List Step} (h : s.Alike s') (hrest : Diverge ss ss') :
      Diverge (s :: ss) (s' :: ss')

/-- Everything but what is under `key` is kept, and where entries are listed in the order of their
insertion, those that were there keep their places. -/
structure EntriesInPlace (k : MapKind) (key : Value) (es es' : List (Value × Value)) : Prop where
  kept : EntriesKept key es es'
  order : k.byKey = false → es.map (·.1) <+: es'.map (·.1)

/-- Everything beside what a field, an index or a key leads to is kept in its place. -/
inductive Step.KeepsBeside : Step → Value → Value → Prop
  | field {f : Field} {path : String} {xs ys : List Value} (h : SlotsKept f.slot xs ys) :
      KeepsBeside (.member (.field f)) (.record path xs) (.record path ys)
  | item {i : Nat} {t u : Ty} {o : Option Member} {k : SeqKind} {xs ys : List Value}
      (hlen : xs.length ≤ ys.length) (h : ∀ j, j ≠ i → j < xs.length → ys[j]? = xs[j]?) :
      KeepsBeside (.element i t o) (.seq k u xs) (.seq k u ys)
  | entry {key : Value} {label : String} {t a b : Ty} {o : Option Member} {k : MapKind}
      {es es' : List (Value × Value)} (h : EntriesInPlace k key es es') :
      KeepsBeside (.entry key label t o) (.map k a b es) (.map k a b es')

namespace EntriesInPlace

variable {k : MapKind} {key v : Value} {es es' es'' : List (Value × Value)}

theorem refl : EntriesInPlace k key es es := ⟨fun _ _ => rfl, fun _ => List.prefix_refl _⟩

theorem trans (h : EntriesInPlace k key es es') (h' : EntriesInPlace k key es' es'') :
    EntriesInPlace k key es es'' :=
  ⟨fun other ho => (h'.kept other ho).trans (h.kept other ho),
    fun hk => (h.order hk).trans (h'.order hk)⟩

theorem replace : EntriesInPlace k key es (Entries.replace key v es) :=
  ⟨fun _ ho => Entries.get?_replace_of_ne ho v es,
    fun _ => Entries.prefix_map_fst_replace key v es⟩

theorem insert : EntriesInPlace k key es (Entries.insert k key v es) :=
  ⟨fun _ ho => by rw [Entries.get?_insert, if_neg ho],
    fun hk => Entries.prefix_map_fst_insert hk key v es⟩

end EntriesInPlace

namespace Step

variable {s : Schema} {t : Ty} {st st' : Step} {u v w x y : Value}

/-! ## What one step keeps -/

/-- Accesses to an entry leave the others where they are. -/
theorem Accesses.inPlace {key : Value} {label : String} {t a b : Ty} {o : Option Member}
    {k : MapKind} {es : List (Value × Value)}
    (h : (Step.entry key label t o).Accesses s (.map k a b es) w) :
    ∃ es', w = .map k a b es' ∧ EntriesInPlace k key es es' := by
  generalize hv : Value.map k a b es = v at h
  induction h generalizing es with
  | refl => exact ⟨es, hv.symm, .refl⟩
  | ask ho _ ih =>
    subst hv
    exact ih (left_of_container (by simp) (by simp) ho).symm
  | @fill v u w x p hp h ih =>
    subst hv
    obtain rfl := left_of_container (by simp) (by simp) hp
    have hfill := (Value.atKey?_map (Offer.of_eq_place (Except.ok.inj hp))).2 x
    obtain ⟨es', rfl, hkept⟩ := ih hfill.symm
    exact ⟨es', rfl, EntriesInPlace.replace.trans hkept⟩
  | @store v w x h ih =>
    subst hv
    have hstore : ∃ zs, ((Step.entry key label t o).store s (.map k a b es) x).value =
        .map k a b zs ∧ EntriesInPlace k key es zs := by
      simp only [Step.store]
      split
      · exact ⟨_, rfl, .insert⟩
      · exact ⟨es, rfl, .refl⟩
    obtain ⟨zs, hzs, hkept⟩ := hstore
    obtain ⟨es', rfl, hes'⟩ := ih hzs.symm
    exact ⟨es', rfl, hkept.trans hes'⟩

theorem KeepsBeside.of_accesses (hinto : st.LeadsInto v) (h : st.Accesses s v w) :
    st.KeepsBeside v w := by
  cases hinto with
  | field =>
    obtain ⟨ys, rfl, hys⟩ := h.slots
    exact .field hys
  | item =>
    obtain ⟨ys, rfl, hys⟩ := h.items
    exact .item hys.length_le hys.items
  | entry =>
    obtain ⟨es', rfl, hes'⟩ := h.inPlace
    exact .entry hes'

/-- What is kept of a sequence that became longer was kept of the shorter one. -/
theorem KeepsBeside.of_grownTo (hgrown : v.GrownTo u) (h : st.KeepsBeside u w) :
    st.KeepsBeside v w := by
  cases hgrown with
  | refl => exact h
  | @longer k t xs ys hpre =>
    cases h with
    | item hlen hitems =>
      refine .item (Nat.le_trans hpre.length_le hlen) fun j hj hlt => ?_
      rw [hitems j hj (Nat.lt_of_lt_of_le hlt hpre.length_le), List.getElem?_eq_getElem hlt]
      exact (List.prefix_iff_getElem?.1 hpre) j hlt

/-- A step apart from the one that was taken reads what it read before. -/
theorem KeepsBeside.read (h : st.KeepsBeside v w) (hapart : st.Apart st')
    (hx : st'.read v = .ok (some x)) : st'.read w = .ok (some x) := by
  suffices hslot : ∃ c, st'.slot v = .ok (some c) ∧ st'.slot w = .ok (some c) by
    obtain ⟨c, hc, hc'⟩ := hslot
    rw [read_of_slot hc] at hx
    rw [read_of_slot hc']
    exact hx
  obtain ⟨c, hc, -⟩ := slot_of_read hx
  refine ⟨c, hc, ?_⟩
  cases h with
  | @field f path xs ys hkept =>
    cases hapart with
    | @field _ g hne =>
      simp only [slot, Member.read, Value.map_value_atSlot?] at hc ⊢
      rw [hkept.slots _ hne.symm, hc]
  | @item i t a o k xs ys hlen hitems =>
    cases hapart with
    | @item _ j _ _ _ _ hne =>
      simp only [slot, Except.ok.injEq] at hc ⊢
      rw [hitems j hne.symm (List.getElem?_eq_some_iff.1 hc).1, hc]
  | entry hkept =>
    cases hapart with
    | entry hne =>
      simp only [slot, Except.ok.injEq] at hc ⊢
      rw [hkept.kept _ hne.symm, hc]

theorem Alike.read (h : st.Alike st') (hx : st'.read v = .ok (some x)) :
    st.read v = .ok (some x) := by
  cases h with
  | member | indexed | item => exact hx
  | entry => cases v <;> first | exact hx | cases hx

theorem Alike.symm (h : st.Alike st') : st'.Alike st := by
  cases h <;> constructor

theorem Alike.type_eq (h : st.Alike st') : st'.type = st.type := by
  cases h <;> rfl

theorem Alike.origin_eq (h : st.Alike st') : st'.origin = st.origin := by
  cases h <;> rfl

/-- A sequence that became longer reads as before where it could be read. -/
theorem read_of_grownTo (hst : st.Fits s v.typeOf) (hgrown : v.GrownTo w)
    (hx : st.read v = .ok (some x)) : st.read w = .ok (some x) := by
  cases hgrown with
  | refl => exact hx
  | @longer k t xs ys hpre =>
    obtain ⟨c, hc, hval⟩ := slot_of_read hx
    cases hst with
    | member hm | indexed hm =>
      obtain ⟨path, d, h, -, -⟩ := hm.madeOf
      cases h
    | @element i _ item o =>
      have hc : xs[i]? = some c := Except.ok.inj hc
      have hlt := (List.getElem?_eq_some_iff.1 hc).1
      have hys : ys[i]? = some c := by
        rw [List.prefix_iff_getElem?.1 hpre i hlt, ← List.getElem?_eq_getElem hlt, hc]
      have hslot : (element i t o).slot (.seq k t ys) = .ok (some c) := congrArg Except.ok hys
      rw [read_of_slot hslot]
      exact congrArg Except.ok hval

end Step

/-! ## What a walk keeps -/

namespace Evaluator

variable {ev : Evaluator} {payload : Payload} {site : Site} {a c : Atom} {rest others : List Atom}
  {st : Step} {ss : List Step} {v w x y old : Value} {t : Ty} {s : Step}

/-- What a path leads to; without atoms, the value itself. -/
def reached (ev : Evaluator) (v : Value) (site : Site) : List Atom → Option Value
  | [] => some v
  | a :: rest =>
    match ev.read v site (a :: rest) with
    | .ok (.found x _) => some x
    | _ => none

/-- What a write along some atoms and their steps keeps beside its path: what is read at the end of
a path that diverges from it, and in each value on the way what is beside the path. -/
structure KeepsOthers (ev : Evaluator) (root : Value) (atoms : List Atom) (ss : List Step)
    (after : Value) : Prop where
  apart : ∀ other others ts x, parse other = .ok others → ev.trail (start root) others = .ok ts →
    Diverge ss ts → ev.get other root = .ok (some x) → ev.get other after = .ok (some x)
  beside : ∀ i st old, ss[i]? = some st → ev.reached root (start root) (atoms.take i) = some old →
    ∃ new, ev.reached after (start after) (atoms.take i) = some new ∧ st.KeepsBeside old new

theorem reached_eq_some :
    ev.reached v site (a :: rest) = some x ↔
      ∃ s, ev.read v site (a :: rest) = .ok (.found x s) := by
  simp only [reached]
  split
  · next y s hr => simp [hr]
  · next hr => exact ⟨nofun, fun ⟨s, h⟩ => absurd h (hr x s)⟩

/-- Values that read alike behind the first step of a path read alike along the whole path. -/
theorem read_eq_of_step (hres : ev.resolve site a = .ok (.step st))
    (hv : st.read v = .ok (some x)) (hw : st.read w = .ok (some x)) :
    ev.read w site (a :: rest) = ev.read v site (a :: rest) := by
  cases rest with
  | nil => rw [read_last hres hv, read_last hres hw]
  | cons b rest => rw [read_step hres hv, read_step hres hw]

section Below

variable (hres : ev.resolve site a = .ok (.step st)) (hx : st.read v = .ok (some x))
  (hxtype : HasType ev.schema x st.type.declared)

include hres hx hxtype

theorem read_below : ev.read v site (a :: c :: rest) =
    ev.read x (.value st.type.declared st.origin) (c :: rest) := by
  rw [read_step hres hx, hxtype.typeOf_eq]

theorem reached_below (rest : List Atom) :
    ev.reached v site (a :: rest) = ev.reached x (.value st.type.declared st.origin) rest := by
  cases rest with
  | nil => simp only [reached, read_last hres hx]
  | cons c rest => simp only [reached, read_below hres hx hxtype]

end Below

/-- A path whose first step is alike goes on at the same site. -/
theorem read_alike {s' : Step} (halike : st.Alike s') (hres : ev.resolve site a = .ok (.step s'))
    (hx : st.read v = .ok (some x)) (hxtype : HasType ev.schema x st.type.declared) :
    ev.read v site (a :: c :: rest) =
      ev.read x (.value st.type.declared st.origin) (c :: rest) := by
  have hxtype' : HasType ev.schema x s'.type.declared := by rwa [halike.type_eq]
  rw [read_below hres (halike.symm.read hx) hxtype', halike.type_eq, halike.origin_eq]

section Fields

variable (hev : ev.Typed) (hfields : ev.schema.OnlyFields t) (hsite : site.Fits ev.schema t)

include hev hfields hsite

/-- The first step of a path is that of its first atom. -/
theorem exists_step_of_trail (h : ev.trail site (a :: rest) = .ok ss) :
    ∃ st ts, ev.resolve site a = .ok (.step st) ∧ ss = st :: ts := by
  cases hres : ev.resolve site a with
  | error f => rw [trail_error hres] at h; cases h
  | ok r =>
    cases r with
    | site next => exact absurd hres (not_site_of_resolve hev hfields hsite)
    | step st =>
      refine ⟨st, ss.tail, rfl, ?_⟩
      cases rest with
      | nil => rw [trail_last hres] at h; cases h; rfl
      | cons b rest => obtain ⟨ts, rfl, -⟩ := trail_step_ok hres h; rfl

/-- A sequence that became longer reads as before along a path that could be read. -/
theorem read_of_grownTo (hv : HasType ev.schema v t) (hgrown : v.GrownTo w)
    (h : ev.read v site (a :: rest) = .ok (.found x s)) :
    ev.read w site (a :: rest) = .ok (.found x s) := by
  cases hres : ev.resolve site a with
  | error f => rw [read_error hres] at h; cases h
  | ok r =>
    cases r with
    | site next => exact absurd hres (not_site_of_resolve hev hfields hsite)
    | step st =>
      obtain ⟨y, hy⟩ := read_of_found hres h
      have hst := fits_step hev hsite hres
      rw [← hv.typeOf_eq] at hst
      rw [read_eq_of_step hres hy (Step.read_of_grownTo hst hgrown hy)]
      exact h

/-- A path leads to the same in a sequence that became longer, or to the sequence itself. -/
theorem reached_of_grownTo (hv : HasType ev.schema v t) (hgrown : v.GrownTo w) {atoms : List Atom}
    (h : ev.reached v site atoms = some old) :
    ∃ old', ev.reached w site atoms = some old' ∧ old.GrownTo old' := by
  cases atoms with
  | nil => cases h; exact ⟨w, rfl, hgrown⟩
  | cons a rest =>
    obtain ⟨s, hread⟩ := reached_eq_some.1 h
    exact ⟨old, reached_eq_some.2 ⟨s, read_of_grownTo hev hfields hsite hv hgrown hread⟩, .refl old⟩

end Fields

section Typed

variable (hev : ev.Typed) (hpay : payload.Typed ev.schema)

include hev hpay

/-- A write keeps what is read at the end of a path that diverges from its own. -/
theorem read_write_apart {atoms : List Atom} :
    ∀ {v : Value} {t : Ty} {site : Site} {others : List Atom} {ss ts : List Step},
      ev.schema.OnlyFields t → HasType ev.schema v t → site.Fits ev.schema t →
      ev.trail site atoms = .ok ss → ev.trail site others = .ok ts → Diverge ss ts →
      (ev.write payload v site atoms).result = .ok () →
      ev.read v site others = .ok (.found x s) →
        ev.read (ev.write payload v site atoms).value site others = .ok (.found x s) := by
  induction atoms with
  | nil => intro v t site others ss ts _ _ _ _ _ _ h _; rw [write] at h; cases h
  | cons a rest ih =>
    intro v t site others ss ts hfields hv hsite hss hts hdiverge h hread
    cases others with
    | nil => rw [read] at hread; cases hread
    | cons c others =>
      obtain ⟨st, ss, hres, rfl⟩ := exists_step_of_trail hev hfields hsite hss
      obtain ⟨st', ts, hres', rfl⟩ := exists_step_of_trail hev hfields hsite hts
      obtain ⟨y, hy⟩ := read_of_found hres' hread
      have hst := fits_step hev hsite hres
      cases hdiverge with
      | here hapart =>
        have hkeeps : st.KeepsBeside v (ev.write payload v site (a :: rest)).value :=
          .of_accesses (Step.leadsInto hfields hst hv) (accesses_write hres)
        rw [read_eq_of_step hres' hy (hkeeps.read hapart hy)]
        exact hread
      | behind halike hbehind =>
        -- Both paths go on, since what is left of their steps parts further down.
        cases rest with
        | nil => rw [trail_last hres] at hss; cases hss; cases hbehind
        | cons b rest =>
          cases others with
          | nil => rw [trail_last hres'] at hts; cases hts; cases hbehind
          | cons d others =>
            obtain ⟨ss', heq, hss'⟩ := trail_step_ok hres hss
            obtain ⟨ts', heq', hts'⟩ := trail_step_ok hres' hts
            cases heq
            cases heq'
            obtain ⟨z, hgrown, hz, hbelow, hafter⟩ :=
              write_below hev hfields hst hv hpay hres (halike.read hy) h
            have hytype := Step.hasType_read hev.schema hst hv (halike.read hy)
            have hsite' := fits_below hst st.type.declared
            have hw := hasType_write hev hpay (b :: rest) hz hsite'
            rw [halike.type_eq, halike.origin_eq] at hts'
            rw [read_alike halike hres' (halike.read hy) hytype] at hread
            rw [read_alike halike hres' hafter hw]
            exact ih (hfields.below hst) hz hsite' hss' hts' hbehind hbelow
              (read_of_grownTo hev (hfields.below hst) hsite' hytype hgrown hread)

/-- A write keeps what is beside its path in the values on its way. -/
theorem reached_write {atoms : List Atom} :
    ∀ {v : Value} {t : Ty} {site : Site} {ss : List Step} {i : Nat} {st : Step} {old : Value},
      ev.schema.OnlyFields t → HasType ev.schema v t → site.Fits ev.schema t →
      ev.trail site atoms = .ok ss → (ev.write payload v site atoms).result = .ok () →
      ss[i]? = some st → ev.reached v site (atoms.take i) = some old →
        ∃ new, ev.reached (ev.write payload v site atoms).value site (atoms.take i) = some new ∧
          st.KeepsBeside old new := by
  induction atoms with
  | nil => intro v t site ss i st old _ _ _ _ h; rw [write] at h; cases h
  | cons a rest ih =>
    intro v t site ss i st old hfields hv hsite hss h hi hold
    obtain ⟨st', ss, hres, rfl⟩ := exists_step_of_trail hev hfields hsite hss
    have hst := fits_step hev hsite hres
    cases i with
    | zero =>
      cases hi
      cases hold
      exact ⟨_, rfl, .of_accesses (Step.leadsInto hfields hst hv) (accesses_write hres)⟩
    | succ i =>
      rw [List.getElem?_cons_succ] at hi
      rw [List.take_succ_cons] at hold ⊢
      cases rest with
      | nil => rw [trail_last hres] at hss; cases hss; cases hi
      | cons b rest =>
        obtain ⟨ss', heq, hss'⟩ := trail_step_ok hres hss
        cases heq
        obtain ⟨s, hread⟩ := reached_eq_some.1 hold
        obtain ⟨y, hy⟩ := read_of_found hres hread
        obtain ⟨z, hgrown, hz, hbelow, hafter⟩ :=
          write_below hev hfields hst hv hpay hres hy h
        have hytype := Step.hasType_read hev.schema hst hv hy
        have hsite' := fits_below hst st'.type.declared
        have hfields' := hfields.below hst
        rw [reached_below hres hy hytype] at hold
        rw [reached_below hres hafter (hasType_write hev hpay (b :: rest) hz hsite')]
        obtain ⟨old', hold', hgrown'⟩ := reached_of_grownTo hev hfields' hsite' hytype hgrown hold
        obtain ⟨new, hnew, hkeeps⟩ := ih hfields' hz hsite' hss' hbelow hi hold'
        exact ⟨new, hnew, hkeeps.of_grownTo hgrown'⟩

end Typed

/-! ## Expressions -/

/-- A write that succeeds where there are only fields keeps the values at the end of diverging paths
and everything beside its path. -/
theorem set_keepsOthers (hev : ev.Typed) {root : Value} (hfields : ev.schema.OnlyFields root.typeOf)
    (hpay : payload.Typed ev.schema) (hroot : HasType ev.schema root root.typeOf) {source : String}
    (h : (ev.set source payload root).result = .ok ()) :
    ∃ atoms ss, parse source = .ok atoms ∧ ev.trail (start root) atoms = .ok ss ∧
      ev.KeepsOthers root atoms ss (ev.set source payload root).value := by
  cases hparse : parse source with
  | error f => rw [set_of_parse_error hparse] at h; cases h
  | ok atoms =>
    obtain ⟨hvalue, hresult⟩ := set_of_parse hparse ev payload root
    rw [hresult] at h
    have hsite : (start root).Fits ev.schema root.typeOf := fits_start root
    have hstart := start_write hev hpay hroot atoms
    obtain ⟨s, y, hs, -⟩ := terminal_of_write hev hroot hsite h
    obtain ⟨ss, hss, -⟩ := exists_trail_of_terminal hs
    refine ⟨atoms, ss, rfl, hss, ⟨fun other others ts x hother hts hdiverge hx => ?_,
      fun i st old hi hold => ?_⟩⟩
    · obtain ⟨s', hread⟩ := read_of_get hother hx
      have hafter := read_write_apart hev hpay hfields hroot hsite hss hts hdiverge h hread
      rw [hvalue]
      exact get_eq (s := s') hother (by rw [hstart]; exact hafter)
    · rw [hvalue, hstart]
      exact reached_write hev hpay hfields hroot hsite hss h hi hold

set_option maxRecDepth 10000 in
/-- The lines of a crate are made longer for the third one; beside it stand the first line, the
marks and the seal. -/
theorem set_keepsOthers_stocked :
    Crate.evaluator.Typed ∧ Crate.evaluator.schema.OnlyFields Crate.stocked.typeOf ∧
      (Payload.value (some (.int .u32 7))).Typed Crate.evaluator.schema ∧
      HasType Crate.evaluator.schema Crate.stocked Crate.stocked.typeOf ∧
      (Crate.evaluator.set "lines[2].qty" (.value (some (.int .u32 7))) Crate.stocked).result =
        .ok () ∧
      ∃ atoms ss, parse "lines[2].qty" = .ok atoms ∧
        Crate.evaluator.trail (start Crate.stocked) atoms = .ok ss ∧
        Crate.evaluator.KeepsOthers Crate.stocked atoms ss (Crate.evaluator.set "lines[2].qty"
          (.value (some (.int .u32 7))) Crate.stocked).value := by
  have hpay : (Payload.value (some (.int .u32 7))).Typed Crate.evaluator.schema :=
    .of_checks _ _ (by decide)
  have hok : (Crate.evaluator.set "lines[2].qty" (.value (some (.int .u32 7)))
      Crate.stocked).result = .ok () := rfl
  have htyped : Crate.evaluator.Typed := typed_of_isPlain Crate.isPlain
  have hfields := Schema.OnlyFields.of_isPlain Crate.isPlain Crate.stocked.typeOf
  exact ⟨htyped, hfields, hpay, Crate.hasType_stocked, hok,
    set_keepsOthers htyped hfields hpay Crate.hasType_stocked hok⟩

end Evaluator

/-! ## Two fields of one slot -/

namespace Aliased

/-- Two declarations of a field for one slot. -/
def members : List Catalog.FreeMember :=
  [⟨.field, "left", "n0", .plain, []⟩, ⟨.field, "right", "n0", .plain, []⟩]

/-- The evaluator for a workbench with these fields. -/
def evaluator : Evaluator := ⟨⟨[Catalog.workbench members, Catalog.line], []⟩, .empty⟩

/-- A workbench with a 1 in the slot of the fields. -/
def bench : Value := (Catalog.workbench members).fresh.setSlot 2 (.int .u32 1)

theorem isPlain : evaluator.schema.isPlain = true := by decide

end Aliased

namespace Evaluator

set_option maxRecDepth 10000 in
/-- What is written to the field `left` is read from the field `right`. -/
theorem aliased_field_changed :
    Aliased.evaluator.Typed ∧ Aliased.evaluator.schema.OnlyFields Aliased.bench.typeOf ∧
      HasType Aliased.evaluator.schema Aliased.bench Aliased.bench.typeOf ∧
      (∃ f g : Field, f.name = "left" ∧ g.name = "right" ∧
        (do Aliased.evaluator.trail (start Aliased.bench) (← parse "left")) =
          .ok [.member (.field f)] ∧
        (do Aliased.evaluator.trail (start Aliased.bench) (← parse "right")) =
          .ok [.member (.field g)]) ∧
      (Aliased.evaluator.set "left" (.value (some (.int .u32 7))) Aliased.bench).result = .ok () ∧
      Aliased.evaluator.get "right" Aliased.bench = .ok (some (.int .u32 1)) ∧
      Aliased.evaluator.get "right" (Aliased.evaluator.set "left" (.value (some (.int .u32 7)))
        Aliased.bench).value = .ok (some (.int .u32 7)) :=
  ⟨typed_of_isPlain Aliased.isPlain, .of_isPlain Aliased.isPlain _, .of_checks _ _ (by decide),
    ⟨⟨"left", 2, .int .u32, .empty⟩, ⟨"right", 2, .int .u32, .empty⟩, rfl, rfl, rfl, rfl⟩,
    rfl, rfl, rfl⟩

end Evaluator

end ObjectPath
