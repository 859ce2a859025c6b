import ObjectPath.Proofs.Atomicity
import ObjectPath.Proofs.Delivery
import ObjectPath.Proofs.Fields
import ObjectPath.Proofs.TextForms

/-!
# Texts and values bound alike

With the standard registry the text of a value is bound like the value itself.
`Evaluator.BindsTexts` says so for a slot of a leaf type, an optional one and a sequence, at the end
of any path, and also of writes that fail.  What is delivered at the last step is the same
(`Registry.parse_write`), and a walk does not depend on what it delivers (`Evaluator.set_agrees`).

So binding back the text that was read binds back the value that was read.  That leaves what the
path reads as it was if the getters on the way read where they offer a place, and the last member
reads what was stored in it (`Step.Faithful`, `Evaluator.read_write_back`).  A setter that changes
what it stores does not: the address of a user is stored in lower case
(`Evaluator.address_lowered`).
-/

namespace ObjectPath

/-- A leaf whose text the standard registry reads as the leaf. -/
def Leaf.Exact (l : Leaf) : Prop := l.InRange ∧ l.type.isExact = true

/-! ## Values in optional slots -/

/-- An optional slot takes a value of its inner type like the value in an optional slot. -/
theorem Ty.prepare_present (v : Value) (member : String) :
    (Ty.option v.typeOf).prepare member (some (.present v)) =
      (Ty.option v.typeOf).prepare member (some v) := by
  rw [prepare_inner member rfl]
  exact prepare_of_fit member (if_pos rfl)

/-! ## Converting the texts of leaves -/

namespace Registry

variable {l : Leaf} {t : LeafTy}

/-- The text of a leaf is converted to the leaf. -/
theorem parse_write (hl : l.Exact) :
    standard.parse none l.write (.leaf l.type) = .ok (.leaf l) := by
  show standard.convert none (.leaf l.type) l.write = .ok (.leaf l)
  by_cases htext : l.type = .text
  · cases l <;> cases htext
    rfl
  · obtain ⟨c, hc, hparse, -⟩ := exists_standard hl.1 hl.2
    have hne : Ty.leaf l.type ≠ .text := fun h => htext (Ty.leaf.inj h)
    have hfit : (Ty.leaf l.type).fit (.leaf l) = .ok (.leaf l) := if_pos rfl
    simp only [convert, if_neg hne, hc, hparse, hfit]

/-- In an optional slot a text that is not blank stands for a leaf in the slot. -/
theorem parse_write_option (hl : l.Exact) (hblank : Text.allBlank l.write = false) :
    standard.parse none l.write (.option (.leaf l.type)) = .ok (.present (.leaf l)) := by
  have hwrap : Value.wrap (.leaf l.type) (.leaf l) = .ok (.present (.leaf l)) := if_pos rfl
  simp only [parse, hblank, Bool.false_eq_true, if_false]
  rw [show standard.convert none (.leaf l.type) l.write = .ok (.leaf l) from parse_write hl]
  simp only [hwrap]

theorem parse_blank (r : Registry) (override : Option Converter) {raw : String} {t : Ty}
    (hblank : Text.allBlank raw = true) :
    r.parse override raw (.option t) = .ok (.absent t) := by
  simp only [parse, hblank, if_true]

/-- The texts of leaves are converted to the leaves. -/
theorem parseItems_write (ls : List Leaf) (hls : ∀ l ∈ ls, l.Exact ∧ l.type = t) :
    standard.parseItems none (.leaf t) (ls.map Leaf.write) = .ok (ls.map .leaf) := by
  induction ls with
  | nil => rfl
  | cons l ls ih =>
    obtain ⟨⟨hl, rfl⟩, hls⟩ := List.forall_mem_cons.1 hls
    simp only [List.map_cons, parseItems, parse_write hl, ih hls]

/-- The text of a leaf is the text the registry writes for it. -/
theorem format_leaf (hl : l.Exact) : standard.format none (.leaf l) = .ok l.write := by
  obtain ⟨c, hc, -, hformat⟩ := exists_standard hl.1 hl.2
  unfold format
  dsimp only
  split
  · next s hs => cases hs; rfl
  · rw [show (Value.leaf l).typeOf = .leaf l.type from rfl, hc]
    simp only [hformat]

/-- One string is converted for a slot that holds no sequence. -/
theorem parseStrings_singleton (r : Registry) (override : Option Converter) {target : Ty}
    (member raw : String) {v : Value} (htarget : ∀ k item, target.declared ≠ .seq k item)
    (h : r.parse override raw target = .ok v) :
    r.parseStrings override target member [raw] = .ok (some v) := by
  unfold parseStrings
  split
  · next k item hd => exact absurd hd (htarget k item)
  · simp only [h]

theorem parseStrings_items {r : Registry} {override : Option Converter} {target : Ty}
    {k : SeqKind} (member : String) {raw : List String} {ls : List Leaf}
    (htarget : target.declared = .seq k (.leaf t)) (hls : ∀ l ∈ ls, l.type = t)
    (h : r.parseItems override (.leaf t) raw = .ok (ls.map .leaf)) :
    r.parseStrings override target member raw =
      .ok (some (.seq k (.leaf t) (ls.map .leaf))) := by
  have hcollect : Value.collect k (.leaf t) (ls.map .leaf) =
      .ok (.seq k (.leaf t) (ls.map .leaf)) := by
    refine Value.collect_of_typeOf (fun v hv => ?_) k
    obtain ⟨l, hl, rfl⟩ := List.mem_map.1 hv
    exact congrArg Ty.leaf (hls l hl)
  unfold parseStrings
  split
  · next k' item hd =>
    rw [htarget] at hd
    cases hd
    simp only [h, hcollect]
  · next hne => exact absurd htarget (hne k (.leaf t))

end Registry

/-! ## Binding back what was read -/

theorem HasType.exists_leaf {s : Schema} {v : Value} {t : LeafTy} (h : HasType s v (.leaf t)) :
    ∃ l, v = .leaf l ∧ l.InRange ∧ l.type = t := by
  cases h with
  | @leaf l hl => exact ⟨l, rfl, hl, rfl⟩

/-- The member reads where it offers a place to a write: both lead to one slot, and to offer it the
member leaves the record alone. -/
structure Member.ReadsInPlace (s : Schema) (t : Ty) (m : Member) : Prop where
  showsPlace : m.ShowsPlace s t
  leaves : m.LeavesRecord
  place : ∀ r x, HasType s r t → m.read r = .ok (some x) → ∃ p, m.place r = .ok (.place r p)
  placeAt : ∀ r i x u, HasType s r t → m.index? = some u → HasType s i u →
    m.readAt r i = .ok (some x) → ∃ p, m.placeAt r i = .ok (.place r p)

/-- A field reads where it offers a place. -/
theorem Member.readsInPlace_field (s : Schema) (t : Ty) (f : Field) :
    (Member.field f).ReadsInPlace s t where
  showsPlace := (sharesSlot_field f).showsPlace
  leaves := leavesRecord_field f
  place r x _ hx := by
    obtain ⟨p, hp, -⟩ := Option.map_eq_some_iff.1 (Except.ok.inj hx)
    exact ⟨p, congrArg (Except.ok <| Offer.of ·) hp⟩
  placeAt _ _ _ _ _ hu := nomatch hu

/-- Steps of a path that leave alone what they go through: the members on the way read where they
offer a place, and that of the last step reads what was stored in it. -/
inductive Step.Faithful (s : Schema) : List Step → Prop
  | last {st : Step} (h : ∀ m t, st.member? = some m → m.Of s t → m.ReadsStored s t) :
      Faithful s [st]
  | further {st : Step} {ss : List Step}
      (h : ∀ m t, st.member? = some m → m.Of s t → m.ReadsInPlace s t) (hss : Faithful s ss) :
      Faithful s (st :: ss)

namespace Step

variable {s : Schema} {t : Ty} {st : Step} {v x : Value}

/-- Where a step through a member that reads in its place reads a value, its slot has a place. -/
theorem slotPlace_of_slot (hlaw : ∀ m, st.member? = some m → m.ReadsInPlace s t) (hst : st.Fits s t)
    (hv : HasType s v t) (hx : st.slot v = .ok (some x)) :
    ∃ q, st.slotPlace v = .ok (.place v q) := by
  cases hst with
  | member => exact (hlaw _ rfl).place v x hv hx
  | indexed _ hu hi => exact (hlaw _ rfl).placeAt v _ x _ hv hu hi hx
  | @element i k item o =>
    cases hv with
    | @seq _ _ items =>
      have hget : (Value.atIndex? i (.seq k item items)).map (·.value) = some x :=
        (Value.map_value_atIndex? i k item items).trans (Except.ok.inj hx)
      obtain ⟨q, hq, -⟩ := Option.map_eq_some_iff.1 hget
      exact ⟨q, congrArg (Except.ok <| Offer.of ·) hq⟩
  | @entry key label k u item o =>
    cases hv with
    | @map _ _ _ es =>
      have hget : (Value.atKey? key (.map k u item es)).map (·.value) = some x :=
        (Value.map_value_atKey? key k u item es).trans (Except.ok.inj hx)
      obtain ⟨q, hq, -⟩ := Option.map_eq_some_iff.1 hget
      exact ⟨q, congrArg (Except.ok <| Offer.of ·) hq⟩

/-- Through a member that reads in its place, what is read stands at the place that is offered, and
what is put there is read. -/
theorem exists_place_of_read (hs : s.Typed)
    (hlaw : ∀ m, st.member? = some m → m.ReadsInPlace s t) (hst : st.Fits s t)
    (hv : HasType s v t) (hx : st.read v = .ok (some x)) :
    ∃ p, st.place v = .ok (.place v p) ∧ p.value = x ∧ st.Shows s p := by
  have hshows : ∀ m, st.member? = some m → m.ShowsPlace s t := fun m hm => (hlaw m hm).showsPlace
  obtain ⟨c, hc, hcx⟩ := slot_of_read hx
  obtain ⟨q, hq⟩ := slotPlace_of_slot hlaw hst hv hc
  have hqc : q.value = c := by
    have hshown := (slot_shown hshows hst hv hq).1
    rw [hc] at hshown
    exact (Option.some.inj (Except.ok.inj hshown)).symm
  have hinner : q.inner?.map (·.value) = some x := by rw [q.map_value_inner?, hqc, hcx]
  obtain ⟨p, hp, hpx⟩ := Option.map_eq_some_iff.1 hinner
  have hplace : st.place v = .ok (.place v p) := by
    rw [place, hq]
    exact congrArg (Except.ok <| Offer.of ·) hp
  exact ⟨p, hplace, hpx, shows_of_member hs hshows hst hv hplace⟩

end Step

namespace Evaluator

variable {ev : Evaluator} {site : Site} {a b : Atom} {atoms rest : List Atom} {s st : Step}
  {v x : Value} {t : Ty} {payload : Payload}

/-- Where a value is read behind a step, approaching the step for it leaves it where it is, or fails
and changes nothing. -/
theorem approach_of_found (hleaves : st.LeavesValue) {p : Place v}
    (hp : st.place v = .ok (.place v p))
    (hfound : ev.read p.value (.value p.value.typeOf st.origin) (b :: rest) = .ok (.found x s)) :
    (ev.approach st b v).value = v := by
  rw [(approach_of_place ev b hp).1]
  obtain h | ⟨f, h, -⟩ | ⟨p', left, longer, n, hp', hout, -⟩ :=
    ev.lengthen_spec_of_leaves b hleaves v
  · rw [h]; rfl
  · rw [h]; rfl
  · rw [hp] at hp'
    cases hp'
    obtain ⟨label, hnull⟩ := read_beyond ev st.origin rest hout.beyond
    rw [hnull] at hfound
    cases hfound

/-- A payload that stands for the value a path reads leaves what the path reads as it was, if the
steps are faithful: by induction on the path, where nothing is created or made longer on the way,
and a write that fails changes nothing. -/
theorem read_write_back (hev : ev.Typed) (hpay : payload.Typed ev.schema) {y : Option Value}
    (hy : ev.bound payload s = .ok y) (hx : s.type.sees y = some x) {atoms : List Atom} :
    ∀ {v : Value} {t : Ty} {site : Site} {ss : List Step}, HasType ev.schema v t →
      site.Fits ev.schema t → ev.trail site atoms = .ok ss → Step.Faithful ev.schema ss →
      ev.read v site atoms = .ok (.found x s) →
      ev.read (ev.write payload v site atoms).value site atoms = .ok (.found x s) := by
  induction atoms with
  | nil => intro v t site ss _ _ _ _ h; rw [read] at h; cases h
  | cons a rest ih =>
    intro v t site ss hv hsite hss hfaithful h
    cases hres : ev.resolve site a with
    | error f => rw [read_error hres] at h; cases h
    | ok r =>
      cases r with
      | site next =>
        rw [read_site hres] at h
        rw [trail_site hres] at hss
        rw [write_site hres, read_site hres]
        exact ih hv (fits_site hev hsite hres) hss hfaithful h
      | step st =>
        have hst := fits_step hev hsite hres
        obtain ⟨w, hw⟩ := read_of_found hres h
        cases rest with
        | nil =>
          have hterminal := (terminal_of_read hev hv hsite h).1
          rw [terminal_last hres] at hterminal
          rw [trail_last hres] at hss
          cases hterminal
          cases hss
          have hlaw : ∀ m, s.member? = some m → m.ReadsStored ev.schema t := by
            intro m hm
            cases hfaithful with
            | last hlast => exact hlast m t hm (hst.of_member hm)
            | further _ hnil => cases hnil
          rw [write_last hres]
          cases hresult : (ev.deliver payload s v).result with
          | error f => rw [deliver_value_of_error hresult]; exact h
          | ok =>
            rw [deliver_eq, hy] at hresult ⊢
            obtain ⟨z, hz, hread⟩ :=
              Step.read_write_of_member hlaw hst hv (hasType_bound hev hpay hst hy) hresult
            rw [Ty.unwrapped_prepare hz, hx] at hread
            exact read_last hres hread
        | cons b rest =>
          obtain ⟨ts, rfl, hts⟩ := trail_step_ok hres hss
          obtain ⟨hlaw, hbelow⟩ : (∀ m, st.member? = some m → m.ReadsInPlace ev.schema t) ∧
              Step.Faithful ev.schema ts := by
            cases hfaithful with
            | last => exact absurd hts (trail_ne_nil ev _ _)
            | further hfirst hts' =>
              exact ⟨fun m hm => hfirst m t hm (hst.of_member hm), hts'⟩
          obtain ⟨p, hp, rfl, hshows⟩ := Step.exists_place_of_read hev.schema hlaw hst hv hw
          rw [read_step hres hw] at h
          obtain ⟨hptype, hsite'⟩ := fits_place hev hst hv hp
          have hleaves := Step.leavesValue fun m hm => (hlaw m hm).leaves
          have happroach := approach_of_found hleaves hp h
          rw [write_step hres]
          cases ha : (ev.approach st b v).result with
          | error f =>
            rw [(Written.andThen_of_error ha).1, happroach, read_step hres hw]
            exact h
          | ok =>
            have hinner := ih hptype hsite' (by rw [hptype.typeOf_eq]; exact hts) hbelow h
            have hwritten := hasType_write hev hpay (b :: rest) hptype hsite'
            rw [(Written.andThen_of_ok ha).1, happroach, descend_of_place hp]
            refine (read_step hres (hshows.2 _ hwritten)).trans ?_
            rw [hwritten.typeOf_eq, ← hptype.typeOf_eq]
            exact hinner

/-! ## Texts bound like values -/

/-- What is read as a text is found by a read, and its text is that of the registry. -/
theorem found_of_getString {source raw : String} {root : Value}
    (hparse : parse source = .ok atoms) (h : ev.getString source root = .ok (some raw)) :
    ∃ x s, ev.read root (start root) atoms = .ok (.found x s) ∧
      ev.converters.format s.override? x = .ok raw := by
  cases hr : ev.read root (start root) atoms with
  | error f => simp [getString, reading, hparse, hr, blame, bind, Except.bind] at h
  | ok r =>
    cases r with
    | null label =>
      simp [getString, reading, hparse, hr, blame, bind, Except.bind, pure, Except.pure] at h
    | found x s =>
      cases hf : ev.converters.format s.override? x with
      | error f =>
        simp only [getString, reading, hparse, hr, hf, blame, bind, Except.bind, Functor.map,
          Except.map] at h
        cases h
      | ok text =>
        simp only [getString, reading, hparse, hr, hf, blame, bind, Except.bind, Functor.map,
          Except.map] at h
        cases h
        exact ⟨x, s, rfl, hf⟩

/-- How texts are bound at an expression that ends at the step `s`.  The text of a leaf is bound
like the leaf, in a slot of its type (`value`), in an optional one (`filled`) and as an item
(`items`), and a blank text like null (`blank`).  The text of a leaf is what is read of a slot that
holds it (`text`).  Binding back what was read leaves it there if the steps of the path are faithful
(`back`). -/
structure BindsTexts (ev : Evaluator) (source : String) (root : Value) (atoms : List Atom)
    (s : Step) : Prop where
  text : ∀ l : Leaf, l.Exact → ev.get source root = .ok (some (.leaf l)) →
    ev.getString source root = .ok (some l.write)
  value : ∀ l : Leaf, l.Exact → s.type = .leaf l.type →
    (ev.set source (.strings [l.write]) root).Agrees (ev.set source (.value (some (.leaf l))) root)
  filled : ∀ l : Leaf, l.Exact → s.type = .option (.leaf l.type) →
    Text.allBlank l.write = false →
      (ev.set source (.strings [l.write]) root).Agrees
        (ev.set source (.value (some (.leaf l))) root)
  blank : ∀ (t : LeafTy) (raw : String), s.type = .option (.leaf t) → Text.allBlank raw = true →
    (ev.set source (.strings [raw]) root).Agrees (ev.set source (.value none) root)
  items : ∀ (k : SeqKind) (t : LeafTy) (ls : List Leaf), s.type.declared = .seq k (.leaf t) →
    (∀ l ∈ ls, l.Exact ∧ l.type = t) →
      (ev.set source (.strings (ls.map Leaf.write)) root).Agrees
        (ev.set source (.value (some (.seq k (.leaf t) (ls.map .leaf)))) root)
  back : ∀ (t : LeafTy) (raw : String), t.isExact = true →
    (s.type = .leaf t ∨ s.type = .option (.leaf t) ∧ Text.allBlank raw = false) →
      ev.getString source root = .ok (some raw) →
        ∀ ss, ev.trail (start root) atoms = .ok ss → Step.Faithful ev.schema ss →
          ev.get source (ev.set source (.strings [raw]) root).value = ev.get source root

section Standard

variable {schema : Schema} {source : String} {root : Value} {atoms : List Atom} {s : Step}
  {t : LeafTy} {l : Leaf} {raw : String}

/-! ### What the texts stand for -/

theorem bound_write (hl : l.Exact) (ho : s.override? = none) (htype : s.type = .leaf l.type) :
    (Evaluator.mk schema .standard).bound (.strings [l.write]) s = .ok (some (.leaf l)) := by
  show Registry.standard.parseStrings s.override? s.type s.label [l.write] = _
  rw [ho, htype]
  exact Registry.parseStrings_singleton _ _ _ _ (fun _ _ h => nomatch h) (Registry.parse_write hl)

theorem bound_write_option (hl : l.Exact) (ho : s.override? = none)
    (htype : s.type = .option (.leaf l.type)) (hblank : Text.allBlank l.write = false) :
    (Evaluator.mk schema .standard).bound (.strings [l.write]) s =
      .ok (some (.present (.leaf l))) := by
  show Registry.standard.parseStrings s.override? s.type s.label [l.write] = _
  rw [ho, htype]
  exact Registry.parseStrings_singleton _ _ _ _ (fun _ _ h => nomatch h)
    (Registry.parse_write_option hl hblank)

theorem bound_blank (htype : s.type = .option (.leaf t)) (hblank : Text.allBlank raw = true) :
    (Evaluator.mk schema .standard).bound (.strings [raw]) s = .ok (some (.absent (.leaf t))) := by
  show Registry.standard.parseStrings s.override? s.type s.label [raw] = _
  rw [htype]
  exact Registry.parseStrings_singleton _ _ _ _ (fun _ _ h => nomatch h)
    (Registry.parse_blank _ _ hblank)

theorem bound_items {k : SeqKind} {ls : List Leaf} (ho : s.override? = none)
    (htype : s.type.declared = .seq k (.leaf t)) (hls : ∀ l ∈ ls, l.Exact ∧ l.type = t) :
    (Evaluator.mk schema .standard).bound (.strings (ls.map Leaf.write)) s =
      .ok (some (.seq k (.leaf t) (ls.map .leaf))) := by
  show Registry.standard.parseStrings s.override? s.type s.label (ls.map Leaf.write) = _
  rw [ho]
  exact Registry.parseStrings_items _ htype (fun l hl => (hls l hl).2)
    (Registry.parseItems_write ls hls)

/-- The text of a leaf is bound to what stands for the leaf in its slot. -/
theorem bound_sees (hl : l.Exact) (ho : s.override? = none) (htype : s.type = .leaf l.type ∨
    s.type = .option (.leaf l.type) ∧ Text.allBlank l.write = false) :
    ∃ y, (Evaluator.mk schema .standard).bound (.strings [l.write]) s = .ok y ∧
      s.type.sees y = some (.leaf l) := by
  rcases htype with htype | ⟨htype, hblank⟩
  · refine ⟨_, bound_write hl ho htype, ?_⟩
    rw [htype]
    exact if_pos rfl
  · refine ⟨_, bound_write_option hl ho htype hblank, ?_⟩
    rw [htype]
    exact if_pos rfl

/-! ### Expressions -/

section Bound

variable (hschema : schema.Typed) (hroot : HasType schema root root.typeOf)
  (hparse : parse source = .ok atoms)
  (hs : (Evaluator.mk schema .standard).terminal (start root) atoms = .ok s)

include hschema hroot hs

/-- What is found at an expression stands at the step where the expression ends. -/
theorem found_at_terminal {x : Value} {s' : Step}
    (h : (Evaluator.mk schema .standard).read root (start root) atoms = .ok (.found x s')) :
    s' = s ∧ HasType schema x s.type.declared := by
  have hev : (Evaluator.mk schema .standard).Typed := ⟨hschema, Registry.typed_standard schema⟩
  obtain ⟨hs', hx⟩ := terminal_of_read hev hroot (fits_start root) h
  rw [hs] at hs'
  cases hs'
  exact ⟨rfl, hx⟩

include hparse

/-- Binding back the text that was read leaves what is read, if the steps are faithful. -/
theorem get_set_of_getString (ho : s.override? = none) (ht : t.isExact = true)
    (htype : s.type = .leaf t ∨ s.type = .option (.leaf t) ∧ Text.allBlank raw = false)
    (h : (Evaluator.mk schema .standard).getString source root = .ok (some raw)) {ss : List Step}
    (hss : (Evaluator.mk schema .standard).trail (start root) atoms = .ok ss)
    (hfaithful : Step.Faithful schema ss) :
    (Evaluator.mk schema .standard).get source
        ((Evaluator.mk schema .standard).set source (.strings [raw]) root).value =
      (Evaluator.mk schema .standard).get source root := by
  have hev : (Evaluator.mk schema .standard).Typed := ⟨hschema, Registry.typed_standard schema⟩
  obtain ⟨x, s', hread, hformat⟩ := found_of_getString hparse h
  obtain ⟨rfl, hx⟩ := found_at_terminal hschema hroot hs hread
  have hdeclared : s'.type.declared = .leaf t := by
    rcases htype with htype | ⟨htype, -⟩ <;> rw [htype] <;> rfl
  rw [hdeclared] at hx
  obtain ⟨l, rfl, hl, rfl⟩ := hx.exists_leaf
  have hexact : l.Exact := ⟨hl, ht⟩
  have hraw : raw = l.write := by
    have hwritten := Registry.format_leaf hexact
    rw [ho] at hformat
    exact Except.ok.inj (hformat.symm.trans hwritten)
  subst hraw
  obtain ⟨y, hy, hsees⟩ := @bound_sees schema _ _ hexact ho htype
  have hpay : (Payload.strings [l.write]).Typed schema := trivial
  have hafter := read_write_back hev hpay hy hsees hroot (fits_start root) hss hfaithful hread
  rw [(set_of_parse hparse _ _ root).1, get_eq (s := s') (c := some (.leaf l)) hparse hread]
  exact get_eq (s := s') hparse (by rw [start_write hev hpay hroot atoms]; exact hafter)

/-- Payloads that are bound alike, or prepared alike for the slot, are set alike. -/
theorem agrees_of_bound {payload : Payload} {y y' : Option Value}
    (hy : (Evaluator.mk schema .standard).bound payload s = .ok y)
    (hprepare : s.type.prepare s.label y = s.type.prepare s.label y') :
    ((Evaluator.mk schema .standard).set source payload root).Agrees
      ((Evaluator.mk schema .standard).set source (.value y') root) := by
  have hev : (Evaluator.mk schema .standard).Typed := ⟨hschema, Registry.typed_standard schema⟩
  refine set_agrees hev hroot hparse hs fun w => ?_
  rw [deliver_eq, hy]
  show s.write schema w y = s.write schema w y'
  rw [Step.write, Step.write, hprepare]

end Bound

/-- With the standard registry, texts are bound at every expression like the values they stand for,
unless a tag asks for another converter. -/
theorem bindsTexts (hschema : schema.Typed) (hroot : HasType schema root root.typeOf)
    (hparse : parse source = .ok atoms)
    (hs : (Evaluator.mk schema .standard).terminal (start root) atoms = .ok s)
    (htag : s.tag? .convert = none) :
    (Evaluator.mk schema .standard).BindsTexts source root atoms s := by
  have ho : s.override? = none := by rw [Step.override?, htag]; rfl
  refine ⟨fun l hl h => ?_, fun l hl htype => ?_, fun l hl htype hblank => ?_,
    fun t raw htype hblank => ?_, fun k t ls htype hls => ?_,
    fun t raw ht htype h ss hss hfaithful => ?_⟩
  · obtain ⟨s', hread⟩ := read_of_get hparse h
    obtain ⟨rfl, -⟩ := found_at_terminal hschema hroot hs hread
    have hformat : Registry.standard.format s'.override? (.leaf l) = .ok l.write := by
      rw [ho]
      exact Registry.format_leaf hl
    simp only [getString, reading, hparse, hread, blame, hformat, bind, Except.bind, Functor.map,
      Except.map]
  · exact agrees_of_bound hschema hroot hparse hs (bound_write hl ho htype) rfl
  · refine agrees_of_bound hschema hroot hparse hs (bound_write_option hl ho htype hblank) ?_
    rw [htype]
    exact Ty.prepare_present (.leaf l) s.label
  · refine agrees_of_bound hschema hroot hparse hs (bound_blank htype hblank) ?_
    rw [htype]
    exact Ty.prepare_of_fit s.label (if_pos rfl)
  · exact agrees_of_bound hschema hroot hparse hs (bound_items ho htype hls) rfl
  · exact get_set_of_getString hschema hroot hparse hs ho ht htype h hss hfaithful

end Standard

end Evaluator

/-! ## A shelf -/

/-- The place a property shows is where it reads, if its getter reads what stands there, and offers
it without a change. -/
theorem Member.readsInPlace_of_reader {s : Schema} {t : Ty} {p : Property} {hidden : Option Field}
    (hshows : (Member.property p hidden).ShowsPlace s t)
    (hget : ∀ get offer, p.reader? = some (.getter get offer) →
      ∀ r, ∃ o : Option (Place r), offer r = .of o ∧ get r = o.map (·.value))
    (hgetAt : ∀ u get offer, p.reader? = some (.indexedGetter u get offer) →
      ∀ r i, ∃ o : Option (Place r), offer r i = .of o ∧ get r i = o.map (·.value)) :
    (Member.property p hidden).ReadsInPlace s t where
  showsPlace := hshows
  leaves := by
    refine leavesRecord_property fun a ha => ?_
    cases a with
    | setter | indexedSetter => exact trivial
    | getter get offer =>
      intro r
      obtain ⟨o, ho, -⟩ := hget get offer ha r
      rw [ho, Offer.left_of]
    | indexedGetter u get offer =>
      intro r i
      obtain ⟨o, ho, -⟩ := hgetAt u get offer ha r i
      rw [ho, Offer.left_of]
  place r x _ hx := by
    simp only [read] at hx
    split at hx
    · next get offer hr =>
      obtain ⟨o, ho, hread⟩ := hget get offer hr r
      rw [hread] at hx
      obtain ⟨q, rfl, -⟩ := Option.map_eq_some_iff.1 (Except.ok.inj hx)
      exact ⟨q, by simp only [Member.place, hr, ho]; rfl⟩
    · cases hx
  placeAt r i x u _ _ _ hx := by
    simp only [readAt] at hx
    split at hx
    · next u get offer hr =>
      obtain ⟨o, ho, hread⟩ := hgetAt u get offer hr r i
      rw [hread] at hx
      obtain ⟨q, rfl, -⟩ := Option.map_eq_some_iff.1 (Except.ok.inj hx)
      exact ⟨q, by simp only [Member.placeAt, hr, ho]; rfl⟩
    · cases hx

/-- The members of lines and shelves read where they offer a place. -/
theorem Shelf.readsInPlace {t : Ty} {m : Member} (hm : m.Of evaluator.schema t) :
    m.ReadsInPlace evaluator.schema t := by
  have hshows := (sharesSlots t m hm).showsPlace
  obtain ⟨path, d, rfl, hd, -⟩ := hm.madeOf
  cases m with
  | field f => exact Member.readsInPlace_field _ _ f
  | property p hidden =>
    have hp := hm.property_mem hd
    obtain ⟨rfl, rfl⟩ | ⟨rfl, rfl⟩ := record_cases hd
    · cases hp
    · rw [properties_shelf] at hp
      simp only [List.mem_cons, List.not_mem_nil, or_false] at hp
      obtain rfl | rfl | rfl := hp
      · exact Member.readsInPlace_of_reader hshows
          (fun _ _ h => by cases h; exact fun _ => ⟨_, rfl, rfl⟩) fun _ _ _ h => by cases h
      · exact Member.readsInPlace_of_reader hshows (fun _ _ h => by cases h)
          fun _ _ _ h => by cases h; exact fun _ _ => ⟨_, rfl, rfl⟩
      · exact Member.readsInPlace_of_reader hshows
          (fun _ _ h => by cases h; exact fun _ => ⟨_, rfl, rfl⟩) fun _ _ _ h => by cases h

namespace Evaluator

set_option maxRecDepth 10000 in
/-- The quantity of a line in a bin is bound as a text, and so is what was read of it. -/
theorem bindsTexts_stocked :
    ∃ atoms s ss, Shelf.evaluator.schema.Typed ∧
      HasType Shelf.evaluator.schema Shelf.stocked Shelf.stocked.typeOf ∧
      parse "bin['a b'][0].qty" = .ok atoms ∧
      (Evaluator.mk Shelf.evaluator.schema .standard).terminal (start Shelf.stocked) atoms =
        .ok s ∧
      s.type = .int .u32 ∧ s.tag? .convert = none ∧
      (Evaluator.mk Shelf.evaluator.schema .standard).trail (start Shelf.stocked) atoms = .ok ss ∧
      Step.Faithful Shelf.evaluator.schema ss ∧
      (Evaluator.mk Shelf.evaluator.schema .standard).BindsTexts "bin['a b'][0].qty" Shelf.stocked
        atoms s :=
  ⟨_, _, _, Shelf.typed.schema, Shelf.hasType_stocked, rfl, rfl, rfl, rfl, rfl,
    .further (fun _ _ _ hm => Shelf.readsInPlace hm)
      (.further (fun _ _ _ hm => Shelf.readsInPlace hm)
        (.last fun _ _ _ hm => (Shelf.sharesSlots _ _ hm).readsStored)),
    bindsTexts Shelf.typed.schema Shelf.hasType_stocked rfl rfl rfl⟩

end Evaluator

/-! ## An address that is stored in lower case -/

namespace Mail

/-- The evaluator for users. -/
def evaluator : Evaluator := ⟨⟨[Catalog.address, Catalog.user], []⟩, .standard⟩

/-- A user whose address was stored with capitals. -/
def contact : Value := Catalog.user.fresh.setSlot 4 (.text "A@X")

theorem record_cases {path : String} {d : RecordDecl}
    (h : evaluator.schema.record? path = some d) :
    path = Catalog.pathOf "Address" ∧ d = Catalog.address ∨
      path = Catalog.pathOf "User" ∧ d = Catalog.user := by
  have hmem : d ∈ [Catalog.address, Catalog.user] := List.mem_of_find?_eq_some h
  obtain rfl := Schema.record?_path h
  rcases List.mem_cons.1 hmem with rfl | hmem
  · exact .inl ⟨rfl, rfl⟩
  · rw [List.mem_singleton.1 hmem]
    exact .inr ⟨rfl, rfl⟩

/-- A text whose characters are changed is a text. -/
theorem hasType_mapText {s : Schema} {v : Value} (f : String → String) (h : HasType s v .text) :
    HasType s (v.mapText f) .text := by
  obtain ⟨l, rfl, -, hl⟩ := h.exists_leaf
  cases l <;> cases hl
  exact .leaf (l := .text _) trivial

set_option maxRecDepth 10000 in
/-- What is declared for users is typed. -/
theorem typed : evaluator.Typed := by
  have checked : ∀ slots : List Slot,
      (slots.all fun sl => sl.initial.checks evaluator.schema sl.type) = true →
        ∀ sl ∈ slots, HasType evaluator.schema sl.initial sl.type :=
    fun _ h sl hsl => .of_checks _ _ (List.all_eq_true.1 h sl hsl)
  refine ⟨⟨fun path d h => ?_, fun _ _ _ h => by cases h⟩, Registry.typed_standard _⟩
  obtain ⟨rfl, rfl⟩ | ⟨rfl, rfl⟩ := record_cases h
  · refine ⟨checked _ (by decide), fun f hf => ?_, List.forall_mem_nil _, fun f hf => ?_,
      List.forall_mem_nil _⟩
    · simp only [Catalog.address, Catalog.constructible, RecordDecl.ofParts, Part.fields,
        Part.exposed, List.mem_cons, List.not_mem_nil, or_false] at hf
      obtain rfl | rfl := hf <;> exact ⟨_, rfl, rfl⟩
    · simp only [Catalog.address, Catalog.constructible, RecordDecl.ofParts, Part.fields,
        Part.exposed, List.mem_cons, List.not_mem_nil, or_false] at hf
      obtain rfl | rfl := hf <;> exact fun _ _ ht => by cases ht
  · refine ⟨checked _ (by decide), fun f hf => ?_, fun m hm => ?_, fun f hf => ?_, fun m hm => ?_⟩
    · simp only [Catalog.user, Catalog.constructible, RecordDecl.ofParts, Part.fields,
        Part.exposed, Part.skipped, List.mem_cons, List.not_mem_nil, or_false] at hf
      obtain rfl | rfl | rfl | rfl | rfl | rfl := hf <;> exact ⟨_, rfl, rfl⟩
    · simp only [Catalog.user, Catalog.constructible, RecordDecl.ofParts, List.mem_cons,
        List.not_mem_nil, or_false] at hm
      obtain rfl | rfl | rfl | rfl := hm
      · exact Access.typed_slotGetter (i := 4) h rfl
      · exact fun r v hr hv => hr.typed_setSlot (i := 4) h rfl (hasType_mapText _ hv)
      · exact Access.typed_slotGetter (i := 6) h rfl
      · exact Access.typed_slotGetter (i := 7) h rfl
    · simp only [Catalog.user, Catalog.constructible, RecordDecl.ofParts, Part.fields,
        Part.exposed, Part.skipped, List.mem_cons, List.not_mem_nil, or_false] at hf
      obtain rfl | rfl | rfl | rfl | rfl | rfl := hf <;> exact fun _ _ ht => by cases ht
    · simp only [Catalog.user, Catalog.constructible, RecordDecl.ofParts, List.mem_cons,
        List.not_mem_nil, or_false] at hm
      obtain rfl | rfl | rfl | rfl := hm <;> exact fun _ _ ht => by cases ht

end Mail

set_option maxRecDepth 10000 in
/-- The address of a user is a text without tags.  Binding back the text that is read of it changes
what is read: the setter stores it in lower case. -/
theorem Evaluator.address_lowered :
    Mail.evaluator.Typed ∧ HasType Mail.evaluator.schema Mail.contact Mail.contact.typeOf ∧
      (∃ s, (do Mail.evaluator.terminal (start Mail.contact) (← parse "email")) = .ok s ∧
        s.type = .text ∧ s.tag? .convert = none) ∧
      Mail.evaluator.getString "email" Mail.contact = .ok (some "A@X") ∧
      (Mail.evaluator.set "email" (.strings ["A@X"]) Mail.contact).result = .ok () ∧
      Mail.evaluator.getString "email"
        (Mail.evaluator.set "email" (.strings ["A@X"]) Mail.contact).value = .ok (some "a@x") :=
  ⟨Mail.typed, .of_checks _ _ (by decide), ⟨_, rfl, rfl, rfl⟩, rfl, rfl, rfl⟩

end ObjectPath
