import ObjectPath.Proofs.Faults
import ObjectPath.Proofs.Preservation
import ObjectPath.Proofs.Resolution

/-!
# Overrides

The registry is asked in three places: for the keys and indices of a path, for the strings that are
stored at its end, and for the text of what is read there.  Texts need no converter
(`Registry.parse_text`), so a path whose keys and indices are texts resolves alike under all
registries (`Evaluator.trail_of_keyedByText`), and so do the walks along it
(`Evaluator.write_eq_of_trail`, `Evaluator.read_eq_of_trail`): two runs are compared step by step
with the one under the empty registry.

A converter that overrides the registered one is asked in its place, whatever the registry holds.
So where the last step of such a path has one, the outcome is the same under all registries, and
what the converter refuses is not tried with another one (`Evaluator.overrides`).
-/

namespace ObjectPath

/-! ## Conversions that need no registry -/

/-- Strings for a slot of the type are taken as they are, one by one for a sequence. -/
def Ty.TakesTexts (t : Ty) : Prop :=
  t.core = .text ∨ ∃ k item, t.declared = .seq k item ∧ item.core = .text

namespace Registry

variable {r : Registry} {o : Option Converter} {t item : Ty} {raw label : String}
  {raws : List String} {c : Converter} {e : Refusal} {v : Value}

theorem parse_text (r : Registry) (raw : String) : r.parse none raw .text = .ok (.text raw) := rfl

/-- An override is asked in place of the registry, and texts need no converter. -/
theorem parse_independent (h : o ≠ none ∨ t.core = .text) (r r' : Registry) (raw : String) :
    r.parse o raw t = r'.parse o raw t := by
  induction t with
  | option t ih => simp only [parse, ih h]
  | leaf | seq | map | record =>
    cases o with
    | some c => rfl
    | none =>
      have ht := h.resolve_left (absurd rfl)
      simp only [Ty.core] at ht
      simp only [parse, convert, ht, if_true]

theorem parseItems_independent (h : o ≠ none ∨ item.core = .text) (r r' : Registry)
    (raws : List String) : r.parseItems o item raws = r'.parseItems o item raws := by
  induction raws with
  | nil => rfl
  | cons raw raws ih => simp only [parseItems, ih, parse_independent h r r']

theorem parseStrings_independent (h : o ≠ none ∨ t.TakesTexts) (r r' : Registry)
    (label : String) (raws : List String) :
    r.parseStrings o t label raws = r'.parseStrings o t label raws := by
  unfold parseStrings
  split
  · next k item hd =>
    have hitem : o ≠ none ∨ item.core = .text := by
      rcases h with ho | hcore | ⟨k', item', hd', hcore⟩
      · exact .inl ho
      · -- A sequence is no text behind any number of optional layers.
        cases t with
        | option t => cases hd; cases hcore
        | seq => cases hcore
        | leaf | map | record => cases hd
      · cases hd.symm.trans hd'
        exact .inr hcore
    simp only [parseItems_independent hitem r r']
  · next hseq =>
    have hone : o ≠ none ∨ t.core = .text :=
      h.imp_right fun ht => ht.resolve_right fun ⟨k, item, hd, _⟩ => hseq k item hd
    simp only [parse_independent hone r r']

theorem format_independent (h : o ≠ none ∨ v.typeOf = .text) (r r' : Registry) :
    r.format o v = r'.format o v := by
  cases o with
  | some c => rfl
  | none =>
    have hv := h.resolve_left (absurd rfl)
    cases v with
    | leaf l => cases l <;> cases hv; rfl
    | absent | present | seq | map | record => cases hv

/-- What an override refuses is not tried with another converter. -/
theorem parse_of_refused (hblank : (∀ u, t ≠ .option u) ∨ Text.allBlank raw = false)
    (h : c.parse t.core raw = .error e) :
    r.parse (some c) raw t = .error (.conversion t.core raw (.refused e)) := by
  refine parse_of_convert_error hblank ?_
  simp only [convert, h]

end Registry

/-! ## Steps keyed by texts -/

/-- The key or the index of a step is a text, if it has one. -/
def Step.KeyedByText : Step → Prop
  | member _ | element _ _ _ => True
  | indexed _ i _ => i.typeOf = .text
  | entry key _ _ _ => key.typeOf = .text

theorem Written.andThen_congr {w : Written} {next next' : Value → Written}
    (h : next w.value = next' w.value) : w.andThen next = w.andThen next' := by
  unfold Written.andThen
  rw [h]

namespace Evaluator

variable {schema : Schema} {r r' : Registry} {site next : Site} {a : Atom} {atoms : List Atom}
  {s st : Step} {ss : List Step} {v x root : Value} {t : Ty} {payload : Payload} {source : String}

theorem resolve_site_independent (h : (Evaluator.mk schema r).resolve site a = .ok (.site next)) :
    (Evaluator.mk schema r').resolve site a = .ok (.site next) := by
  cases site with
  | index m u => simp only [resolve] at h; split at h <;> cases h
  | value u o =>
    cases u with
    | leaf | option => cases h
    | seq k item => simp only [resolve] at h; split at h <;> cases h
    | map k key value => simp only [resolve] at h; split at h <;> cases h
    | record path => exact h

theorem resolve_step_independent (h : (Evaluator.mk schema r).resolve site a = .ok (.step st))
    (hst : st.KeyedByText) : (Evaluator.mk schema r').resolve site a = .ok (.step st) := by
  cases site with
  | index m u =>
    simp only [resolve] at h
    split at h
    · next i hi =>
      cases h
      obtain rfl : u = .text := (Registry.typeOf_parse hi).symm.trans hst
      rw [Registry.parse_text] at hi
      simp only [resolve, Registry.parse_text, hi]
    · cases h
  | value u o =>
    cases u with
    | leaf | option => cases h
    | seq k item => exact h
    | map k key value =>
      simp only [resolve] at h
      split at h
      · next i hi =>
        cases h
        obtain rfl : key = .text := (Registry.typeOf_parse hi).symm.trans hst
        rw [Registry.parse_text] at hi
        simp only [resolve, Registry.parse_text, hi]
      · cases h
    | record path => exact h

/-- A path whose keys and indices are texts resolves alike under all registries. -/
theorem trail_of_keyedByText (r' : Registry) (atoms : List Atom) :
    ∀ {site : Site} {ss : List Step}, (Evaluator.mk schema r).trail site atoms = .ok ss →
      (∀ st ∈ ss, st.KeyedByText) → (Evaluator.mk schema r').trail site atoms = .ok ss := by
  induction atoms with
  | nil => intro site ss h _; cases site <;> exact h
  | cons a rest ih =>
    intro site ss h hkeys
    cases hres : (Evaluator.mk schema r).resolve site a with
    | error f => rw [trail_error hres] at h; cases h
    | ok res =>
      cases res with
      | site next =>
        rw [trail_site hres] at h
        rw [trail_site (resolve_site_independent hres)]
        exact ih h hkeys
      | step st =>
        cases rest with
        | nil =>
          rw [trail_last hres] at h
          cases h
          exact trail_last (resolve_step_independent hres (hkeys st List.mem_cons_self))
        | cons b rest =>
          obtain ⟨ts, rfl, hts⟩ := trail_step_ok hres h
          obtain ⟨hst, hbelow⟩ := List.forall_mem_cons.1 hkeys
          exact trail_step (resolve_step_independent hres hst) (ih hts hbelow)

/-! ## Walks under two registries -/

theorem typed_empty (hs : schema.Typed) : (Evaluator.mk schema .empty).Typed :=
  ⟨hs, fun _ _ h => nomatch h⟩

/-- A write is the one under the empty registry, if its path resolves there to steps keyed by texts
and its payload is delivered alike at the last of them. -/
theorem write_eq_of_trail (hs : schema.Typed) (r : Registry) (atoms : List Atom) :
    ∀ {v : Value} {t : Ty} {site : Site} {ss : List Step}, HasType schema v t →
      site.Fits schema t → (Evaluator.mk schema .empty).trail site atoms = .ok ss →
        (∀ st ∈ ss, st.KeyedByText) →
          (∀ s, ss.getLast? = some s → ∀ w, (Evaluator.mk schema r).deliver payload s w =
            (Evaluator.mk schema .empty).deliver payload s w) →
              (Evaluator.mk schema r).write payload v site atoms =
                (Evaluator.mk schema .empty).write payload v site atoms := by
  have hev := typed_empty hs
  induction atoms with
  | nil => intro v t site ss _ _ _ _ _; rw [write, write]
  | cons a rest ih =>
    intro v t site ss hv hsite h hkeys hlast
    cases hres : (Evaluator.mk schema .empty).resolve site a with
    | error f => rw [trail_error hres] at h; cases h
    | ok res =>
      cases res with
      | site next =>
        rw [trail_site hres] at h
        rw [write_site hres, write_site (resolve_site_independent hres)]
        exact ih hv (fits_site hev hsite hres) h hkeys hlast
      | step st =>
        have hst : st.Fits schema t := fits_step hev hsite hres
        cases rest with
        | nil =>
          rw [trail_last hres] at h
          cases h
          rw [write_last hres, write_last (resolve_step_independent hres
            (hkeys st List.mem_cons_self))]
          exact hlast st rfl v
        | cons b rest =>
          obtain ⟨ts, rfl, hts⟩ := trail_step_ok hres h
          obtain ⟨hkey, hbelow⟩ := List.forall_mem_cons.1 hkeys
          rw [write_step hres, write_step (resolve_step_independent hres hkey)]
          -- What approaches a step looks at the schema only.
          refine Written.andThen_congr (w := (Evaluator.mk schema .empty).approach st b v) ?_
          have hv' := hasType_approach (b := b) hev hst hv
          unfold descend
          split
          · rfl
          · rfl
          · next p hp =>
            obtain ⟨hptype, hsite'⟩ := fits_place hev hst hv' hp
            refine congrArg (Written.within p.fill) (ih hptype hsite' ?_ hbelow fun s hs => ?_)
            · rw [hptype.typeOf_eq]
              exact hts
            · refine hlast s ?_
              rw [List.getLast?_cons, hs]
              rfl

theorem read_eq_of_trail (hs : schema.Typed) (r : Registry) (atoms : List Atom) :
    ∀ {v : Value} {t : Ty} {site : Site} {ss : List Step}, HasType schema v t →
      site.Fits schema t → (Evaluator.mk schema .empty).trail site atoms = .ok ss →
        (∀ st ∈ ss, st.KeyedByText) →
          (Evaluator.mk schema r).read v site atoms =
            (Evaluator.mk schema .empty).read v site atoms := by
  have hev := typed_empty hs
  induction atoms with
  | nil => intro v t site ss _ _ _ _; rw [read, read]
  | cons a rest ih =>
    intro v t site ss hv hsite h hkeys
    cases hres : (Evaluator.mk schema .empty).resolve site a with
    | error f => rw [trail_error hres] at h; cases h
    | ok res =>
      cases res with
      | site next =>
        rw [trail_site hres] at h
        rw [read_site hres, read_site (resolve_site_independent hres)]
        exact ih hv (fits_site hev hsite hres) h hkeys
      | step st =>
        have hst : st.Fits schema t := fits_step hev hsite hres
        have hkey : st.KeyedByText := by
          cases rest with
          | nil => rw [trail_last hres] at h; cases h; exact hkeys st List.mem_cons_self
          | cons b rest =>
            obtain ⟨ts, rfl, -⟩ := trail_step_ok hres h
            exact hkeys st List.mem_cons_self
        have hres' : (Evaluator.mk schema r).resolve site a = .ok (.step st) :=
          resolve_step_independent hres hkey
        cases hread : st.read v with
        | error f => rw [read_refused hres hread, read_refused hres' hread]
        | ok c =>
          cases c with
          | none => rw [read_null hres hread, read_null hres' hread]
          | some w =>
            cases rest with
            | nil => rw [read_last hres hread, read_last hres' hread]
            | cons b rest =>
              obtain ⟨ts, rfl, hts⟩ := trail_step_ok hres h
              have hw := Step.hasType_read hs hst hv hread
              rw [read_step hres hread, read_step hres' hread, hw.typeOf_eq]
              exact ih hw (fits_below hst _) hts (List.forall_mem_cons.1 hkeys).2

/-! ## Expressions -/

/-- From values of a type an expression leads to the step `s`, and the keys and indices on its path
are texts. -/
def LeadsByTexts (ev : Evaluator) (source : String) (t : Ty) (s : Step) : Prop :=
  ∃ atoms ss, parse source = .ok atoms ∧ ev.trail (.value t none) atoms = .ok ss ∧
    (∀ st ∈ ss, st.KeyedByText) ∧ ss.getLast? = some s

/-- What becomes of strings that are bound at the end of an expression, and of the text that is read
there, where a converter overrides the registered one, or none is needed. -/
structure Overrides (schema : Schema) (source : String) (root : Value) (s : Step) : Prop where
  /-- Strings are bound alike under all registries. -/
  set : (∃ tag, s.tag? .convert = some tag) ∨ s.type.TakesTexts → ∀ (r r' : Registry) raws,
    (Evaluator.mk schema r).set source (.strings raws) root =
      (Evaluator.mk schema r').set source (.strings raws) root
  /-- The same text is read under all registries. -/
  getString : (∃ tag, s.tag? .convert = some tag) ∨ s.type.declared = .text →
    ∀ r r' : Registry, (Evaluator.mk schema r).getString source root =
      (Evaluator.mk schema r').getString source root
  /-- A string that the override refuses is not converted, and nothing is stored. -/
  refused : ∀ tag, s.tag? .convert = some tag → ∃ c, tag = .convert c ∧
    ∀ (r : Registry) w fill raws raw t e, (Evaluator.mk schema r).ComesAlong source root s w fill →
      r.ConvertsAt (some c) s.type raws raw t →
        ((∀ u, t ≠ .option u) ∨ Text.allBlank raw = false) → c.parse t.core raw = .error e →
          ((Evaluator.mk schema r).set source (.strings raws) root).Agrees
            (.failed (fill w) (.conversion t.core raw (.refused e)))
  /-- A value that the override refuses is given no other text. -/
  unformatted : ∀ tag, s.tag? .convert = some tag → ∃ c, tag = .convert c ∧
    ∀ (r : Registry) x e, (Evaluator.mk schema r).reading source root = .ok (.found x s) →
      c.format x = .error e → (Evaluator.mk schema r).getString source root =
        .error ⟨source, .conversion x.typeOf x.shown (.refused e)⟩

end Evaluator

/-- A tag that is found is of the wanted kind. -/
theorem Tags.kind_of_get? {ts : Tags} {k : TagKind} {tag : Tag} (h : ts.get? k = some tag) :
    tag.kind = k := by
  simpa using List.find?_some h

theorem Member.kind_of_tag? {m : Member} {k : TagKind} {tag : Tag} (h : m.tag? k = some tag) :
    tag.kind = k := by
  cases m with
  | field f => exact Tags.kind_of_get? h
  | property p hidden =>
    simp only [tag?, Property.tag?, Option.or_eq_some_iff, Option.bind_eq_some_iff] at h
    obtain (⟨g, -, h⟩ | ⟨-, g, -, h⟩) | ⟨-, f, -, h⟩ := h <;> exact Tags.kind_of_get? h

/-- A tag for a converter holds one, and it overrides the registered one. -/
theorem Step.override?_of_tag {s : Step} {tag : Tag} (h : s.tag? .convert = some tag) :
    ∃ c, tag = .convert c ∧ s.override? = some c := by
  obtain ⟨m, -, hm⟩ := Option.bind_eq_some_iff.1 h
  have hkind := Member.kind_of_tag? hm
  cases tag with
  | convert c => exact ⟨c, rfl, by rw [Step.override?, h]; rfl⟩
  | label | maxLength | required => cases hkind

namespace Evaluator

variable {schema : Schema} {r₀ : Registry} {s : Step} {root : Value} {source : String}
  {atoms : List Atom} {ss : List Step}

section Expressions

variable (hs : schema.Typed) (hroot : HasType schema root root.typeOf)
  (hparse : parse source = .ok atoms)
  (hss : (Evaluator.mk schema .empty).trail (start root) atoms = .ok ss)
  (hkeys : ∀ st ∈ ss, st.KeyedByText) (hlast : ss.getLast? = some s)

include hs hroot hparse hss hkeys

theorem reading_independent (r : Registry) : (Evaluator.mk schema r).reading source root =
    (Evaluator.mk schema .empty).reading source root := by
  simp only [reading, hparse, bind, Except.bind]
  rw [read_eq_of_trail hs r atoms hroot (fits_start root) hss hkeys]

include hlast

theorem set_independent (h : s.override? ≠ none ∨ s.type.TakesTexts) (r : Registry)
    (raws : List String) : (Evaluator.mk schema r).set source (.strings raws) root =
      (Evaluator.mk schema .empty).set source (.strings raws) root := by
  have hdeliver : ∀ s', ss.getLast? = some s' → ∀ w,
      (Evaluator.mk schema r).deliver (.strings raws) s' w =
        (Evaluator.mk schema .empty).deliver (.strings raws) s' w := by
    intro s' hs' w
    obtain rfl : s' = s := Option.some.inj (hs'.symm.trans hlast)
    simp only [deliver, Registry.parseStrings_independent h r .empty]
  simp only [set, hparse, write_eq_of_trail hs r atoms hroot (fits_start root) hss hkeys hdeliver]

omit hkeys in
/-- What is read is found at the last step. -/
theorem eq_last_of_reading {x : Value} {s' : Step}
    (h : (Evaluator.mk schema .empty).reading source root = .ok (.found x s')) :
    s' = s ∧ HasType schema x s.type.declared := by
  simp only [reading, hparse, bind, Except.bind, blame_ok] at h
  obtain ⟨hterminal, hx⟩ := terminal_of_read (typed_empty hs) hroot (fits_start root) h
  obtain ⟨ts, hts, hlast'⟩ := exists_trail_of_terminal hterminal
  cases hss.symm.trans hts
  cases hlast.symm.trans hlast'
  exact ⟨rfl, hx⟩

theorem getString_independent (h : s.override? ≠ none ∨ s.type.declared = .text) (r : Registry) :
    (Evaluator.mk schema r).getString source root =
      (Evaluator.mk schema .empty).getString source root := by
  simp only [getString, reading_independent hs hroot hparse hss hkeys r]
  cases hr : (Evaluator.mk schema .empty).reading source root with
  | error e => rfl
  | ok reading =>
    cases reading with
    | null label => rfl
    | found x s' =>
      obtain ⟨rfl, hx⟩ := eq_last_of_reading hs hroot hparse hss hlast hr
      have hformat := h.imp_right fun ht => hx.typeOf_eq.trans ht
      simp only [bind, Except.bind, Registry.format_independent hformat r .empty]

end Expressions

/-- Where a converter overrides the registered one at the end of a path through texts, or where
texts are taken and read as they are, the registry does not matter. -/
theorem overrides (hs : schema.Typed) (hroot : HasType schema root root.typeOf)
    (h : (Evaluator.mk schema r₀).LeadsByTexts source root.typeOf s) :
    Overrides schema source root s := by
  obtain ⟨atoms, ss, hparse, htrail, hkeys, hlast⟩ := h
  have hss : (Evaluator.mk schema .empty).trail (start root) atoms = .ok ss :=
    trail_of_keyedByText .empty atoms htrail hkeys
  have hoverride : (∃ tag, s.tag? .convert = some tag) → s.override? ≠ none := by
    rintro ⟨tag, htag⟩
    obtain ⟨c, -, hc⟩ := Step.override?_of_tag htag
    simp [hc]
  refine ⟨fun h r r' raws => ?_, fun h r r' => ?_, fun tag htag => ?_, fun tag htag => ?_⟩
  · have hset := set_independent hs hroot hparse hss hkeys hlast (h.imp_left hoverride)
    exact (hset r raws).trans (hset r' raws).symm
  · have hget := getString_independent hs hroot hparse hss hkeys hlast (h.imp_left hoverride)
    exact (hget r).trans (hget r').symm
  · obtain ⟨c, rfl, hc⟩ := Step.override?_of_tag htag
    refine ⟨c, rfl, fun r w fill raws raw t e hcomes hat hblank hrefused => ?_⟩
    have hset := hcomes.set_agrees (.strings raws)
    have hparsed : r.parseStrings s.override? s.type s.label raws =
        .error (.conversion t.core raw (.refused e)) := by
      rw [hc]
      exact Registry.parseStrings_of_error s.label hat (Registry.parse_of_refused hblank hrefused)
    rw [deliver, hparsed] at hset
    exact hset
  · obtain ⟨c, rfl, hc⟩ := Step.override?_of_tag htag
    refine ⟨c, rfl, fun r x e hreading hrefused => ?_⟩
    simp only [getString, hreading, bind, Except.bind, hc, Registry.format, hrefused]
    rfl

end Evaluator

/-! ## A panel -/

namespace Panel

/-- A panel with switches by name, which are read from the words for a Boolean, and a title. -/
def panel : RecordDecl :=
  .ofParts [] "Panel" true
    [.exposed "switches" (.map .tree .text .bool) [.convert .lenientBool],
      .exposed "title" .text []]
    []

/-- The schema of panels. -/
def schema : Schema := ⟨[panel], []⟩

/-- A panel with one switch. -/
def wired : Value :=
  .record "Panel" [.map .tree .text .bool [(.text "fan", .bool false)], .text "hall"]

theorem typed : schema.Typed := by
  refine ⟨fun path d hd => ?_, fun path d v hd => by cases hd⟩
  obtain rfl : d = panel := List.mem_singleton.1 (List.mem_of_find?_eq_some hd)
  refine ⟨fun sl hsl => ?_, fun f hf => ?_, List.forall_mem_nil _, fun f hf => ?_,
    List.forall_mem_nil _⟩
  · have hchecks : (panel.slots.all fun sl => sl.initial.checks schema sl.type) = true := by decide
    exact .of_checks _ _ (List.all_eq_true.1 hchecks sl hsl)
  · simp only [panel, RecordDecl.ofParts, Part.fields, Part.exposed, List.mem_cons,
      List.not_mem_nil, or_false] at hf
    obtain rfl | rfl := hf <;> exact ⟨_, rfl, rfl⟩
  · simp only [panel, RecordDecl.ofParts, Part.fields, Part.exposed, List.mem_cons,
      List.not_mem_nil, or_false] at hf
    rintro tag c htag hc
    obtain rfl | rfl := hf
    · obtain rfl : Tag.convert .lenientBool = tag := Option.some.inj htag
      obtain rfl : Converter.lenientBool = c := Option.some.inj hc
      exact Converter.typed_lenientBool
    · cases (htag : none = some tag)

end Panel

/-- A switch inherits the converter of the switches: it is set and read with the words for a
Boolean, under every registry. -/
theorem Evaluator.overrides_wired :
    Panel.schema.Typed ∧ HasType Panel.schema Panel.wired Panel.wired.typeOf ∧
      (∃ s, (Evaluator.mk Panel.schema .empty).LeadsByTexts "switches['fan']" Panel.wired.typeOf s ∧
        (∃ tag, s.tag? .convert = some tag) ∧
        Overrides Panel.schema "switches['fan']" Panel.wired s) ∧
      ((Evaluator.mk Panel.schema .empty).set "switches['fan']" (.strings ["on"])
        Panel.wired).result = .ok () := by
  have hroot : HasType Panel.schema Panel.wired Panel.wired.typeOf := .of_checks _ _ (by decide)
  have hleads : (Evaluator.mk Panel.schema .empty).LeadsByTexts "switches['fan']"
      Panel.wired.typeOf _ :=
    ⟨_, _, rfl, rfl, List.forall_mem_cons.2 ⟨trivial, List.forall_mem_singleton.2 rfl⟩, rfl⟩
  exact ⟨Panel.typed, hroot, ⟨_, hleads, ⟨_, rfl⟩, overrides Panel.typed hroot hleads⟩, rfl⟩

end ObjectPath
