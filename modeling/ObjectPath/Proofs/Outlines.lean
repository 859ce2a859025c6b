import ObjectPath.Proofs.Entries

/-!
# What an item says

An item with named fields and without generic parameters says something by its name, the entries of
its attributes, and its fields with their names, types and entries (`Outline`, `Item.Says`).  What
is derived from the item depends only on that (`Outline.fromItem_eq`).  From this follows which items
are accepted, what is derived from them, and that two items which say the same have the same outcome
(`Item.Says.settles`).
-/

namespace ObjectPath.Derive

/-- What a field says. -/
structure FieldOutline where
  ident : String
  type : List Token
  entries : List Entry
deriving DecidableEq, Repr

/-- What an item with named fields and without generic parameters says. -/
structure Outline where
  ident : String
  entries : List Entry
  fields : List FieldOutline
deriving DecidableEq, Repr

/-- A field says something by its attributes. -/
structure ItemField.Says (R : ParseRelation) (p : Parsers) (f : ItemField) (x : FieldOutline) :
    Prop where
  ident : f.ident = x.ident
  type : f.type = x.type
  attributes : Hold R p f.attributes x.entries

/-- An item says something by its attributes and those of its fields. -/
structure Item.Says (R : ParseRelation) (p : Parsers) (i : Item) (x : Outline) : Prop where
  ident : i.ident = x.ident
  nongeneric : i.generic = false
  attributes : Hold R p i.attributes x.entries
  fields : ∃ fields, i.body = .named fields ∧ List.Forall₂ (ItemField.Says R p) fields x.fields

theorem Item.Says.mono {R S : ParseRelation} {p : Parsers}
    (hpath : ∀ {value i j}, R p.path value i j → S p.path value i j)
    (hexpression : ∀ {value i j}, R p.expression value i j → S p.expression value i j) {i : Item}
    {x : Outline} (h : i.Says R p x) : i.Says S p x := by
  obtain ⟨fields, hbody, hfields⟩ := h.fields
  refine ⟨h.ident, h.nongeneric, h.attributes.mono hpath hexpression, fields, hbody, ?_⟩
  exact hfields.imp fun f y hf => ⟨hf.ident, hf.type, hf.attributes.mono hpath hexpression⟩

namespace FieldOutline

/-- The entries of a field are accepted: a field that is left out has no tags. -/
structure Acceptable (x : FieldOutline) : Prop where
  admits : ∀ e ∈ x.entries, e = .skip ∨ ∃ tag, e = .tag tag
  exclusive : .skip ∈ x.entries → ∀ tag, .tag tag ∉ x.entries

/-- The field that is registered. -/
def registered? (x : FieldOutline) : Option RegisteredField :=
  if .skip ∈ x.entries then none else some ⟨x.ident, x.type, x.entries.filterMap Entry.tag?⟩

/-- The options that the entries of a field give one after the other. -/
def options (x : FieldOutline) : Except Fault FieldOptions := do
  let o ← x.entries.foldlM FieldOptions.enter .empty
  if o.skip ∧ o.tags ≠ [] then .error .skippedTags else .ok o

variable {x : FieldOutline} {f : ItemField}

theorem ofAttributes_eq {p : Parsers} (h : f.Says Parser.Gives p x) :
    FieldOptions.ofAttributes p f.attributes = x.options := by
  have hread := (FieldOptions.enters p).readAttributes_eq h.attributes .empty
  rw [FieldOptions.ofAttributes, hread, options]
  cases x.entries.foldlM FieldOptions.enter .empty <;> rfl

theorem options_of_admits (h : ∀ e ∈ x.entries, FieldOptions.Admits e) :
    x.options =
      if .skip ∈ x.entries ∧ x.entries.filterMap Entry.tag? ≠ [] then .error .skippedTags
      else .ok ⟨decide (.skip ∈ x.entries), x.entries.filterMap Entry.tag?⟩ := by
  have hfold := FieldOptions.foldlM_enter (o := .empty) h
  rw [options, hfold]
  simp [bind, Except.bind, FieldOptions.empty]

theorem exclusive_iff :
    ¬(.skip ∈ x.entries ∧ x.entries.filterMap Entry.tag? ≠ []) ↔
      (.skip ∈ x.entries → ∀ tag, .tag tag ∉ x.entries) := by
  rw [not_and, not_not, List.eq_nil_iff_forall_not_mem]
  simp only [Entry.mem_filterMap_tag?]

theorem options_ok_iff {o : FieldOptions} :
    x.options = .ok o ↔
      x.Acceptable ∧ o = ⟨decide (.skip ∈ x.entries), x.entries.filterMap Entry.tag?⟩ := by
  constructor
  · intro h
    have hadmits : ∀ e ∈ x.entries, FieldOptions.Admits e := by
      cases hfold : x.entries.foldlM FieldOptions.enter .empty with
      | error f => simp [options, hfold, bind, Except.bind] at h
      | ok o₁ => exact FieldOptions.admits_of_foldlM_enter hfold
    rw [options_of_admits hadmits] at h
    split at h
    · cases h
    · next hexclusive =>
      cases h
      exact ⟨⟨hadmits, exclusive_iff.1 hexclusive⟩, rfl⟩
  · rintro ⟨h, rfl⟩
    rw [options_of_admits h.admits, if_neg (exclusive_iff.2 h.exclusive)]

end FieldOutline

namespace Outline

/-- The fields that are registered, or the first fault among them. -/
def registerAll : List FieldOutline → Except Fault (List RegisteredField)
  | [] => .ok []
  | x :: xs => do
    let o ← x.options
    let registered ← registerAll xs
    return if o.skip then registered else ⟨x.ident, x.type, o.tags⟩ :: registered

/-- What is derived if entries are taken one after the other; `cratePath` is the path of the library
unless another one is given. -/
def outcome (cratePath : List Token) (x : Outline) : Except Fault Registration := do
  let o ← x.entries.foldlM ItemOptions.enter .empty
  let fields ← registerAll x.fields
  return ⟨x.ident, o.default, o.members, o.cratePath.getD cratePath, fields⟩

theorem fieldsOf_eq {p : Parsers} {fields : List ItemField} {xs : List FieldOutline}
    (h : List.Forall₂ (ItemField.Says Parser.Gives p) fields xs) :
    Registration.fieldsOf p fields = registerAll xs := by
  induction h with
  | nil => rfl
  | @cons f x fields xs hf _ ih =>
    rw [Registration.fieldsOf, registerAll, FieldOutline.ofAttributes_eq hf, ih, hf.ident, hf.type]

/-- What is derived from an item depends only on what it says. -/
theorem fromItem_eq {p : Parsers} {i : Item} {x : Outline} (h : i.Says Parser.Gives p x) :
    Registration.fromItem p i = x.outcome Registration.defaultCratePath := by
  obtain ⟨fields, hbody, hfields⟩ := h.fields
  have hread := (ItemOptions.enters p).readAttributes_eq h.attributes .empty
  rw [Registration.fromItem, hbody]
  simp only [h.nongeneric, Bool.false_eq_true, if_false, ItemOptions.ofAttributes, hread,
    fieldsOf_eq hfields, h.ident]
  rfl

variable {x : Outline} {xs : List FieldOutline}

theorem registerAll_cons_ok {fields : List RegisteredField} {x : FieldOutline} :
    registerAll (x :: xs) = .ok fields ↔
      x.Acceptable ∧ ∃ rest, registerAll xs = .ok rest ∧ fields = x.registered?.toList ++ rest := by
  rw [registerAll]
  constructor
  · intro h
    cases ho : x.options with
    | error f => simp [ho, bind, Except.bind] at h
    | ok o =>
      cases hrest : registerAll xs with
      | error f => simp [ho, hrest, bind, Except.bind] at h
      | ok rest =>
        obtain ⟨hx, rfl⟩ := FieldOutline.options_ok_iff.1 ho
        refine ⟨hx, rest, rfl, ?_⟩
        simp only [ho, hrest, bind, Except.bind, pure, Except.pure, Except.ok.injEq] at h
        rw [← h, FieldOutline.registered?]
        by_cases hskip : Entry.skip ∈ x.entries <;> simp [hskip]
  · rintro ⟨hx, rest, hrest, rfl⟩
    rw [FieldOutline.options_ok_iff.2 ⟨hx, rfl⟩, hrest, FieldOutline.registered?]
    by_cases hskip : Entry.skip ∈ x.entries <;>
      simp [hskip, bind, Except.bind, pure, Except.pure]

theorem registerAll_ok_iff {fields : List RegisteredField} :
    registerAll xs = .ok fields ↔
      (∀ x ∈ xs, x.Acceptable) ∧ fields = xs.filterMap FieldOutline.registered? := by
  induction xs generalizing fields with
  | nil => simp [registerAll, eq_comm]
  | cons x xs ih =>
    simp only [registerAll_cons_ok, ih, List.forall_mem_cons, List.filterMap_cons]
    constructor
    · rintro ⟨hx, rest, ⟨hxs, rfl⟩, rfl⟩
      refine ⟨⟨hx, hxs⟩, ?_⟩
      cases x.registered? <;> rfl
    · rintro ⟨⟨hx, hxs⟩, rfl⟩
      refine ⟨hx, _, ⟨hxs, rfl⟩, ?_⟩
      cases x.registered? <;> rfl

/-- What is said by an item is accepted: the entries are those of settings, none of which is given
twice, and each field is accepted. -/
structure Acceptable (x : Outline) : Prop where
  settings : ∀ e ∈ x.entries, ∃ s, e.setting? = some s
  once : (x.entries.filterMap Entry.setting?).Nodup
  fields : ∀ f ∈ x.fields, f.Acceptable

/-- What is derived from an item that is accepted. -/
def registration (x : Outline) : Registration where
  ident := x.ident
  default := (x.entries.findSome? (Entry.value? .default)).isSome
  members := x.entries.findSome? (Entry.value? .members)
  cratePath := (x.entries.findSome? (Entry.value? .cratePath)).getD Registration.defaultCratePath
  fields := x.fields.filterMap FieldOutline.registered?

theorem outcome_ok_iff {r : Registration} :
    x.outcome Registration.defaultCratePath = .ok r ↔ x.Acceptable ∧ r = x.registration := by
  have hentries : (∃ o, x.entries.foldlM ItemOptions.enter .empty = .ok o) ↔
      (∀ e ∈ x.entries, ∃ s, e.setting? = some s) ∧ (x.entries.filterMap Entry.setting?).Nodup := by
    have hempty : ∀ s, ItemOptions.empty.given s = false := by
      intro s
      cases s <;> rfl
    simp only [ItemOptions.foldlM_enter_ok_iff, hempty, and_true]
  rw [outcome]
  constructor
  · intro h
    cases ho : x.entries.foldlM ItemOptions.enter .empty with
    | error f => simp [ho, bind, Except.bind] at h
    | ok o =>
      cases hfields : registerAll x.fields with
      | error f => simp [ho, hfields, bind, Except.bind] at h
      | ok fields =>
        obtain ⟨hxs, rfl⟩ := registerAll_ok_iff.1 hfields
        obtain ⟨hsettings, honce⟩ := hentries.1 ⟨o, ho⟩
        refine ⟨⟨hsettings, honce, hxs⟩, ?_⟩
        rw [ho, hfields, ItemOptions.eq_ofEntries ho] at h
        exact (Except.ok.inj h).symm
  · rintro ⟨h, rfl⟩
    obtain ⟨o, ho⟩ := hentries.2 ⟨h.settings, h.once⟩
    rw [ho, registerAll_ok_iff.2 ⟨h.fields, rfl⟩, ItemOptions.eq_ofEntries ho]
    rfl

end Outline

/-- What an item says settles whether it is accepted, and what is derived from it: its fields that
are not left out, with their tags, and its settings.  How its entries are spread over attributes,
commas behind the last ones, attributes without entries and foreign ones do not count. -/
theorem Item.Says.settles {p : Parsers} (hpath : p.path.StopsAtCommas)
    (hexpression : p.expression.StopsAtCommas) {i : Item} {x : Outline}
    (h : i.Says Parser.Whole p x) :
    ((∃ r, Registration.fromItem p i = .ok r) ↔ x.Acceptable) ∧
      (∀ r, Registration.fromItem p i = .ok r → r = x.registration) ∧
      ∀ j : Item, j.Says Parser.Whole p x →
        Registration.fromItem p j = Registration.fromItem p i := by
  have hgives : ∀ {j : Item}, j.Says Parser.Whole p x →
      Registration.fromItem p j = x.outcome Registration.defaultCratePath := fun hj =>
    Outline.fromItem_eq (hj.mono (Parser.Whole.gives hpath) (Parser.Whole.gives hexpression))
  rw [hgives h]
  exact ⟨⟨fun ⟨r, hr⟩ => (Outline.outcome_ok_iff.1 hr).1,
      fun hx => ⟨_, Outline.outcome_ok_iff.2 ⟨hx, rfl⟩⟩⟩,
    fun r hr => (Outline.outcome_ok_iff.1 hr).2, fun j hj => hgives hj⟩

open Token in
/-- The entries of a gauge in attributes of their own, one of them captured by a macro, and a
foreign attribute. -/
def spreadGauge : Item where
  attributes :=
    [⟨words "reflect", .list [.group .none (words "default")]⟩, ⟨words "doc", .value⟩,
      ⟨words "reflect", .list (words "members" ++ marks "=" ++ words "more" ++ marks ",")⟩]
  ident := "Gauge"
  generic := false
  body := .named
    [⟨[⟨words "reflect", .list (marks "@" ++ words "Shown")⟩,
        ⟨words "reflect", .list (marks "@" ++ words "unit" ++ paren [.literal "1"])⟩], "level",
      words "i32"⟩,
    ⟨[⟨words "reflect", .list (words "skip")⟩], "cache", words "f32"⟩]

open Token in
/-- The entries of a gauge in one attribute each time. -/
def joinedGauge : Item where
  attributes :=
    [⟨words "reflect", .list []⟩,
      ⟨words "reflect", .list (words "default" ++ marks "," ++ words "members" ++ marks "=" ++
        words "more")⟩]
  ident := "Gauge"
  generic := false
  body := .named
    [⟨[⟨words "reflect", .list (marks "@" ++ words "Shown" ++ marks "," ++ marks "@" ++
        words "unit" ++ paren [.literal "1"] ++ marks ",")⟩], "level", words "i32"⟩,
    ⟨[⟨words "reflect", .list (words "skip" ++ marks ",")⟩], "cache", words "f32"⟩]

open Token in
/-- What a gauge says. -/
def gaugeOutline : Outline where
  ident := "Gauge"
  entries := [.word "default", .setting "members" (words "more")]
  fields :=
    [⟨"level", words "i32", [.tag (words "Shown"), .tag (words "unit" ++ paren [.literal "1"])]⟩,
    ⟨"cache", words "f32", [.skip]⟩]

open Token in
theorem says_spreadGauge : spreadGauge.Says Parser.Whole Grammar.parsers gaugeOutline := by
  refine ⟨rfl, rfl, ?_, _, rfl, .cons ⟨rfl, rfl, ?_⟩ (.cons ⟨rfl, rfl, ?_⟩ .nil)⟩
  · have hmore : Parser.Whole Grammar.parsers.path (words "more")
        ⟨words "more" ++ marks ",", none⟩ ⟨marks ",", none⟩ :=
      .comma ⟨trivial, nofun, trivial⟩ rfl
    exact .reflect rfl rfl (.last (.word rfl rfl) rfl) rfl
      (.foreign rfl (.reflect rfl rfl (.cons (.setting rfl rfl rfl hmore) rfl (.nil rfl)) rfl .nil))
  · exact .reflect rfl rfl (.last (.tag rfl (.last rfl)) rfl) rfl
      (.reflect rfl rfl (.last (.tag rfl (.last rfl)) rfl) rfl .nil)
  · exact .reflect rfl rfl (.last (.word rfl rfl) rfl) rfl .nil

open Token in
theorem says_joinedGauge : joinedGauge.Says Parser.Whole Grammar.parsers gaugeOutline := by
  refine ⟨rfl, rfl, ?_, _, rfl, .cons ⟨rfl, rfl, ?_⟩ (.cons ⟨rfl, rfl, ?_⟩ .nil)⟩
  · exact .reflect rfl rfl (.nil rfl) rfl (.reflect rfl rfl
      (.cons (.word rfl rfl) rfl (.last (.setting rfl rfl rfl (.last rfl)) rfl)) rfl .nil)
  · have hunit : Parser.Whole Grammar.parsers.expression (words "unit" ++ paren [.literal "1"])
        ⟨(words "unit" ++ paren [.literal "1"]) ++ marks ",", none⟩ ⟨marks ",", none⟩ :=
      .comma ⟨trivial, nofun, trivial⟩ rfl
    have hshown : Parser.Whole Grammar.parsers.expression (words "Shown")
        ⟨words "Shown" ++ (marks "," ++ marks "@" ++ words "unit" ++ paren [.literal "1"] ++
          marks ","), none⟩
        ⟨marks "," ++ marks "@" ++ words "unit" ++ paren [.literal "1"] ++ marks ",", none⟩ :=
      .comma ⟨trivial, nofun, trivial, nofun, trivial, nofun, trivial⟩ rfl
    exact .reflect rfl rfl
      (.cons (.tag rfl hshown) rfl (.cons (.tag rfl hunit) rfl (.nil rfl))) rfl .nil
  · exact .reflect rfl rfl (.cons (.word rfl rfl) rfl (.nil rfl)) rfl .nil

theorem acceptable_gaugeOutline : gaugeOutline.Acceptable := by
  refine ⟨?_, by decide, ?_⟩
  · exact List.forall_mem_cons.2 ⟨⟨.default, rfl⟩, List.forall_mem_cons.2 ⟨⟨.members, rfl⟩, nofun⟩⟩
  · refine List.forall_mem_cons.2 ⟨⟨?_, ?_⟩, List.forall_mem_cons.2 ⟨⟨?_, ?_⟩, nofun⟩⟩
    · simp
    · simp [Entry.skip]
    · simp
    · simp [Entry.skip]

/-- Both gauges are accepted by the grammar, and the same is derived from them. -/
theorem Item.Says.settles_gauge :
    Grammar.parsers.path.StopsAtCommas ∧ Grammar.parsers.expression.StopsAtCommas ∧
      joinedGauge.Says Parser.Whole Grammar.parsers gaugeOutline ∧
      (∃ r, Registration.fromItem Grammar.parsers joinedGauge = .ok r) ∧
      Registration.fromItem Grammar.parsers spreadGauge =
        Registration.fromItem Grammar.parsers joinedGauge := by
  have hpath : Grammar.parsers.path.StopsAtCommas := Grammar.parser_stopsAtCommas rfl
  have hexpression : Grammar.parsers.expression.StopsAtCommas := Grammar.parser_stopsAtCommas rfl
  obtain ⟨haccepted, -, hsame⟩ := Item.Says.settles hpath hexpression says_joinedGauge
  exact ⟨hpath, hexpression, says_joinedGauge, haccepted.2 acceptable_gaugeOutline,
    hsame spreadGauge says_spreadGauge⟩

end ObjectPath.Derive
