import ObjectPath.Proofs.Binding
import ObjectPath.Proofs.Composition
import ObjectPath.Proofs.Divergence

/-!
# Addressing by key

With the standard registry every entry of a map is addressed by its key, if the key is a Boolean, a
character, a text or an integer.  The text of the key is put behind the expression for the map, as a
literal in brackets (`Evaluator.addressable`).  Whatever characters the text holds, the literal is
scanned as that text, and the text is converted to the key.  In the same way a property that takes
an index is handed the index.

Because the texts are converted back, different keys have different ones (`Leaf.write_injective`).
-/

namespace ObjectPath

/-- Leaves of one type are told apart by their texts. -/
theorem Leaf.write_injective {l l' : Leaf} (hl : l.Exact) (hl' : l'.Exact)
    (htype : l.type = l'.type) (h : l.write = l'.write) : l = l' := by
  have hparse := Registry.parse_write hl
  rw [h, htype, Registry.parse_write hl'] at hparse
  cases hparse
  rfl

/-- The key of an entry is of the type of the keys. -/
theorem HasType.key {s : Schema} {k : MapKind} {t u w : Ty} {es : List (Value × Value)}
    (h : HasType s (.map k t u es) w) {key v : Value} (hv : Entries.get? key es = some v) :
    HasType s key t := by
  cases h with
  | map hkey => exact hkey _ (Entries.mem_of_get? hv)

/-- An expression, or no text at all, with a text behind it as a literal in brackets. -/
def addressed (source text : String) : String := source ++ (Atom.mk text .quoted 0).display

namespace Evaluator

variable {ev : Evaluator} {a : Atom} {as bs : List Atom} {root v : Value}
  {source : String} {t : LeafTy} {l : Leaf} {schema : Schema} {content : Option Value}

/-- A text has these atoms: as an expression, or none if it is empty. -/
def HasAtoms (source : String) (as : List Atom) : Prop :=
  parse source = .ok as ∨ source = "" ∧ as = []

/-- A text leads from the root to a value: as an expression, or to the root itself if it is
empty. -/
def LeadsTo (ev : Evaluator) (root : Value) (source : String) (v : Value) : Prop :=
  ev.get source root = .ok (some v) ∨ source = "" ∧ v = root

theorem exists_atoms_of_leadsTo (h : ev.LeadsTo root source v) :
    ∃ as, HasAtoms source as ∧ ev.reached root (start root) as = some v := by
  rcases h with h | ⟨rfl, rfl⟩
  · obtain ⟨as, hparse⟩ := exists_parse_of_get h
    obtain ⟨s, hs⟩ := read_of_get hparse h
    refine ⟨as, .inl hparse, ?_⟩
    cases as with
    | nil => rw [read] at hs; cases hs
    | cons a as => exact reached_eq_some.2 ⟨s, hs⟩
  · exact ⟨[], .inr ⟨rfl, rfl⟩, rfl⟩

/-- Behind a text with some atoms there is one more. -/
theorem parse_addressed (h : HasAtoms source as) (text : String) :
    parse (addressed source text) = .ok (as ++ [⟨text, .quoted, source.utf8ByteSize + 1⟩]) := by
  rcases h with h | ⟨rfl, rfl⟩
  · exact parse_append_display h text 0
  · have haddressed : addressed "" text = (Atom.mk text .quoted 0).display := String.empty_append
    rw [haddressed]
    exact parse_display text 0

/-- A walk goes on from what it reached. -/
theorem read_of_reached (hbs : bs ≠ []) (h : ev.reached root (start root) as = some v) :
    ∃ o, ev.read root (start root) (as ++ bs) = ev.read v (.value v.typeOf o) bs := by
  cases as with
  | nil => cases h; exact ⟨none, rfl⟩
  | cons a as =>
    obtain ⟨s, hs⟩ := reached_eq_some.1 h
    refine ⟨s.origin, ?_⟩
    rw [read_append hbs (a :: as) (absurd · (List.cons_ne_nil _ _))
      (fun m hm => by rw [hs] at hm; cases hm), hs]
    rfl

/-! ## One more atom -/

/-- How a key addresses what is under it: there is a text for the key, the text makes an expression,
and the expression gives what is there, or null. -/
structure Addresses (ev : Evaluator) (root : Value) (source text : String) (key : Value)
    (content : Option Value) : Prop where
  format : ev.converters.format none key = .ok text
  parse : ∃ as, HasAtoms source as ∧
    parse (addressed source text) = .ok (as ++ [⟨text, .quoted, source.utf8ByteSize + 1⟩])
  get : ev.get (addressed source text) root = .ok (content.bind (·.unwrapped))

/-- The evaluator of a schema with the standard registry. -/
def standard (schema : Schema) : Evaluator := ⟨schema, .standard⟩

theorem addresses_of_read (hl : l.Exact) (has : HasAtoms source (as ++ bs))
    (hreached : (standard schema).reached root (start root) as = some v)
    (hread : ∀ a o, a.text = l.write → ∃ st, (standard schema).read v (.value v.typeOf o)
      (bs ++ [a]) = .ok (.of st (content.bind (·.unwrapped)))) :
    (standard schema).Addresses root source l.write (.leaf l) content := by
  have hparse := parse_addressed has l.write
  refine ⟨Registry.format_leaf hl, ⟨_, has, hparse⟩, ?_⟩
  have hne : bs ++ [Atom.mk l.write .quoted (source.utf8ByteSize + 1)] ≠ [] :=
    List.append_ne_nil_of_right_ne_nil _ (List.cons_ne_nil _ _)
  obtain ⟨o, hwalk⟩ := read_of_reached hne hreached
  obtain ⟨st, hst⟩ := hread ⟨l.write, .quoted, source.utf8ByteSize + 1⟩ o rfl
  rw [← List.append_assoc] at hwalk
  exact get_eq hparse (hwalk.trans hst)

theorem parse_key (hl : l.Exact) (ht : l.type = t) (htext : a.text = l.write) :
    (standard schema).converters.parse none a.text (.leaf t) = .ok (.leaf l) := by
  rw [htext, ← ht]
  exact Registry.parse_write hl

/-- The text of a key addresses the entry under the key. -/
theorem addresses_entry (hl : l.Exact) (ht : l.type = t) {k : MapKind} {u : Ty}
    {es : List (Value × Value)}
    (hlead : (standard schema).LeadsTo root source (.map k (.leaf t) u es)) :
    (standard schema).Addresses root source l.write (.leaf l) (Entries.get? (.leaf l) es) := by
  obtain ⟨as, has, hreached⟩ := exists_atoms_of_leadsTo hlead
  rw [← as.append_nil] at has
  refine addresses_of_read hl has hreached fun a o htext =>
    ⟨.entry (.leaf l) a.text u o, read_of_step ?_ rfl⟩
  simp only [resolve, Value.typeOf, parse_key hl ht htext]

/-- The text of an index is converted to the index that the getter is handed. -/
theorem addresses_indexed (hl : l.Exact) (ht : l.type = t) {p : Property} {hidden : Option Field}
    {w : Ty} {read : Value → Value → Option Value} {offer : Value → Value → Offer}
    (hparse : parse source = .ok (as ++ [a]))
    (hreached : (standard schema).reached root (start root) as = some v)
    (hmember : (schema.metadata? v.typeOf).bind (·.member? a.text) = some (.property p hidden))
    (hindex : p.index? = some (.leaf t))
    (hreader : p.reader? = some (.indexedGetter w read offer)) :
    (standard schema).Addresses root source l.write (.leaf l) (read v (.leaf l)) := by
  refine addresses_of_read hl (.inl hparse) hreached fun b o htext => ?_
  have hsite : (standard schema).resolve (.value v.typeOf o) a =
      .ok (.site (.index (.property p hidden) (.leaf t))) := by
    cases htype : v.typeOf with
    | record path =>
      rw [htype] at hmember
      simp only [resolve, standard, hmember, Member.index?, hindex]
    | _ => rw [htype] at hmember; cases hmember
  refine ⟨.indexed (.property p hidden) (.leaf l) b.text, ?_⟩
  rw [List.singleton_append, read_site hsite]
  refine read_of_step ?_ ?_
  · simp only [resolve, parse_key hl ht htext]
  · simp only [Step.read, Step.slot, Member.readAt, hreader]

/-- What has keys of a leaf type can be addressed by them: the entries of the maps that are reached,
each by a text of its own, and through the properties that take an index. -/
structure Addressable (ev : Evaluator) (root : Value) (t : LeafTy) : Prop where
  entry : ∀ source k u es key v, ev.LeadsTo root source (.map k (.leaf t) u es) →
    HasType ev.schema (.map k (.leaf t) u es) (.map k (.leaf t) u) →
    Entries.get? key es = some v → ∃ text, ev.Addresses root source text key (some v)
  apart : ∀ source k u es key key' text text' v v',
    HasType ev.schema (.map k (.leaf t) u es) (.map k (.leaf t) u) →
    Entries.get? key es = some v → Entries.get? key' es = some v' →
    ev.Addresses root source text key (some v) → ev.Addresses root source text' key' (some v') →
    key ≠ key' → text ≠ text'
  index : ∀ source as a r p hidden w read offer l, parse source = .ok (as ++ [a]) →
    ev.reached root (start root) as = some r →
    (ev.schema.metadata? r.typeOf).bind (·.member? a.text) = some (.property p hidden) →
    p.index? = some (.leaf t) → p.reader? = some (.indexedGetter w read offer) →
    l.InRange → l.type = t → ∃ text, ev.Addresses root source text (.leaf l) (read r (.leaf l))

/-- With the standard registry everything under a key that is a Boolean, a character, a text or an
integer is addressed by the text of that key. -/
theorem addressable (schema : Schema) (root : Value) (ht : t.isExact = true) :
    (standard schema).Addressable root t := by
  refine ⟨?_, ?_, ?_⟩
  · intro source k u es key v hlead htyped hv
    obtain ⟨l, rfl, hrange, rfl⟩ := (htyped.key hv).exists_leaf
    have haddresses := addresses_entry ⟨hrange, ht⟩ rfl hlead
    rw [hv] at haddresses
    exact ⟨l.write, haddresses⟩
  · intro source k u es key key' text text' v v' htyped hv hv' h h' hne heq
    obtain ⟨l, rfl, hrange, hl⟩ := (htyped.key hv).exists_leaf
    obtain ⟨l', rfl, hrange', rfl⟩ := (htyped.key hv').exists_leaf
    have hexact : l.Exact := ⟨hrange, by rw [hl]; exact ht⟩
    have htext : text = l.write := Except.ok.inj (h.format.symm.trans (Registry.format_leaf hexact))
    have htext' : text' = l'.write :=
      Except.ok.inj (h'.format.symm.trans (Registry.format_leaf ⟨hrange', ht⟩))
    apply hne
    rw [Leaf.write_injective hexact ⟨hrange', ht⟩ hl (by rw [← htext, ← htext', heq])]
  · rintro source as a r p hidden w read offer l hparse hreached hmember hindex hreader hrange rfl
    exact ⟨l.write, addresses_indexed ⟨hrange, ht⟩ rfl hparse hreached hmember hindex hreader⟩

/-- A map with a key that has a quote in it and an empty key, as the root. -/
theorem addressable_quoted :
    LeafTy.text.isExact = true ∧
      HasType ⟨[], []⟩ (.map .tree .text (.option .text)
        [(.text "", .absent .text), (.text "it's", .present (.text "a"))])
        (.map .tree .text (.option .text)) ∧
      (∀ root, (standard ⟨[], []⟩).Addressable root .text) ∧
      (standard ⟨[], []⟩).get "['it\\'s']" (.map .tree .text (.option .text)
        [(.text "", .absent .text), (.text "it's", .present (.text "a"))]) =
          .ok (some (.text "a")) ∧
      (standard ⟨[], []⟩).get "['']" (.map .tree .text (.option .text)
        [(.text "", .absent .text), (.text "it's", .present (.text "a"))]) = .ok none :=
  ⟨rfl, .of_checks _ _ (by decide), fun root => addressable ⟨[], []⟩ root rfl, rfl, rfl⟩

end Evaluator

end ObjectPath
