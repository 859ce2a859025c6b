import ObjectPath.Proofs.Spelling

/-!
# Rendering atoms

Atoms are rendered as an expression by writing one behind the other, with a point before each name
but the first.  A name and a plain bracket can only be written if their text is not empty and holds
plain characters; a literal can be written whatever its text is (`Atom.Renderable`).

Such atoms are the segments of a path that spells the rendering (`Expression.exists_path`), so the
rendering is an expression with these atoms.  The atoms of any expression can be written, and the
rendering does not look at their offsets, so it is one canonical form for all expressions with the
same atoms (`Expression.renders`).
-/

namespace ObjectPath

namespace Atom

/-- Whether an atom can be written: without quotes it needs a text of plain characters. -/
def Renderable (a : Atom) : Prop :=
  a.form = .quoted ∨ a.text ≠ "" ∧ ∀ c ∈ a.text.toList, Expression.isPlain c = true

/-- What is written between an atom and the one before. -/
def separator (a : Atom) : List Char :=
  match a.form with
  | .name => ['.']
  | .bracketed | .quoted => []

/-- A backslash is put before each occurrence of a character. -/
def slashed (mark c : Char) : List Char := if c = mark then ['\\', c] else [c]

/-- A literal is escaped as by two replacements, that of the backslashes first: the ones that are put
before the quotes afterwards stay single. -/
theorem flatMap_escape (cs : List Char) :
    cs.flatMap escape = (cs.flatMap (slashed '\\')).flatMap (slashed '\x27') := by
  rw [List.flatMap_assoc]
  refine congrArg (cs.flatMap ·) (funext fun c => ?_)
  by_cases hslash : c = '\\'
  · subst hslash; rfl
  · rw [escape, if_neg hslash, slashed, if_neg hslash, List.flatMap_singleton, slashed]
    split
    · next hquote => rw [hquote]
    · rfl

theorem write_unplaced (a : Atom) : a.unplaced.write = a.write := rfl

theorem separator_unplaced (a : Atom) : a.unplaced.separator = a.separator := rfl

end Atom

namespace Expression

variable {as bs : List Atom} {source : String}

/-! ## Renderings -/

/-- The characters of atoms that follow another one. -/
def renderRest : List Atom → List Char
  | [] => []
  | a :: as => a.separator ++ a.write ++ renderRest as

/-- The expression in which some atoms are written. -/
def render : List Atom → String
  | [] => ""
  | a :: as => String.ofList (a.write ++ renderRest as)

theorem renderRest_unplaced (as : List Atom) : renderRest (as.map Atom.unplaced) = renderRest as := by
  induction as with
  | nil => rfl
  | cons a as ih =>
    rw [List.map_cons, renderRest, ih, Atom.separator_unplaced, Atom.write_unplaced, renderRest]

theorem render_unplaced (as : List Atom) : render (as.map Atom.unplaced) = render as := by
  cases as with
  | nil => rfl
  | cons a as => rw [List.map_cons, render, renderRest_unplaced, Atom.write_unplaced, render]

/-- A rendering does not tell where the atoms came from. -/
theorem render_congr (h : as.map Atom.unplaced = bs.map Atom.unplaced) : render as = render bs := by
  rw [← render_unplaced as, h, render_unplaced]

/-! ## Segments for atoms -/

/-- An atom that can be written is that of a segment. -/
theorem exists_segment {a : Atom} (h : a.Renderable) :
    ∃ s : Segment, s.spell = a.write ∧ s.separator = a.separator ∧
      ∀ o, (s.atom o).unplaced = a.unplaced := by
  obtain ⟨text, form, offset⟩ := a
  -- Without quotes the text is one of plain characters.
  have hplain (hform : form ≠ .quoted) : ∃ p : Plain, p.chars = text.toList := by
    obtain ⟨hne, hchars⟩ := h.resolve_left hform
    exact ⟨⟨text.toList, fun hnil => hne (String.toList_eq_nil_iff.1 hnil), hchars⟩, rfl⟩
  cases form with
  | name =>
    obtain ⟨p, hp⟩ := hplain (by decide)
    refine ⟨.name p, hp, rfl, fun o => ?_⟩
    simp only [Segment.atom, Atom.unplaced, hp, String.ofList_toList]
  | bracketed =>
    obtain ⟨p, hp⟩ := hplain (by decide)
    refine ⟨.bracket (.plain p), ?_, rfl, fun o => ?_⟩
    · simp only [Segment.spell, Content.spell, Atom.write, hp, List.cons_append]
    · simp only [Segment.atom, Content.text, Content.form, Atom.unplaced, hp, String.ofList_toList]
  | quoted =>
    refine ⟨.quoted text, Segment.spell_quoted text offset, rfl, fun o => ?_⟩
    rw [Segment.atom_quoted, Atom.unplaced, Atom.unplaced]

/-- The atom of a segment can be written. -/
theorem Segment.renderable_atom (s : Segment) (o : Nat) : (s.atom o).Renderable := by
  have hplain (p : Plain) (form : AtomForm) (o : Nat) :
      (Atom.mk (String.ofList p.chars) form o).Renderable := by
    refine .inr ⟨fun hnil => p.nonempty ?_, ?_⟩
    · exact String.toList_ofList.symm.trans (congrArg String.toList hnil)
    · rw [String.toList_ofList]
      exact p.plain
  cases s with
  | name p => exact hplain p _ _
  | bracket c =>
    cases c with
    | plain p => exact hplain p _ _
    | literal l => exact .inl rfl

/-- Atoms that can be written are those of segments that follow another one. -/
theorem exists_segments (h : ∀ a ∈ as, a.Renderable) : ∃ ss : List Segment,
    Segment.spellRest ss = renderRest as ∧
      ∀ o, (Segment.atoms o ss).map Atom.unplaced = as.map Atom.unplaced := by
  induction as with
  | nil => exact ⟨[], rfl, fun _ => rfl⟩
  | cons a as ih =>
    obtain ⟨ha, has⟩ := List.forall_mem_cons.1 h
    obtain ⟨s, hspell, hseparator, hatom⟩ := exists_segment ha
    obtain ⟨ss, hrest, hatoms⟩ := ih has
    refine ⟨s :: ss, ?_, fun o => ?_⟩
    · rw [Segment.spellRest, hspell, hseparator, hrest, renderRest]
    · rw [Segment.atoms, List.map_cons, hatom, hatoms, List.map_cons]

/-- Atoms that can be written are those of a path, which spells their rendering. -/
theorem exists_path (hne : as ≠ []) (h : ∀ a ∈ as, a.Renderable) : ∃ p : Path,
    p.spell = (render as).toList ∧ p.atoms.map Atom.unplaced = as.map Atom.unplaced := by
  obtain ⟨a, as, rfl⟩ := List.exists_cons_of_ne_nil hne
  obtain ⟨ha, has⟩ := List.forall_mem_cons.1 h
  obtain ⟨s, hspell, -, hatom⟩ := exists_segment ha
  obtain ⟨ss, hrest, hatoms⟩ := exists_segments has
  refine ⟨⟨s, ss⟩, ?_, ?_⟩
  · rw [Path.spell, hspell, hrest, render, String.toList_ofList]
  · rw [Path.atoms, List.map_cons, hatom, hatoms, List.map_cons]

theorem Segment.renderable_of_mem_atoms {a : Atom} {ss : List Segment} :
    ∀ {o : Nat}, a ∈ atoms o ss → a.Renderable := by
  induction ss with
  | nil => intro o ha; cases ha
  | cons s ss ih =>
    intro o ha
    rcases List.mem_cons.1 ha with rfl | ha
    · exact s.renderable_atom _
    · exact ih ha

/-- The atoms of an expression can be written. -/
theorem renderable_of_atoms (h : atoms source = .ok as) : ∀ a ∈ as, a.Renderable := by
  obtain ⟨p, -, rfl⟩ := atoms_eq_ok_iff.1 h
  exact List.forall_mem_cons.2
    ⟨p.first.renderable_atom 0, fun _ ha => Segment.renderable_of_mem_atoms ha⟩

/-! ## Expressions -/

/-- A rendering is an expression with the atoms that are rendered. -/
theorem atoms_render (hne : as ≠ []) (h : ∀ a ∈ as, a.Renderable) :
    ∃ bs, atoms (render as) = .ok bs ∧ bs.map Atom.unplaced = as.map Atom.unplaced := by
  obtain ⟨p, hspell, hatoms⟩ := exists_path hne h
  exact ⟨p.atoms, atoms_eq_ok_iff.2 ⟨p, hspell, rfl⟩, hatoms⟩

/-- Atoms that can be written are those of their rendering, in the same order and with the same
texts and forms.  So every expression has a canonical form, the rendering of its atoms: that has the
same atoms at its own offsets, and is its own canonical form. -/
theorem renders :
    (∀ as, as ≠ [] → (∀ a ∈ as, a.Renderable) →
      ∃ bs, atoms (render as) = .ok bs ∧ bs.map Atom.unplaced = as.map Atom.unplaced) ∧
    ∀ source as, atoms source = .ok as → (∀ a ∈ as, a.Renderable) ∧
      ∃ bs, atoms (render as) = .ok bs ∧ bs.map Atom.unplaced = as.map Atom.unplaced ∧
        render bs = render as := by
  refine ⟨fun as => atoms_render, fun source as h => ?_⟩
  have hne : as ≠ [] := by
    obtain ⟨p, -, rfl⟩ := atoms_eq_ok_iff.1 h
    exact List.cons_ne_nil _ _
  have hwritten := renderable_of_atoms h
  obtain ⟨bs, hbs, hatoms⟩ := atoms_render hne hwritten
  exact ⟨hwritten, bs, hbs, hatoms, render_congr hatoms⟩

/-- A name, a literal with a quote and a backslash, a name behind a bracket, and an index. -/
def mixed : List Atom :=
  [⟨"a", .name, 0⟩, ⟨"it's\\", .quoted, 0⟩, ⟨"b", .name, 0⟩, ⟨"3", .bracketed, 0⟩]

theorem renders_mixed :
    mixed ≠ [] ∧ (∀ a ∈ mixed, a.Renderable) ∧ render mixed = "a['it\\'s\\\\'].b[3]" ∧
      (∃ bs, atoms (render mixed) = .ok bs ∧ bs.map Atom.unplaced = mixed.map Atom.unplaced) ∧
      ∃ as bs, atoms "a[\"it's\\\\\"].b[3]" = .ok as ∧ atoms (render as) = .ok bs ∧
        bs.map Atom.unplaced = as.map Atom.unplaced ∧ render bs = render as := by
  have hne : mixed ≠ [] := List.cons_ne_nil _ _
  have hmixed : ∀ a ∈ mixed, a.Renderable := by
    simp [mixed, Atom.Renderable, isPlain, isQuote]
  have hdouble : atoms "a[\"it's\\\\\"].b[3]" = .ok
      [⟨"a", .name, 0⟩, ⟨"it's\\", .quoted, 2⟩, ⟨"b", .name, 12⟩, ⟨"3", .bracketed, 14⟩] := by rfl
  obtain ⟨-, bs, hbs⟩ := renders.2 _ _ hdouble
  exact ⟨hne, hmixed, by rfl, renders.1 mixed hne hmixed, _, bs, hdouble, hbs⟩

end Expression

end ObjectPath
