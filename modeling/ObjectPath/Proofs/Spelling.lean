import ObjectPath.Proofs.Scanning

/-!
# Spelling expressions

What can be said of an expression by way of its segments.  An expression whose atoms are split is
itself split at a segment (`Evaluator.exists_spelled_of_append`), and a quoted literal in brackets
can be put behind any expression, whatever its text is (`Evaluator.parse_append_display`).

The part of an expression behind a segment, read as an expression of its own, has its atoms at other
offsets.  Atoms are compared without their offset where that is all they differ in
(`Atom.unplaced`).
-/

namespace ObjectPath

/-- An atom without its place in an expression. -/
def Atom.unplaced (a : Atom) : Atom := ⟨a.text, a.form, 0⟩

@[simp] theorem Atom.index?_unplaced (a : Atom) : a.unplaced.index? = a.index? := rfl

namespace Expression

/-! ## Segments in sequence -/

namespace Segment

theorem spellRest_append (ss ts : List Segment) :
    spellRest (ss ++ ts) = spellRest ss ++ spellRest ts := by
  induction ss with
  | nil => rfl
  | cons s ss ih => simp only [List.cons_append, spellRest, ih, List.append_assoc]

/-- The atoms behind some segments begin where those segments end. -/
theorem atoms_append (o : Nat) (ss ts : List Segment) :
    atoms o (ss ++ ts) = atoms o ss ++ atoms (o + byteLength (spellRest ss)) ts := by
  induction ss generalizing o with
  | nil => rfl
  | cons s ss ih =>
    rw [List.cons_append, atoms, ih, atoms, List.cons_append, spellRest, Nat.add_assoc,
      ← byteLength_append]

theorem length_atoms (o : Nat) (ss : List Segment) : (atoms o ss).length = ss.length := by
  induction ss generalizing o with
  | nil => rfl
  | cons s ss ih => rw [atoms, List.length_cons, ih, List.length_cons]

theorem unplaced_atom (s : Segment) (o o' : Nat) : (s.atom o).unplaced = (s.atom o').unplaced := by
  cases s <;> rfl

/-- Up to their offsets the atoms do not depend on where the segments begin. -/
theorem map_unplaced_atoms (o o' : Nat) (ss : List Segment) :
    (atoms o ss).map Atom.unplaced = (atoms o' ss).map Atom.unplaced := by
  induction ss generalizing o o' with
  | nil => rfl
  | cons s ss ih =>
    rw [atoms, atoms, List.map_cons, List.map_cons, ih, s.unplaced_atom]

/-- Where atoms are split, their segments are. -/
theorem exists_append_of_atoms {o : Nat} {ss : List Segment} {as bs : List Atom}
    (h : atoms o ss = as ++ bs) : ∃ ts us, ss = ts ++ us ∧ atoms o ts = as ∧
      atoms (o + byteLength (spellRest ts)) us = bs := by
  refine ⟨ss.take as.length, ss.drop as.length, (List.take_append_drop _ _).symm, ?_⟩
  have hlength : as.length ≤ ss.length := by
    have := congrArg List.length h
    rw [length_atoms, List.length_append] at this
    omega
  rw [← List.take_append_drop as.length ss, atoms_append] at h
  refine List.append_inj h ?_
  rw [length_atoms, List.length_take]
  omega

end Segment

/-- Segments that follow another one are a path of their own, up to the offsets of the atoms. -/
theorem Path.map_unplaced_atoms (s : Segment) (ss : List Segment) (o : Nat) :
    (Path.mk s ss).atoms.map Atom.unplaced = (Segment.atoms o (s :: ss)).map Atom.unplaced := by
  rw [Path.atoms, Segment.atoms, List.map_cons, List.map_cons, s.unplaced_atom 0,
    Segment.map_unplaced_atoms]

/-- Where the atoms of a path are split, the path is split before a segment. -/
theorem Path.exists_of_append {p : Path} {as bs : List Atom} (has : as ≠ []) (hbs : bs ≠ [])
    (h : p.atoms = as ++ bs) : ∃ q r : Path, q.atoms = as ∧
      r.atoms.map Atom.unplaced = bs.map Atom.unplaced ∧
      p.spell = q.spell ++ r.first.separator ++ r.spell := by
  obtain ⟨a, as, rfl⟩ := List.exists_cons_of_ne_nil has
  obtain ⟨hfirst, hrest⟩ := List.cons.inj h
  obtain ⟨ts, us, hss, hts, hus⟩ := Segment.exists_append_of_atoms hrest
  cases us with
  | nil => exact absurd hus.symm hbs
  | cons u us =>
    refine ⟨⟨p.first, ts⟩, ⟨u, us⟩, ?_, ?_, ?_⟩
    · rw [Path.atoms, hfirst, hts]
    · rw [← hus]
      exact Path.map_unplaced_atoms u us _
    · simp only [Path.spell, hss, Segment.spellRest_append, Segment.spellRest, List.append_assoc]

/-! ## Literals -/

namespace Item

/-- The item for a character of a literal in single quotes. -/
def of (c : Char) : Item := if c = '\\' ∨ c = '\x27' then escaped c else bare c

theorem fits_of (c : Char) : (of c).Fits '\x27' := by
  unfold of
  split
  · trivial
  · next h => exact not_or.1 h

theorem char_of (c : Char) : (of c).char = c := by
  unfold of
  split <;> rfl

theorem spell_of (c : Char) : (of c).spell = Atom.escape c := by
  unfold of Atom.escape
  by_cases hslash : c = '\\'
  · subst hslash; rfl
  · by_cases hquote : c = '\x27'
    · subst hquote; rfl
    · rw [if_neg (not_or.2 ⟨hslash, hquote⟩), if_neg hslash, if_neg hquote]
      rfl

end Item

/-- The literal of a text, in single quotes. -/
def Literal.of (text : String) : Literal where
  quote := '\x27'
  isQuote := rfl
  items := text.toList.map Item.of
  fits x hx := by
    obtain ⟨c, -, rfl⟩ := List.mem_map.1 hx
    exact Item.fits_of c

theorem Content.text_literal_of (text : String) :
    (Content.literal (.of text)).text = text.toList := by
  show (text.toList.map Item.of).map Item.char = text.toList
  rw [List.map_map]
  exact List.map_id'' Item.char_of _

/-- The bracket with a text as its literal. -/
def Segment.quoted (text : String) : Segment := .bracket (.literal (.of text))

theorem Segment.spell_quoted (text : String) (o : Nat) :
    (quoted text).spell = (Atom.mk text .quoted o).write := by
  have hitems : Item.spellAll (text.toList.map Item.of) = text.toList.flatMap Atom.escape := by
    rw [Item.spellAll, List.flatMap_map]
    exact congrArg (text.toList.flatMap ·) (funext Item.spell_of)
  show '[' :: ('\x27' :: (Item.spellAll (text.toList.map Item.of) ++ ['\x27']) ++ [']']) = _
  rw [hitems]
  simp [Atom.write]

theorem Segment.atom_quoted (text : String) (o : Nat) :
    (quoted text).atom o = ⟨text, .quoted, o + 1⟩ := by
  show Atom.mk (String.ofList (Content.literal (.of text)).text) .quoted (o + 1) = _
  rw [Content.text_literal_of, String.ofList_toList]

end Expression

namespace Evaluator

open Expression

theorem parse_eq_ok_iff {source : String} {as : List Atom} :
    parse source = .ok as ↔ ∃ p : Path, p.spell = source.toList ∧ p.atoms = as := by
  rw [← atoms_eq_ok_iff, parse]
  cases atoms source <;> simp

/-- An expression has an atom at least. -/
theorem parse_ne_nil {source : String} {as : List Atom} (h : parse source = .ok as) : as ≠ [] := by
  obtain ⟨p, -, rfl⟩ := parse_eq_ok_iff.1 h
  exact List.cons_ne_nil _ _

/-- The expression of a path. -/
theorem parse_spell (p : Path) : parse (String.ofList p.spell) = .ok p.atoms :=
  parse_eq_ok_iff.2 ⟨p, String.toList_ofList.symm, rfl⟩

/-- An expression has some atoms, at whatever offsets. -/
def Spells (source : String) (as : List Atom) : Prop :=
  ∃ bs, parse source = .ok bs ∧ bs.map Atom.unplaced = as.map Atom.unplaced

/-- Both parts of the atoms of an expression can be spelled. -/
theorem exists_spelled_of_append {source : String} {as bs : List Atom} (has : as ≠ [])
    (hbs : bs ≠ []) (h : parse source = .ok (as ++ bs)) :
    ∃ first second, parse first = .ok as ∧ Spells second bs := by
  obtain ⟨p, -, hp⟩ := parse_eq_ok_iff.1 h
  obtain ⟨q, r, hq, hr, -⟩ := Path.exists_of_append has hbs hp
  exact ⟨_, _, hq ▸ parse_spell q, _, parse_spell r, hr⟩

/-- A text in quotes and brackets is an expression. -/
theorem parse_display (text : String) (o : Nat) :
    parse (Atom.mk text .quoted o).display = .ok [⟨text, .quoted, 1⟩] := by
  refine parse_eq_ok_iff.2 ⟨⟨.quoted text, []⟩, ?_, ?_⟩
  · rw [Path.spell, Segment.spellRest, List.append_nil, Segment.spell_quoted text o, Atom.display,
      String.toList_ofList]
  · rw [Path.atoms, Segment.atom_quoted]
    rfl

/-- A text in quotes and brackets can be put behind any expression. -/
theorem parse_append_display {source : String} {as : List Atom} (h : parse source = .ok as)
    (text : String) (o : Nat) : parse (source ++ (Atom.mk text .quoted o).display) =
      .ok (as ++ [⟨text, .quoted, source.utf8ByteSize + 1⟩]) := by
  obtain ⟨p, hp, rfl⟩ := parse_eq_ok_iff.1 h
  have hsize : source.utf8ByteSize =
      byteLength p.first.spell + byteLength (Segment.spellRest p.rest) := by
    rw [← byteLength_append, ← Path.spell, hp, byteLength, String.ofList_toList]
  refine parse_eq_ok_iff.2 ⟨⟨p.first, p.rest ++ [.quoted text]⟩, ?_, ?_⟩
  · have hlast : Segment.spellRest [.quoted text] = (Atom.mk text .quoted o).write := by
      rw [← Segment.spell_quoted]
      exact List.append_nil _
    show p.first.spell ++ Segment.spellRest (p.rest ++ [.quoted text]) = _
    rw [Segment.spellRest_append, ← List.append_assoc, hlast, String.toList_append, ← hp,
      Atom.display, String.toList_ofList, Path.spell]
  · rw [Path.atoms, Segment.atoms_append, ← hsize, Path.atoms]
    show _ = _ :: (_ ++ [Atom.mk text .quoted (source.utf8ByteSize + 1)])
    rw [← Segment.atom_quoted]
    rfl

end Evaluator

end ObjectPath
