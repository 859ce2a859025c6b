import ObjectPath.Proofs.Spelling

/-!
# Beginnings of expressions

The trees of what is not an expression yet: nothing at all, a path and a point, or an open bracket
behind a path or at the start, with a part of its content.  Where an expression is cut, an
expression or an unfinished one is left (`Path.begins_of_cut`).

What is left open in an unfinished expression is the point, the bracket, the quote or the backslash
of its tree.  So a point, a bracket or a quote that stands in a literal is a character of it and
leaves nothing open.
-/

namespace ObjectPath.Expression

/-! ## Trees -/

/-- What stands behind the open bracket of an unfinished expression. -/
inductive Inside
  | empty
  /-- The content, to which plain characters may still be added if it is plain. -/
  | full (c : Content)
  /-- A quote and the items behind it. -/
  | literal (l : Literal)
  /-- A quote and the items behind it, and the backslash of one that is missing. -/
  | escape (l : Literal)

/-- An expression that breaks off. -/
inductive Unfinished
  | nothing
  /-- A path and the point behind it. -/
  | point (p : Path)
  /-- An open bracket, behind a path if there is one. -/
  | bracket (before : Option Path) (inside : Inside)

namespace Inside

/-- The characters that stand behind the open bracket. -/
def spell : Inside → List Char
  | empty => []
  | full c => c.spell
  | literal l => l.quote :: Item.spellAll l.items
  | escape l => l.quote :: (Item.spellAll l.items ++ ['\\'])

/-- What stands from the open bracket on before the bracket, the quote or the backslash that is left
open last. -/
def settled : Inside → List Char
  | empty | full _ => []
  | literal _ => ['[']
  | escape l => '[' :: l.quote :: Item.spellAll l.items

theorem settled_le (i : Inside) : i.settled <+: '[' :: i.spell := by
  cases i with
  | empty | full => exact List.nil_prefix
  | literal l => exact ⟨l.quote :: Item.spellAll l.items, rfl⟩
  | escape l => exact ⟨['\\'], rfl⟩

end Inside

/-- The characters of a path, if there is one. -/
def Path.spell? : Option Path → List Char
  | none => []
  | some p => p.spell

namespace Unfinished

/-- The characters of an unfinished expression. -/
def spell : Unfinished → List Char
  | nothing => []
  | point p => p.spell ++ ['.']
  | bracket before inside => Path.spell? before ++ '[' :: inside.spell

/-- What stands before the bracket, the quote or the backslash that is left open last.  Behind a
point a name is missing, and all that there is stands before it. -/
def settled : Unfinished → List Char
  | nothing => []
  | point p => p.spell ++ ['.']
  | bracket before inside => Path.spell? before ++ inside.settled

theorem settled_le (u : Unfinished) : u.settled <+: u.spell := by
  cases u with
  | nothing | point => exact List.prefix_rfl
  | bracket before inside => exact (List.prefix_append_right_inj _).2 inside.settled_le

end Unfinished

/-- The characters of an expression or of an unfinished one. -/
def Begins (cs : List Char) : Prop := (∃ p : Path, p.spell = cs) ∨ ∃ u : Unfinished, u.spell = cs

/-! ## Cuts -/

variable {cs more us : List Char}

theorem Plain.cut (p : Plain) (h : p.chars ++ us = cs ++ more) :
    cs = [] ∨ (∃ q : Plain, q.chars = cs) ∨ ∃ ds, cs = p.chars ++ ds ∧ us = ds ++ more := by
  rcases List.append_eq_append_iff.1 h with ⟨ds, rfl, hus⟩ | ⟨ds, hchars, -⟩
  · exact .inr (.inr ⟨ds, rfl, hus⟩)
  · by_cases hnil : cs = []
    · exact .inl hnil
    · exact .inr (.inl ⟨⟨cs, hnil, fun c hc => p.plain c (hchars ▸ List.mem_append_left _ hc)⟩, rfl⟩)

/-- Items are cut behind one of them, or behind a backslash. -/
theorem Item.cut {items : List Item} (h : spellAll items = cs ++ more) :
    ∃ xs, xs <+: items ∧ (cs = spellAll xs ∨ cs = spellAll xs ++ ['\\']) := by
  induction items generalizing cs with
  | nil =>
    obtain ⟨rfl, -⟩ := List.append_eq_nil_iff.1 h.symm
    exact ⟨[], List.nil_prefix, .inl rfl⟩
  | cons x items ih =>
    cases cs with
    | nil => exact ⟨[], List.nil_prefix, .inl rfl⟩
    | cons c cs =>
      cases x with
      | bare d =>
        obtain ⟨rfl, htail⟩ := List.cons.inj h
        obtain ⟨xs, hxs, hcs⟩ := ih htail
        refine ⟨bare d :: xs, (List.prefix_cons_inj _).2 hxs, ?_⟩
        exact hcs.imp (congrArg (d :: ·)) (congrArg (d :: ·))
      | escaped d =>
        obtain ⟨rfl, htail⟩ := List.cons.inj h
        cases cs with
        | nil => exact ⟨[], List.nil_prefix, .inr rfl⟩
        | cons c cs =>
          obtain ⟨rfl, hrest⟩ := List.cons.inj htail
          obtain ⟨xs, hxs, hcs⟩ := ih hrest
          refine ⟨escaped d :: xs, (List.prefix_cons_inj _).2 hxs, ?_⟩
          exact hcs.imp (congrArg ('\\' :: d :: ·)) (congrArg ('\\' :: d :: ·))

/-- The literal with the first items of another one. -/
def Literal.upTo (l : Literal) (xs : List Item) (h : xs <+: l.items) : Literal :=
  ⟨l.quote, l.isQuote, xs, fun x hx => l.fits x (h.subset hx)⟩

/-- The content of a bracket is cut before the bracket is closed, or behind. -/
theorem Content.cut (k : Content) (h : k.spell ++ ']' :: us = cs ++ more) :
    (∃ i : Inside, i.spell = cs) ∨ ∃ ds, cs = k.spell ++ ']' :: ds ∧ us = ds ++ more := by
  rcases List.append_eq_append_iff.1 h with ⟨ds, rfl, htail⟩ | ⟨ds, hspell, -⟩
  · cases ds with
    | nil => exact .inl ⟨.full k, (List.append_nil _).symm⟩
    | cons d ds =>
      obtain ⟨rfl, hus⟩ := List.cons.inj htail
      exact .inr ⟨ds, rfl, hus⟩
  · refine .inl ?_
    cases cs with
    | nil => exact ⟨.empty, rfl⟩
    | cons c cs =>
      cases k with
      | plain p =>
        refine ⟨.full (.plain ⟨c :: cs, List.cons_ne_nil c cs, fun d hd => p.plain d ?_⟩), rfl⟩
        rw [show p.chars = c :: cs ++ ds from hspell]
        exact List.mem_append_left _ hd
      | literal l =>
        obtain ⟨rfl, hitems⟩ := List.cons.inj hspell
        rcases List.append_eq_append_iff.1 hitems with ⟨ends, rfl, hends⟩ | ⟨ds', hcut, -⟩
        · -- The cut is behind the last item, before or behind the closing quote.
          rcases List.append_eq_singleton_iff.1 hends.symm with ⟨rfl, -⟩ | ⟨rfl, -⟩
          · exact ⟨.literal l, congrArg (l.quote :: ·) (List.append_nil _).symm⟩
          · exact ⟨.full (.literal l), rfl⟩
        · obtain ⟨xs, hxs, rfl | rfl⟩ := Item.cut hcut
          · exact ⟨.literal (l.upTo xs hxs), rfl⟩
          · exact ⟨.escape (l.upTo xs hxs), rfl⟩

namespace Path

/-- A path and one more segment. -/
def snoc (p : Path) (s : Segment) : Path := ⟨p.first, p.rest ++ [s]⟩

theorem spell_snoc (p : Path) (s : Segment) :
    (p.snoc s).spell = p.spell ++ (s.separator ++ s.spell) := by
  simp only [snoc, spell, Segment.spellRest_append, Segment.spellRest, List.append_nil,
    List.append_assoc]

/-- Where the segments behind a path are cut, an expression or an unfinished one is left. -/
theorem begins_append {ss : List Segment} (p : Path) (h : Segment.spellRest ss = cs ++ more) :
    Begins (p.spell ++ cs) := by
  induction ss generalizing p cs with
  | nil =>
    obtain ⟨rfl, -⟩ := List.append_eq_nil_iff.1 h.symm
    exact .inl ⟨p, (List.append_nil _).symm⟩
  | cons s ss ih =>
    cases cs with
    | nil => exact .inl ⟨p, (List.append_nil _).symm⟩
    | cons c cs =>
      cases s with
      | name n =>
        rw [Segment.spellRest_name] at h
        obtain ⟨rfl, htail⟩ := List.cons.inj h
        rcases n.cut htail with rfl | ⟨m, rfl⟩ | ⟨ds, rfl, hds⟩
        · exact .inr ⟨.point p, rfl⟩
        · exact .inl ⟨p.snoc (.name m), p.spell_snoc _⟩
        · have hnext := ih (p.snoc (.name n)) hds
          rwa [spell_snoc, List.append_assoc] at hnext
      | bracket k =>
        rw [Segment.spellRest_bracket] at h
        obtain ⟨rfl, htail⟩ := List.cons.inj h
        rcases k.cut htail with ⟨i, rfl⟩ | ⟨ds, rfl, hds⟩
        · exact .inr ⟨.bracket (some p) i, rfl⟩
        · have hnext := ih (p.snoc (.bracket k)) hds
          rwa [spell_snoc, List.append_assoc, List.append_assoc,
            Segment.spell_bracket_append] at hnext

/-- Where an expression is cut, an expression or an unfinished one is left. -/
theorem begins_of_cut (p : Path) (h : p.spell = cs ++ more) : Begins cs := by
  obtain ⟨s, ss⟩ := p
  cases s with
  | name n =>
    rcases n.cut h with rfl | ⟨m, rfl⟩ | ⟨ds, rfl, hds⟩
    · exact .inr ⟨.nothing, rfl⟩
    · exact .inl ⟨⟨.name m, []⟩, List.append_nil _⟩
    · have hnext := begins_append ⟨.name n, []⟩ hds
      rwa [show (Path.mk (.name n) []).spell = n.chars from List.append_nil _] at hnext
  | bracket k =>
    cases cs with
    | nil => exact .inr ⟨.nothing, rfl⟩
    | cons c cs =>
      rw [show (Path.mk (.bracket k) ss).spell = _ from Segment.spell_bracket_append k _] at h
      obtain ⟨rfl, htail⟩ := List.cons.inj h
      rcases k.cut htail with ⟨i, rfl⟩ | ⟨ds, rfl, hds⟩
      · exact .inr ⟨.bracket none i, rfl⟩
      · have hnext := begins_append ⟨.bracket k, []⟩ hds
        rwa [show (Path.mk (.bracket k) []).spell = _ from List.append_nil _,
          Segment.spell_bracket_append] at hnext

end Path

end ObjectPath.Expression
