import ObjectPath.Expression.Scan

/-!
# The grammar of expressions

The derivation trees of expressions: a path is a segment and the segments behind it, a segment is a
name or a bracket, and a bracket holds plain characters or a quoted literal.  The trees hold only
what the grammar admits.

A tree can be spelled in one way, and a spelling has one tree (`Path.spell_injective`).  The atoms
of a tree are its segments, each at the offset at which it is written; the offsets increase
(`Path.offsets_increase`).
-/

namespace ObjectPath.Expression

/-! ## Characters -/

/-- The number of bytes of some characters. -/
def byteLength (cs : List Char) : Nat := (String.ofList cs).utf8ByteSize

@[simp] theorem byteLength_nil : byteLength [] = 0 := rfl

@[simp] theorem byteLength_append (cs ds : List Char) :
    byteLength (cs ++ ds) = byteLength cs + byteLength ds := by
  rw [byteLength, String.ofList_append, String.utf8ByteSize_append]
  rfl

@[simp] theorem byteLength_cons (c : Char) (cs : List Char) :
    byteLength (c :: cs) = c.utf8Size + byteLength cs := by
  rw [← List.singleton_append, byteLength_append, byteLength, ← String.singleton_eq_ofList,
    String.utf8ByteSize_singleton]

theorem length_le_byteLength (cs : List Char) : cs.length ≤ byteLength cs := by
  induction cs with
  | nil => exact Nat.le_refl 0
  | cons c cs ih =>
    have := c.utf8Size_pos
    rw [byteLength_cons, List.length_cons]
    omega

/-- A character that means nothing but itself. -/
def isPlain (c : Char) : Bool := !(c == '.' || c == '[' || c == ']' || isQuote c)

/-- No plain character comes first. -/
def Stops (cs : List Char) : Prop := ∀ c ∈ cs.head?, isPlain c = false

/-- Plain characters end where another one comes. -/
theorem plain_append_inj {xs ys us vs : List Char} (hx : ∀ c ∈ xs, isPlain c = true)
    (hy : ∀ c ∈ ys, isPlain c = true) (hu : Stops us) (hv : Stops vs)
    (h : xs ++ us = ys ++ vs) : xs = ys ∧ us = vs := by
  have hnil : ∀ ws, Stops ws → ws.takeWhile isPlain = [] := by
    intro ws hws
    cases ws with
    | nil => rfl
    | cons c ws => exact List.takeWhile_cons_of_neg (by simp [hws c rfl])
  have htake := congrArg (List.takeWhile isPlain) h
  rw [List.takeWhile_append_of_pos hx, List.takeWhile_append_of_pos hy, hnil us hu, hnil vs hv,
    List.append_nil, List.append_nil] at htake
  subst htake
  exact ⟨rfl, List.append_cancel_left h⟩

/-! ## Derivation trees -/

/-- One or more plain characters. -/
structure Plain where
  chars : List Char
  nonempty : chars ≠ []
  plain : ∀ c ∈ chars, isPlain c = true

/-- A character of a quoted literal, behind a backslash or not. -/
inductive Item
  | bare (c : Char)
  | escaped (c : Char)

/-- Without a backslash in front a literal holds neither its quote nor a backslash. -/
def Item.Fits (quote : Char) : Item → Prop
  | bare c => c ≠ '\\' ∧ c ≠ quote
  | escaped _ => True

/-- A quoted literal. -/
structure Literal where
  quote : Char
  isQuote : Expression.isQuote quote = true
  items : List Item
  fits : ∀ x ∈ items, x.Fits quote

/-- What stands between brackets. -/
inductive Content
  | plain (p : Plain)
  | literal (l : Literal)

/-- A name, or a bracket. -/
inductive Segment
  | name (p : Plain)
  | bracket (c : Content)

/-- The derivation of an expression: its segments. -/
structure Path where
  first : Segment
  rest : List Segment

/-! ## What the trees derive -/

namespace Item

/-- The characters an item is written with. -/
def spell : Item → List Char
  | bare c => [c]
  | escaped c => ['\\', c]

/-- The character an item stands for. -/
def char : Item → Char
  | bare c | escaped c => c

/-- The characters some items are written with. -/
def spellAll (items : List Item) : List Char := items.flatMap spell

end Item

namespace Content

/-- The characters that stand between the brackets. -/
def spell : Content → List Char
  | plain p => p.chars
  | literal l => l.quote :: (Item.spellAll l.items ++ [l.quote])

/-- The content without quotes and escapes. -/
def text : Content → List Char
  | plain p => p.chars
  | literal l => l.items.map (·.char)

/-- How the content is written. -/
def form : Content → AtomForm
  | plain _ => .bracketed
  | literal _ => .quoted

end Content

namespace Segment

/-- The characters of a segment. -/
def spell : Segment → List Char
  | name p => p.chars
  | bracket c => '[' :: (c.spell ++ [']'])

/-- What separates a segment from the one before. -/
def separator : Segment → List Char
  | name _ => ['.']
  | bracket _ => []

/-- The atom of a segment whose first byte is at an offset.  A bracket has its atom behind it. -/
def atom (offset : Nat) : Segment → Atom
  | name p => ⟨String.ofList p.chars, .name, offset⟩
  | bracket c => ⟨String.ofList c.text, c.form, offset + 1⟩

/-- The characters of segments that follow another one. -/
def spellRest : List Segment → List Char
  | [] => []
  | s :: rest => s.separator ++ s.spell ++ spellRest rest

/-- The atoms of segments that follow another one, which ends at an offset. -/
def atoms (offset : Nat) : List Segment → List Atom
  | [] => []
  | s :: rest => s.atom (offset + byteLength s.separator) ::
      atoms (offset + byteLength (s.separator ++ s.spell)) rest

end Segment

namespace Path

/-- The expression a path derives. -/
def spell (p : Path) : List Char := p.first.spell ++ Segment.spellRest p.rest

/-- The atoms of a path. -/
def atoms (p : Path) : List Atom :=
  p.first.atom 0 :: Segment.atoms (byteLength p.first.spell) p.rest

end Path

/-! ## Spellings are unambiguous -/

theorem Item.spellAll_cons (x : Item) (xs : List Item) :
    spellAll (x :: xs) = x.spell ++ spellAll xs := rfl

theorem Item.byteLength_bare (c : Char) : byteLength (bare c).spell = c.utf8Size := by
  rw [spell, byteLength_cons, byteLength_nil, Nat.add_zero]

theorem Item.byteLength_escaped (c : Char) :
    byteLength (escaped c).spell = Char.utf8Size '\\' + c.utf8Size := by
  rw [spell, byteLength_cons, byteLength_cons, byteLength_nil, Nat.add_zero]

theorem Content.spell_literal_append (l : Literal) (us : List Char) :
    (literal l).spell ++ us = l.quote :: (Item.spellAll l.items ++ l.quote :: us) := by
  rw [spell, List.cons_append, List.append_assoc, List.singleton_append]

theorem Content.byteLength_literal (l : Literal) : byteLength (literal l).spell =
    l.quote.utf8Size + (byteLength (Item.spellAll l.items) + l.quote.utf8Size) := by
  simp only [spell, byteLength_cons, byteLength_append, byteLength_nil, Nat.add_zero]

theorem Segment.spell_bracket_append (c : Content) (us : List Char) :
    (bracket c).spell ++ us = '[' :: (c.spell ++ ']' :: us) := by
  rw [spell, List.cons_append, List.append_assoc, List.singleton_append]

theorem Segment.spellRest_name (p : Plain) (rest : List Segment) :
    spellRest (name p :: rest) = '.' :: (p.chars ++ spellRest rest) := rfl

theorem Segment.spellRest_bracket (c : Content) (rest : List Segment) :
    spellRest (bracket c :: rest) = '[' :: (c.spell ++ ']' :: spellRest rest) :=
  spell_bracket_append c (spellRest rest)

theorem Segment.byteLength_bracket (c : Content) :
    byteLength (bracket c).spell = 1 + byteLength c.spell + 1 := by
  rw [spell, byteLength_cons, byteLength_append, ← Nat.add_assoc]
  rfl

theorem Segment.atoms_name (o : Nat) (p : Plain) (rest : List Segment) :
    atoms o (name p :: rest) =
      (name p).atom (o + 1) :: atoms (o + 1 + byteLength p.chars) rest := by
  rw [atoms, byteLength_append, ← Nat.add_assoc]
  rfl

theorem Segment.atoms_bracket (o : Nat) (c : Content) (rest : List Segment) :
    atoms o (bracket c :: rest) =
      (bracket c).atom o :: atoms (o + 1 + byteLength c.spell + 1) rest := by
  rw [atoms, byteLength_append, byteLength_bracket, ← Nat.add_assoc, ← Nat.add_assoc,
    ← Nat.add_assoc]
  rfl

theorem Plain.ext {p q : Plain} (h : p.chars = q.chars) : p = q := by
  cases p; cases q; cases h; rfl

theorem Literal.ext {l m : Literal} (hq : l.quote = m.quote) (hi : l.items = m.items) : l = m := by
  cases l; cases m; cases hq; cases hi; rfl

theorem isPlain_of_isQuote {c : Char} (h : isQuote c = true) : isPlain c = false := by
  simp [isPlain, h]

/-- An item of a literal is known from its first characters. -/
theorem Item.spell_append_inj {q : Char} {x y : Item} {us vs : List Char} (hx : x.Fits q)
    (hy : y.Fits q) (h : x.spell ++ us = y.spell ++ vs) : x = y ∧ us = vs := by
  cases x with
  | bare c =>
    cases y with
    | bare d =>
      obtain ⟨rfl, rfl⟩ := List.cons.inj h
      exact ⟨rfl, rfl⟩
    | escaped d => exact absurd (List.cons.inj h).1 hx.1
  | escaped c =>
    cases y with
    | bare d => exact absurd (List.cons.inj h).1.symm hy.1
    | escaped d =>
      obtain ⟨rfl, rfl⟩ := List.cons.inj (List.cons.inj h).2
      exact ⟨rfl, rfl⟩

/-- The items of a literal end at its quote. -/
theorem Item.spellAll_append_inj {q : Char} (hq : q ≠ '\\') {us vs : List Char} :
    ∀ {xs ys : List Item}, (∀ x ∈ xs, x.Fits q) → (∀ y ∈ ys, y.Fits q) →
      spellAll xs ++ q :: us = spellAll ys ++ q :: vs → xs = ys ∧ us = vs := by
  -- The quote begins no item.
  have differ : ∀ (x : Item) (us vs : List Char), x.Fits q → q :: us ≠ x.spell ++ vs := by
    intro x us vs hx h
    cases x with
    | bare c => exact hx.2 (List.cons.inj h).1.symm
    | escaped c => exact hq (List.cons.inj h).1
  intro xs
  induction xs with
  | nil =>
    intro ys _ hy h
    cases ys with
    | nil => exact ⟨rfl, (List.cons.inj h).2⟩
    | cons y ys =>
      rw [spellAll_cons, List.append_assoc] at h
      exact absurd h (differ y _ _ (hy y (.head _)))
  | cons x xs ih =>
    intro ys hx hy h
    have hxfits := hx x (.head _)
    rw [spellAll_cons, List.append_assoc] at h
    cases ys with
    | nil => exact absurd h.symm (differ x _ _ hxfits)
    | cons y ys =>
      have hyfits := hy y (.head _)
      rw [spellAll_cons, List.append_assoc] at h
      obtain ⟨rfl, htail⟩ := spell_append_inj hxfits hyfits h
      obtain ⟨rfl, hrest⟩ :=
        ih (fun z hz => hx z (.tail _ hz)) (fun z hz => hy z (.tail _ hz)) htail
      exact ⟨rfl, hrest⟩

theorem quote_ne_backslash {q : Char} (h : isQuote q = true) : q ≠ '\\' := by
  rintro rfl
  cases h

theorem stops_bracket (cs : List Char) : Stops (']' :: cs) := by
  intro c hc
  cases hc
  rfl

theorem stops_spellRest (rest : List Segment) : Stops (Segment.spellRest rest) := by
  intro c hc
  cases rest with
  | nil => cases hc
  | cons s rest =>
    cases s <;> cases hc <;> rfl

/-- The content of a bracket ends at the closing bracket. -/
theorem Content.spell_append_inj {c d : Content} {us vs : List Char}
    (h : c.spell ++ ']' :: us = d.spell ++ ']' :: vs) : c = d ∧ us = vs := by
  -- A literal begins with a quote, which is not plain.
  have differ : ∀ (p : Plain) (l : Literal) (us vs : List Char),
      (plain p).spell ++ us ≠ (literal l).spell ++ vs := by
    intro p l us vs h
    obtain ⟨chars, hne, hplain⟩ := p
    cases chars with
    | nil => exact hne rfl
    | cons x xs =>
      obtain rfl : x = l.quote := (List.cons.inj h).1
      have := hplain _ (.head _)
      rw [isPlain_of_isQuote l.isQuote] at this
      cases this
  cases c with
  | plain p =>
    cases d with
    | plain q =>
      obtain ⟨hchars, htail⟩ :=
        plain_append_inj p.plain q.plain (stops_bracket us) (stops_bracket vs) h
      exact ⟨congrArg plain (Plain.ext hchars), (List.cons.inj htail).2⟩
    | literal m => exact absurd h (differ p m _ _)
  | literal l =>
    cases d with
    | plain q => exact absurd h.symm (differ q l _ _)
    | literal m =>
      rw [spell_literal_append, spell_literal_append] at h
      obtain ⟨hquote, hitems⟩ := List.cons.inj h
      rw [← hquote] at hitems
      obtain ⟨hitems, htail⟩ := Item.spellAll_append_inj (quote_ne_backslash l.isQuote) l.fits
        (hquote ▸ m.fits) hitems
      exact ⟨congrArg literal (Literal.ext hquote hitems), (List.cons.inj htail).2⟩

/-- A segment ends where the next one begins. -/
theorem Segment.spell_append_inj {s t : Segment} {rest rest' : List Segment}
    (h : s.spell ++ spellRest rest = t.spell ++ spellRest rest') :
    s = t ∧ spellRest rest = spellRest rest' := by
  have differ : ∀ (p : Plain) (c : Content) (us vs : List Char),
      (name p).spell ++ us ≠ (bracket c).spell ++ vs := by
    intro p c us vs h
    obtain ⟨chars, hne, hplain⟩ := p
    cases chars with
    | nil => exact hne rfl
    | cons x xs =>
      obtain rfl : x = '[' := (List.cons.inj h).1
      exact absurd (hplain _ (.head _)) (by decide)
  cases s with
  | name p =>
    cases t with
    | name q =>
      obtain ⟨hchars, htail⟩ :=
        plain_append_inj p.plain q.plain (stops_spellRest rest) (stops_spellRest rest') h
      exact ⟨congrArg name (Plain.ext hchars), htail⟩
    | bracket d => exact absurd h (differ p d _ _)
  | bracket c =>
    cases t with
    | name q => exact absurd h.symm (differ q c _ _)
    | bracket d =>
      rw [spell_bracket_append, spell_bracket_append] at h
      obtain ⟨rfl, htail⟩ := Content.spell_append_inj (List.cons.inj h).2
      exact ⟨rfl, htail⟩

/-- Segments are known from what they spell. -/
theorem Segment.spellRest_injective :
    ∀ {rest rest' : List Segment}, spellRest rest = spellRest rest' → rest = rest' := by
  intro rest
  induction rest with
  | nil =>
    intro rest' h
    cases rest' with
    | nil => rfl
    | cons t rest' => cases t <;> cases h
  | cons s rest ih =>
    intro rest' h
    cases rest' with
    | nil => cases s <;> cases h
    | cons t rest' =>
      have hspell : s.spell ++ spellRest rest = t.spell ++ spellRest rest' := by
        -- A name comes behind a point, and no bracket begins with one.
        cases s with
        | name p =>
          cases t with
          | name q => exact (List.cons.inj h).2
          | bracket d => exact absurd (List.cons.inj h).1 (by decide)
        | bracket c =>
          cases t with
          | name q => exact absurd (List.cons.inj h).1 (by decide)
          | bracket d => exact h
      obtain ⟨rfl, hrest⟩ := spell_append_inj hspell
      rw [ih hrest]

/-- An expression has at most one derivation. -/
theorem Path.spell_injective {p q : Path} (h : p.spell = q.spell) : p = q := by
  obtain ⟨hfirst, hrest⟩ := Segment.spell_append_inj h
  cases p; cases q
  cases hfirst
  cases Segment.spellRest_injective hrest
  rfl

/-! ## Offsets increase -/

/-- A segment has its atom before its end. -/
theorem Segment.offset_atom_lt (s : Segment) (o : Nat) :
    (s.atom o).offset < o + byteLength s.spell := by
  cases s with
  | name p =>
    have hpos : 0 < p.chars.length := List.length_pos_iff.2 p.nonempty
    have hle := length_le_byteLength p.chars
    show o < o + byteLength p.chars
    omega
  | bracket c =>
    have hle := length_le_byteLength ('[' :: (c.spell ++ [']']))
    rw [List.length_cons, List.length_append, List.length_singleton] at hle
    show o + 1 < o + byteLength ('[' :: (c.spell ++ [']']))
    omega

theorem Segment.le_offset_atom (s : Segment) (o : Nat) : o ≤ (s.atom o).offset := by
  cases s with
  | name p => exact Nat.le_refl o
  | bracket c => exact Nat.le_succ o

theorem Segment.le_offset_of_mem_atoms {a : Atom} :
    ∀ {rest : List Segment} {o : Nat}, a ∈ atoms o rest → o ≤ a.offset := by
  intro rest
  induction rest with
  | nil => nofun
  | cons s rest ih =>
    intro o h
    rcases List.mem_cons.1 h with rfl | h
    · have := s.le_offset_atom (o + byteLength s.separator)
      omega
    · have := ih h
      omega

theorem Segment.atoms_pairwise :
    ∀ (rest : List Segment) (o : Nat), (atoms o rest).Pairwise (·.offset < ·.offset) := by
  intro rest
  induction rest with
  | nil => intro o; exact .nil
  | cons s rest ih =>
    intro o
    refine .cons (fun a h => ?_) (ih _)
    have hlt := s.offset_atom_lt (o + byteLength s.separator)
    have hle := le_offset_of_mem_atoms h
    rw [byteLength_append] at hle
    omega

/-- The atoms of a path are at increasing offsets. -/
theorem Path.offsets_increase (p : Path) : p.atoms.Pairwise (·.offset < ·.offset) := by
  refine .cons (fun a h => ?_) (Segment.atoms_pairwise _ _)
  have hlt := p.first.offset_atom_lt 0
  have hle := Segment.le_offset_of_mem_atoms h
  omega

end ObjectPath.Expression
