import ObjectPath.Proofs.Grammar
import ObjectPath.Evaluator

/-!
# Scanning accepts the grammar

Each state of the scan stands for a part of a derivation that is still open, and admits what can
complete it (`State.Admits`).  A step on a character takes the character off: what the state admits
behind it is what the next state admits (`State.admits_cons`).  So the scan of an expression gives
the atoms of its derivation, and fails where there is none (`atoms_derivation`).
-/

namespace ObjectPath.Expression

variable {o b first : Nat} {c q : Char} {cs text : List Char} {as : List Atom} {form : AtomForm}

/-! ## Open parts of a derivation -/

/-- Segments follow one that ends at `o`. -/
def Continues (o : Nat) (cs : List Char) (as : List Atom) : Prop :=
  ∃ rest, cs = Segment.spellRest rest ∧ as = Segment.atoms o rest

/-- A name that begins at `first` ends at `o`. -/
def Ends (first : Nat) (as : List Atom) (text : List Char) (o : Nat) (cs : List Char) : Prop :=
  ∃ as', as = ⟨String.ofList text, .name, first⟩ :: as' ∧ Continues o cs as'

/-- The bracket at `b` is closed at `o`. -/
def Closes (b : Nat) (form : AtomForm) (as : List Atom) (text : List Char) (o : Nat)
    (cs : List Char) : Prop :=
  ∃ cs' as', cs = ']' :: cs' ∧ as = ⟨String.ofList text, form, b + 1⟩ :: as' ∧
    Continues (o + 1) cs' as'

/-- Plain characters follow a text that ends at `o`, and behind them something is done with the
whole text. -/
def Runs (done : List Char → Nat → List Char → Prop) (text : List Char) (o : Nat)
    (cs : List Char) : Prop :=
  ∃ more cs', (∀ c ∈ more, isPlain c = true) ∧ cs = more ++ cs' ∧
    done (text ++ more) (o + byteLength more) cs'

/-- A name begins at `o`. -/
def AtName (o : Nat) (cs : List Char) (as : List Atom) : Prop :=
  ∃ (p : Plain) (cs' : List Char), cs = p.chars ++ cs' ∧
    Ends o as p.chars (o + byteLength p.chars) cs'

/-- The content of the bracket at `b` begins at `o`. -/
def InBracket (b o : Nat) (cs : List Char) (as : List Atom) : Prop :=
  ∃ (k : Content) (cs' : List Char), cs = k.spell ++ cs' ∧
    Closes b k.form as k.text (o + byteLength k.spell) cs'

/-- The literal in the bracket at `b` goes on. -/
def InLiteral (b : Nat) (q : Char) (text : List Char) (o : Nat) (cs : List Char)
    (as : List Atom) : Prop :=
  q ≠ '\\' ∧ ∃ items cs', (∀ x ∈ items, x.Fits q) ∧ cs = Item.spellAll items ++ q :: cs' ∧
    Closes b .quoted as (text ++ items.map (·.char))
      (o + byteLength (Item.spellAll items) + q.utf8Size) cs'

/-- The characters from `o` on complete what the scan stands in, and give these atoms. -/
def State.Admits (o : Nat) (cs : List Char) (as : List Atom) : State → Prop
  | .start => AtName o cs as ∨ ∃ cs', cs = '[' :: cs' ∧ InBracket o (o + 1) cs' as
  | .segment => AtName o cs as
  | .name first text => Runs (Ends first as) text.reverse o cs
  | .opened b => InBracket b o cs as
  | .plain b text => Runs (Closes b .bracketed as) text.reverse o cs
  | .quoted b q _ text => InLiteral b q text.reverse o cs as
  | .escaped b q _ text _ =>
    ∃ c cs', cs = c :: cs' ∧ InLiteral b q (text.reverse ++ [c]) (o + c.utf8Size) cs' as
  | .filled b text => Closes b .quoted as text.reverse o cs
  | .closed => Continues o cs as

/-! ## What they admit behind a character -/

theorem continues_nil : Continues o [] as ↔ as = [] := by
  constructor
  · rintro ⟨rest, h, rfl⟩
    cases rest with
    | nil => rfl
    | cons s rest => cases s <;> cases h
  · rintro rfl
    exact ⟨[], rfl, rfl⟩

theorem continues_cons : Continues o (c :: cs) as ↔
    (c = '.' ∧ AtName (o + 1) cs as) ∨ (c = '[' ∧ InBracket o (o + 1) cs as) := by
  constructor
  · rintro ⟨rest, h, rfl⟩
    cases rest with
    | nil => cases h
    | cons s rest =>
      cases s with
      | name p =>
        rw [Segment.spellRest_name] at h
        obtain ⟨rfl, rfl⟩ := List.cons.inj h
        exact .inl ⟨rfl, p, _, rfl, _, Segment.atoms_name o p rest, rest, rfl, rfl⟩
      | bracket k =>
        rw [Segment.spellRest_bracket] at h
        obtain ⟨rfl, rfl⟩ := List.cons.inj h
        exact .inr ⟨rfl, k, _, rfl, _, _, rfl, Segment.atoms_bracket o k rest, rest, rfl, rfl⟩
  · rintro (⟨rfl, p, cs', rfl, as', rfl, rest, rfl, rfl⟩ |
      ⟨rfl, k, cs', rfl, cs'', as', rfl, rfl, rest, rfl, rfl⟩)
    · exact ⟨.name p :: rest, Segment.spellRest_name p rest, (Segment.atoms_name o p rest).symm⟩
    · exact ⟨.bracket k :: rest, (Segment.spellRest_bracket k rest).symm,
        (Segment.atoms_bracket o k rest).symm⟩

theorem runs_nil {done : List Char → Nat → List Char → Prop} :
    Runs done text o [] ↔ done text o [] := by
  constructor
  · rintro ⟨more, cs', -, h, hdone⟩
    obtain ⟨rfl, rfl⟩ := List.append_eq_nil_iff.1 h.symm
    rwa [List.append_nil] at hdone
  · intro h
    exact ⟨[], [], nofun, rfl, by rwa [List.append_nil]⟩

theorem runs_cons {done : List Char → Nat → List Char → Prop} : Runs done text o (c :: cs) ↔
    (isPlain c = true ∧ Runs done (text ++ [c]) (o + c.utf8Size) cs) ∨ done text o (c :: cs) := by
  constructor
  · rintro ⟨more, cs', hplain, h, hdone⟩
    cases more with
    | nil =>
      rw [List.nil_append] at h
      rw [List.append_nil] at hdone
      exact .inr (h ▸ hdone)
    | cons d more =>
      obtain ⟨rfl, rfl⟩ := List.cons.inj h
      rw [byteLength_cons, ← Nat.add_assoc] at hdone
      exact .inl ⟨hplain c (.head _), more, cs', fun d hd => hplain d (.tail _ hd), rfl,
        by rwa [List.append_assoc, List.singleton_append]⟩
  · rintro (⟨hc, more, cs', hplain, rfl, hdone⟩ | hdone)
    · rw [List.append_assoc, List.singleton_append] at hdone
      refine ⟨c :: more, cs', ?_, rfl, by rwa [byteLength_cons, ← Nat.add_assoc]⟩
      rintro d (_ | ⟨_, hd⟩)
      · exact hc
      · exact hplain d hd
    · exact ⟨[], c :: cs, nofun, rfl, by rwa [List.append_nil]⟩

theorem closes_nil : ¬ Closes b form as text o [] := by
  rintro ⟨cs', as', h, -⟩
  cases h

theorem closes_cons : Closes b form as text o (c :: cs) ↔
    c = ']' ∧ ∃ as', as = ⟨String.ofList text, form, b + 1⟩ :: as' ∧ Continues (o + 1) cs as' := by
  constructor
  · rintro ⟨cs', as', h, rfl, hrest⟩
    obtain ⟨rfl, rfl⟩ := List.cons.inj h
    exact ⟨rfl, as', rfl, hrest⟩
  · rintro ⟨rfl, as', rfl, hrest⟩
    exact ⟨cs, as', rfl, rfl, hrest⟩

theorem runs_plain {done : List Char → Nat → List Char → Prop} :
    (∃ (p : Plain) (cs' : List Char), c :: cs = p.chars ++ cs' ∧
      done p.chars (o + byteLength p.chars) cs') ↔
        isPlain c = true ∧ Runs done [c] (o + c.utf8Size) cs := by
  constructor
  · rintro ⟨⟨chars, hne, hplain⟩, cs', h, hdone⟩
    cases chars with
    | nil => exact absurd rfl hne
    | cons d chars =>
      obtain ⟨rfl, rfl⟩ := List.cons.inj h
      rw [byteLength_cons, ← Nat.add_assoc] at hdone
      exact ⟨hplain c (.head _), chars, cs', fun d hd => hplain d (.tail _ hd), rfl, hdone⟩
  · rintro ⟨hc, more, cs', hplain, rfl, hdone⟩
    refine ⟨⟨c :: more, List.cons_ne_nil c more, ?_⟩, cs', rfl, ?_⟩
    · rintro d (_ | ⟨_, hd⟩)
      · exact hc
      · exact hplain d hd
    · rwa [byteLength_cons, ← Nat.add_assoc]

theorem atName_nil : ¬ AtName o [] as := by
  rintro ⟨p, cs', h, -⟩
  exact p.nonempty (List.append_eq_nil_iff.1 h.symm).1

theorem ends_cons : Ends first as text o (c :: cs) ↔
    (c = '.' ∧ ∃ as', as = ⟨String.ofList text, .name, first⟩ :: as' ∧ AtName (o + 1) cs as') ∨
      (c = '[' ∧ ∃ as', as = ⟨String.ofList text, .name, first⟩ :: as' ∧
        InBracket o (o + 1) cs as') := by
  constructor
  · rintro ⟨as', rfl, hrest⟩
    rcases continues_cons.1 hrest with ⟨hc, hname⟩ | ⟨hc, hbracket⟩
    · exact .inl ⟨hc, as', rfl, hname⟩
    · exact .inr ⟨hc, as', rfl, hbracket⟩
  · rintro (⟨hc, as', rfl, hname⟩ | ⟨hc, as', rfl, hbracket⟩)
    · exact ⟨as', rfl, continues_cons.2 (.inl ⟨hc, hname⟩)⟩
    · exact ⟨as', rfl, continues_cons.2 (.inr ⟨hc, hbracket⟩)⟩

theorem atName_cons : AtName o (c :: cs) as ↔
    isPlain c = true ∧ Runs (Ends o as) [c] (o + c.utf8Size) cs := runs_plain

theorem inLiteral_iff : InLiteral b q text o cs as ↔ q ≠ '\\' ∧
    ((∃ cs', cs = q :: cs' ∧ Closes b .quoted as text (o + q.utf8Size) cs') ∨
      ∃ (x : Item) (cs' : List Char), x.Fits q ∧ cs = x.spell ++ cs' ∧
        InLiteral b q (text ++ [x.char]) (o + byteLength x.spell) cs' as) := by
  refine and_congr_right fun hq => ⟨?_, ?_⟩
  · rintro ⟨items, cs', hfits, rfl, hcloses⟩
    cases items with
    | nil => exact .inl ⟨cs', rfl, by rwa [List.map_nil, List.append_nil] at hcloses⟩
    | cons x items =>
      rw [Item.spellAll_cons, byteLength_append, List.map_cons, ← Nat.add_assoc,
        List.append_cons] at hcloses
      exact .inr ⟨x, _, hfits x (.head _), by rw [Item.spellAll_cons, List.append_assoc], hq, items,
        cs', fun y hy => hfits y (.tail _ hy), rfl, hcloses⟩
  · rintro (⟨cs', rfl, hcloses⟩ | ⟨x, cs', hx, rfl, -, items, cs'', hfits, rfl, hcloses⟩)
    · exact ⟨[], cs', nofun, rfl, by rwa [List.map_nil, List.append_nil]⟩
    · refine ⟨x :: items, cs'', ?_, by rw [Item.spellAll_cons, List.append_assoc], ?_⟩
      · rintro y (_ | ⟨_, hy⟩)
        · exact hx
        · exact hfits y hy
      · rwa [Item.spellAll_cons, byteLength_append, List.map_cons, ← Nat.add_assoc,
          List.append_cons]

theorem inLiteral_nil : ¬ InLiteral b q text o [] as := by
  rw [inLiteral_iff]
  rintro ⟨-, ⟨cs', h, -⟩ | ⟨x, cs', -, h, -⟩⟩
  · cases h
  · cases x <;> cases h

theorem inLiteral_cons : InLiteral b q text o (c :: cs) as ↔
    (c = '\\' ∧ ∃ d cs', cs = d :: cs' ∧
      InLiteral b q (text ++ [d]) (o + c.utf8Size + d.utf8Size) cs' as) ∨
    ((c ≠ '\\' ∧ c = q) ∧ Closes b .quoted as text (o + c.utf8Size) cs) ∨
    ((c ≠ '\\' ∧ c ≠ q) ∧ InLiteral b q (text ++ [c]) (o + c.utf8Size) cs as) := by
  rw [inLiteral_iff]
  constructor
  · rintro ⟨hq, ⟨cs', h, hcloses⟩ | ⟨x, cs', hx, h, hrest⟩⟩
    · obtain ⟨rfl, rfl⟩ := List.cons.inj h
      exact .inr (.inl ⟨⟨hq, rfl⟩, hcloses⟩)
    · cases x with
      | bare d =>
        obtain ⟨rfl, rfl⟩ := List.cons.inj h
        rw [Item.byteLength_bare] at hrest
        exact .inr (.inr ⟨hx, hrest⟩)
      | escaped d =>
        obtain ⟨rfl, rfl⟩ := List.cons.inj h
        rw [Item.byteLength_escaped, ← Nat.add_assoc] at hrest
        exact .inl ⟨rfl, d, cs', rfl, hrest⟩
  · rintro (⟨rfl, d, cs', rfl, hrest⟩ | ⟨⟨hc, rfl⟩, hcloses⟩ | ⟨hc, hrest⟩)
    · refine ⟨hrest.1, .inr ⟨.escaped d, cs', trivial, rfl, ?_⟩⟩
      rwa [Item.byteLength_escaped, ← Nat.add_assoc]
    · exact ⟨hc, .inl ⟨cs, rfl, hcloses⟩⟩
    · refine ⟨hrest.1, .inr ⟨.bare c, cs, hc, rfl, ?_⟩⟩
      rwa [Item.byteLength_bare]

theorem inBracket_nil : ¬ InBracket b o [] as := by
  rintro ⟨k, cs', h, cs'', -, rfl, -, -⟩
  exact absurd h.symm (List.append_ne_nil_of_right_ne_nil _ (List.cons_ne_nil _ _))

theorem inBracket_cons : InBracket b o (c :: cs) as ↔
    (isPlain c = true ∧ Runs (Closes b .bracketed as) [c] (o + c.utf8Size) cs) ∨
      (isQuote c = true ∧ InLiteral b c [] (o + c.utf8Size) cs as) := by
  constructor
  · rintro ⟨k, cs', h, hcloses⟩
    cases k with
    | plain p => exact .inl (runs_plain.1 ⟨p, cs', h, hcloses⟩)
    | literal l =>
      rw [Content.spell_literal_append] at h
      obtain ⟨rfl, rfl⟩ := List.cons.inj h
      refine .inr ⟨l.isQuote, quote_ne_backslash l.isQuote, l.items, cs', l.fits, rfl, ?_⟩
      rwa [Content.byteLength_literal, ← Nat.add_assoc, ← Nat.add_assoc] at hcloses
  · rintro (h | ⟨hc, hq, items, cs', hfits, rfl, hcloses⟩)
    · obtain ⟨p, cs', h, hcloses⟩ := runs_plain.2 h
      exact ⟨.plain p, cs', h, hcloses⟩
    · let l : Literal := ⟨c, hc, items, hfits⟩
      refine ⟨.literal l, cs', (Content.spell_literal_append l cs').symm, ?_⟩
      rwa [Content.byteLength_literal, ← Nat.add_assoc, ← Nat.add_assoc]

/-! ## Steps -/

section Steps

variable {r : State × Option Atom}

theorem step_start : step o c .start = .ok r ↔
    (isPlain c = true ∧ r = (.name o [c], none)) ∨ (c = '[' ∧ r = (.opened o, none)) := by
  simp only [step]
  grind [isPlain]

theorem step_segment : step o c .segment = .ok r ↔
    isPlain c = true ∧ r = (.name o [c], none) := by
  simp only [step]
  grind [isPlain]

theorem step_name : step o c (.name first text) = .ok r ↔
    (isPlain c = true ∧ r = (.name first (c :: text), none)) ∨
      (c = '.' ∧ r = (.segment, some (atom text .name first))) ∨
      (c = '[' ∧ r = (.opened o, some (atom text .name first))) := by
  simp only [step]
  grind [isPlain]

theorem step_opened : step o c (.opened b) = .ok r ↔
    (isPlain c = true ∧ r = (.plain b [c], none)) ∨
      (isQuote c = true ∧ r = (.quoted b c o [], none)) := by
  simp only [step]
  grind [isPlain, isQuote]

theorem step_plain : step o c (.plain b text) = .ok r ↔
    (isPlain c = true ∧ r = (.plain b (c :: text), none)) ∨
      (c = ']' ∧ r = (.closed, some (atom text .bracketed (b + 1)))) := by
  simp only [step]
  grind [isPlain]

theorem step_quoted {offset : Nat} : step o c (.quoted b q offset text) = .ok r ↔
    (c = '\\' ∧ r = (.escaped b q offset text o, none)) ∨
      ((c ≠ '\\' ∧ c = q) ∧ r = (.filled b text, none)) ∨
      ((c ≠ '\\' ∧ c ≠ q) ∧ r = (.quoted b q offset (c :: text), none)) := by
  simp only [step]
  grind

theorem step_escaped {offset slash : Nat} : step o c (.escaped b q offset text slash) = .ok r ↔
    True ∧ r = (.quoted b q offset (c :: text), none) := by
  simp [step, eq_comm]

theorem step_filled : step o c (.filled b text) = .ok r ↔
    c = ']' ∧ r = (.closed, some (atom text .quoted (b + 1))) := by
  simp only [step]
  grind

theorem step_closed : step o c .closed = .ok r ↔
    (c = '.' ∧ r = (.segment, none)) ∨ (c = '[' ∧ r = (.opened o, none)) := by
  simp only [step]
  grind

end Steps

/-- A state has a step on a character, and the next state admits what follows. -/
def State.Goes (s : State) (o : Nat) (c : Char) (cs : List Char) (as : List Atom) : Prop :=
  ∃ s' done as', step o c s = .ok (s', done) ∧ as = done.toList ++ as' ∧
    State.Admits (o + c.utf8Size) cs as' s'

theorem State.goes_none {p : Prop} {t : State} :
    (∃ s' done as', (p ∧ (s', done) = (t, none)) ∧ as = Option.toList done ++ as' ∧
      Admits o cs as' s') ↔ p ∧ Admits o cs as t := by
  simp [and_assoc]

theorem State.goes_some {p : Prop} {t : State} {a : Atom} :
    (∃ s' done as', (p ∧ (s', done) = (t, some a)) ∧ as = Option.toList done ++ as' ∧
      Admits o cs as' s') ↔ p ∧ ∃ as', as = a :: as' ∧ Admits o cs as' t := by
  simp [and_assoc]

/-- What a state admits behind a character is what the next state admits. -/
theorem State.admits_cons {s : State} : State.Admits o (c :: cs) as s ↔ s.Goes o c cs as := by
  cases s with
  | start =>
    simp only [Goes, step_start, or_and_right, exists_or, goes_none]
    refine or_congr atName_cons ⟨?_, ?_⟩
    · rintro ⟨cs', h, hbracket⟩
      cases h
      exact ⟨rfl, hbracket⟩
    · rintro ⟨rfl, hbracket⟩
      exact ⟨cs, rfl, hbracket⟩
  | segment =>
    simp only [Goes, step_segment, goes_none]
    exact atName_cons
  | name first text =>
    simp only [Goes, step_name, or_and_right, exists_or, goes_none, goes_some]
    refine runs_cons.trans (or_congr ?_ (ends_cons.trans (or_congr ?_ ?_)))
    · rw [← List.reverse_cons]
      exact Iff.rfl
    · refine and_congr_right ?_
      rintro rfl
      exact Iff.rfl
    · refine and_congr_right ?_
      rintro rfl
      exact Iff.rfl
  | opened b =>
    simp only [Goes, step_opened, or_and_right, exists_or, goes_none]
    exact inBracket_cons
  | plain b text =>
    simp only [Goes, step_plain, or_and_right, exists_or, goes_none, goes_some]
    refine runs_cons.trans (or_congr ?_ (closes_cons.trans (and_congr_right ?_)))
    · rw [← List.reverse_cons]
      exact Iff.rfl
    · rintro rfl
      exact Iff.rfl
  | quoted b q first text =>
    simp only [Goes, step_quoted, or_and_right, exists_or, goes_none]
    refine inLiteral_cons.trans (or_congr_right (or_congr_right ?_))
    rw [← List.reverse_cons]
    exact Iff.rfl
  | escaped b q first text slash =>
    simp only [Goes, step_escaped, goes_none]
    constructor
    · rintro ⟨d, cs', h, hrest⟩
      cases h
      rw [← List.reverse_cons] at hrest
      exact ⟨trivial, hrest⟩
    · rintro ⟨-, hrest⟩
      rw [Admits, List.reverse_cons] at hrest
      exact ⟨c, cs, rfl, hrest⟩
  | filled b text =>
    simp only [Goes, step_filled, goes_some]
    refine closes_cons.trans (and_congr_right ?_)
    rintro rfl
    exact Iff.rfl
  | closed =>
    simp only [Goes, step_closed, or_and_right, exists_or, goes_none]
    refine continues_cons.trans (or_congr (and_congr_right ?_) (and_congr_right ?_))
    · rintro rfl
      exact Iff.rfl
    · rintro rfl
      exact Iff.rfl

theorem State.admits_nil {s : State} : State.Admits o [] as s ↔ finish o s = .ok as := by
  cases s with
  | start =>
    refine ⟨?_, nofun⟩
    rintro (h | ⟨cs', h, -⟩)
    · exact absurd h atName_nil
    · cases h
  | segment => exact ⟨fun h => absurd h atName_nil, nofun⟩
  | name first text =>
    refine runs_nil.trans ⟨?_, ?_⟩
    · rintro ⟨as', rfl, hrest⟩
      rw [continues_nil.1 hrest]
      rfl
    · intro h
      cases h
      exact ⟨[], rfl, continues_nil.2 rfl⟩
  | opened b => exact ⟨fun h => absurd h inBracket_nil, nofun⟩
  | plain b text => exact ⟨fun h => absurd (runs_nil.1 h) closes_nil, nofun⟩
  | quoted b q first text => exact ⟨fun h => absurd h inLiteral_nil, nofun⟩
  | escaped b q first text slash =>
    refine ⟨?_, nofun⟩
    rintro ⟨c, cs', h, -⟩
    cases h
  | filled b text => exact ⟨fun h => absurd h closes_nil, nofun⟩
  | closed =>
    refine continues_nil.trans ⟨?_, ?_⟩
    · rintro rfl
      rfl
    · intro h
      cases h
      rfl

/-! ## The scan -/

theorem scan_cons {s : State} : scan o s (c :: cs) = .ok as ↔
    ∃ s' done as', step o c s = .ok (s', done) ∧ as = done.toList ++ as' ∧
      scan (o + c.utf8Size) s' cs = .ok as' := by
  rw [scan]
  cases hstep : step o c s with
  | error e => simp
  | ok r =>
    obtain ⟨s', done⟩ := r
    cases hscan : scan (o + c.utf8Size) s' cs with
    | error e => simp [hscan]
    | ok as' =>
      simp only [hscan, Except.ok.injEq]
      constructor
      · rintro rfl
        exact ⟨s', done, as', rfl, rfl, hscan⟩
      · rintro ⟨_, _, as'', h, rfl, hscan'⟩
        cases h
        rw [hscan] at hscan'
        cases hscan'
        rfl

/-- A scan gives the atoms that its state admits. -/
theorem scan_eq_ok_iff {s : State} : scan o s cs = .ok as ↔ State.Admits o cs as s := by
  induction cs generalizing o s as with
  | nil => exact State.admits_nil.symm
  | cons c cs ih =>
    rw [scan_cons, State.admits_cons, State.Goes]
    simp only [ih]

/-- At its start a scan admits what a path derives. -/
theorem admits_start : State.Admits 0 cs as .start ↔ ∃ p : Path, p.spell = cs ∧ p.atoms = as := by
  constructor
  · rintro (⟨n, cs', rfl, as', rfl, rest, rfl, rfl⟩ |
      ⟨cs', rfl, k, cs'', rfl, cs''', as', rfl, rfl, rest, rfl, rfl⟩)
    · refine ⟨⟨.name n, rest⟩, rfl, ?_⟩
      rw [Path.atoms, Nat.zero_add]
      rfl
    · refine ⟨⟨.bracket k, rest⟩, Segment.spell_bracket_append k _, ?_⟩
      rw [Path.atoms, Segment.byteLength_bracket, Nat.zero_add]
      rfl
  · rintro ⟨⟨s, rest⟩, rfl, rfl⟩
    cases s with
    | name n =>
      refine .inl ⟨n, _, rfl, _, rfl, rest, rfl, ?_⟩
      rw [Nat.zero_add]
      rfl
    | bracket k =>
      refine .inr ⟨_, Segment.spell_bracket_append k _, k, _, rfl, _, _, rfl, rfl, rest, rfl, ?_⟩
      rw [Segment.byteLength_bracket, Nat.zero_add]

theorem atoms_eq_ok_iff {source : String} :
    atoms source = .ok as ↔ ∃ p : Path, p.spell = source.toList ∧ p.atoms = as :=
  scan_eq_ok_iff.trans admits_start

example : (atoms "a['b\\'ç'].d").toOption =
    some [⟨"a", .name, 0⟩, ⟨"b'ç", .quoted, 2⟩, ⟨"d", .name, 11⟩] := by decide

/-- An expression is accepted if and only if it has a derivation.  There is one then, and the
segments of the derivation are the atoms, at least one and at increasing offsets.  Any other
expression gives a syntax error. -/
theorem atoms_derivation (source : String) :
    ((∃ as, atoms source = .ok as) ↔ ∃ p : Path, p.spell = source.toList) ∧
      (∀ p : Path, p.spell = source.toList →
        (∀ q : Path, q.spell = source.toList → q = p) ∧ atoms source = .ok p.atoms ∧
          p.atoms ≠ [] ∧ p.atoms.Pairwise (·.offset < ·.offset)) ∧
      ((¬ ∃ p : Path, p.spell = source.toList) →
        ∃ e, atoms source = .error e ∧ Evaluator.parse source = .error (.badSyntax e)) := by
  refine ⟨⟨?_, ?_⟩, fun p hp =>
    ⟨fun q hq => Path.spell_injective (hq.trans hp.symm), ?_, ?_, ?_⟩, ?_⟩
  · rintro ⟨as, h⟩
    obtain ⟨p, hp, -⟩ := atoms_eq_ok_iff.1 h
    exact ⟨p, hp⟩
  · rintro ⟨p, hp⟩
    exact ⟨p.atoms, atoms_eq_ok_iff.2 ⟨p, hp, rfl⟩⟩
  · exact atoms_eq_ok_iff.2 ⟨p, hp, rfl⟩
  · exact List.cons_ne_nil _ _
  · exact p.offsets_increase
  · intro hnone
    cases h : atoms source with
    | ok as =>
      obtain ⟨p, hp, -⟩ := atoms_eq_ok_iff.1 h
      exact absurd ⟨p, hp⟩ hnone
    | error e => exact ⟨e, rfl, by rw [Evaluator.parse, h]⟩

end ObjectPath.Expression
