import Mathlib.Data.List.Forall2
import ObjectPath.Proofs.Fields
import ObjectPath.Proofs.Resembling

/-!
# Evaluation by the texts of atoms

Of an atom a walk looks at the text only: as the name of a member, as a key, and as the index that
it is or is not.  How the atom is written is told in one place, the fault of an atom that is no index
(`Fault.Respells`).

So the steps of a read, of a resolution from declared types and of a write are those of any other
spelling of the path.  What a write creates and lengthens on its way is the same
(`Evaluator.approach_respelled`), and so is what it stores at the end.  Expressions whose atoms have
the same texts evaluate alike (`Evaluator.evaluatesAlike`).
-/

namespace ObjectPath

/-! ## Answers for other spellings -/

/-- The same fault, but for the way the atom is written that is no index. -/
inductive Fault.Respells : Fault → Fault → Prop
  | same (f : Fault) : Respells f f
  | notAnIndex {a b : Atom} (h : a.text = b.text) :
      Respells (.malformedPath (.notAnIndex a)) (.malformedPath (.notAnIndex b))

/-- The same answer, or a fault for another spelling. -/
inductive Respelled {α : Type} : Except Fault α → Except Fault α → Prop
  | ok (x : α) : Respelled (.ok x) (.ok x)
  | error {f g : Fault} (h : f.Respells g) : Respelled (.error f) (.error g)

namespace Respelled

variable {α β : Type} {r r' : Except Fault α}

theorem refl (r : Except Fault α) : Respelled r r := by
  cases r with
  | ok x => exact .ok x
  | error f => exact .error (.same f)

theorem bind (h : Respelled r r') (next : α → Except Fault β) :
    Respelled (r >>= next) (r' >>= next) := by
  cases h with
  | ok x => exact .refl (next x)
  | error h => exact .error h

end Respelled

/-- The same outcome: the value that is left behind, all that was told on the way, and the result. -/
structure Written.Respells (w w' : Written) : Prop where
  value : w.value = w'.value
  events : w.events = w'.events
  result : Respelled w.result w'.result

namespace Written.Respells

variable {w w' : Written} {next next' : Value → Written} {f g : Fault}

theorem refl (w : Written) : w.Respells w := ⟨rfl, rfl, .refl _⟩

theorem failed (v : Value) (h : f.Respells g) : (Written.failed v f).Respells (.failed v g) :=
  ⟨rfl, rfl, .error h⟩

theorem after (h : w.Respells w') (e : Event) : (w.after e).Respells (w'.after e) :=
  ⟨h.value, congrArg (e :: ·) h.events, h.result⟩

theorem within (h : w.Respells w') (fill : Value → Value) :
    (w.within fill).Respells (w'.within fill) :=
  ⟨congrArg fill h.value, h.events, h.result⟩

theorem andThen (w : Written) (hnext : ∀ v, (next v).Respells (next' v)) :
    (w.andThen next).Respells (w.andThen next') := by
  unfold Written.andThen
  split
  · have h := hnext w.value
    exact ⟨h.value, congrArg (w.events ++ ·) h.events, h.result⟩
  · exact ⟨rfl, rfl, .error (.same _)⟩

end Written.Respells

/-- The same answer of two expressions, or errors of either for the same cause. -/
inductive SameAnswer {α : Type} (first second : String) :
    Except EvalError α → Except EvalError α → Prop
  | ok (x : α) : SameAnswer first second (.ok x) (.ok x)
  | error {f g : Fault} (h : f.Respells g) :
      SameAnswer first second (.error ⟨first, f⟩) (.error ⟨second, g⟩)

namespace SameAnswer

variable {α β : Type} {first second : String} {r r' : Except Fault α} {x y : Except EvalError α}
  {next next' : α → Except EvalError β}

theorem blame (h : Respelled r r') :
    SameAnswer first second (Evaluator.blame first r) (Evaluator.blame second r') := by
  cases h with
  | ok x => exact .ok x
  | error h => exact .error h

theorem bind (h : SameAnswer first second x y)
    (hnext : ∀ z, SameAnswer first second (next z) (next' z)) :
    SameAnswer first second (x >>= next) (y >>= next') := by
  cases h with
  | ok z => exact hnext z
  | error h => exact .error h

theorem map (h : SameAnswer first second x y) (f : α → β) :
    SameAnswer first second (f <$> x) (f <$> y) := by
  cases h with
  | ok z => exact .ok (f z)
  | error h => exact .error h

end SameAnswer

/-! ## Steps -/

/-- What is created for a missing slot depends on the next atom as an index only. -/
theorem Step.create_respelled (st : Step) (s : Schema) {a b : Atom} (h : a.text = b.text) :
    st.create s a = st.create s b := by
  unfold create
  rw [Atom.index?_congr h]

namespace Evaluator

variable {ev : Evaluator} {site : Site} {a b : Atom} {as bs : List Atom} {st : Step}
  {first second : String}

theorem resolve_respelled (ev : Evaluator) (site : Site) (h : a.text = b.text) :
    Respelled (ev.resolve site a) (ev.resolve site b) := by
  cases site with
  | index m t =>
    simp only [resolve, h]
    exact .refl _
  | value t o =>
    cases t with
    | leaf | option =>
      simp only [resolve, h]
      exact .refl _
    | map k key value =>
      simp only [resolve, h]
      exact .refl _
    | record path =>
      simp only [resolve, h]
      exact .refl _
    | seq k item =>
      simp only [resolve, Atom.index?_congr h]
      cases b.index? with
      | some i => exact .refl _
      | none => exact .error (.notAnIndex h)

/-- Both spellings of an atom are no path here, or lead to the same site or step. -/
theorem resolve_cases (ev : Evaluator) (site : Site) (h : a.text = b.text) :
    (∃ f g, ev.resolve site a = .error f ∧ ev.resolve site b = .error g ∧ f.Respells g) ∨
      (∃ next, ev.resolve site a = .ok (.site next) ∧ ev.resolve site b = .ok (.site next)) ∨
      ∃ st, ev.resolve site a = .ok (.step st) ∧ ev.resolve site b = .ok (.step st) := by
  have hrespelled := ev.resolve_respelled site h
  revert hrespelled
  generalize ev.resolve site a = r, ev.resolve site b = r'
  rintro (⟨x⟩ | ⟨h⟩)
  · cases x with
    | site next => exact .inr (.inl ⟨next, rfl, rfl⟩)
    | step st => exact .inr (.inr ⟨st, rfl, rfl⟩)
  · exact .inl ⟨_, _, rfl, rfl, h⟩

/-- What is created behind a step, and what is made longer there, is the same for the other spelling
of the next atom. -/
theorem approach_respelled (ev : Evaluator) (st : Step) (h : a.text = b.text) (v : Value) :
    ev.approach st a v = ev.approach st b v := by
  have hfill : ev.fillIn st a v = ev.fillIn st b v := by
    simp only [fillIn, st.create_respelled ev.schema h]
  have hlengthen : ev.lengthen st a = ev.lengthen st b := by
    funext w
    simp only [lengthen, Atom.index?_congr h]
  rw [approach, hfill, hlengthen, approach]

/-! ## Walks -/

/-- Atoms that have the same texts, one by one. -/
theorem forall₂_of_texts (h : as.map (·.text) = bs.map (·.text)) :
    List.Forall₂ (fun a b => a.text = b.text) as bs :=
  List.forall₂_map_right_iff.1 (List.forall₂_map_left_iff.1 (List.forall₂_eq_eq_eq ▸ h))

section Walks

variable (h : List.Forall₂ (fun a b => a.text = b.text) as bs)

include h

/-- A read takes the same steps along atoms of the same texts, by induction on the atoms. -/
theorem read_respelled (ev : Evaluator) (v : Value) (site : Site) :
    Respelled (ev.read v site as) (ev.read v site bs) := by
  induction h generalizing v site with
  | nil => exact .refl _
  | @cons a b as bs hab hrest ih =>
    rcases ev.resolve_cases site hab with ⟨f, g, hf, hg, hfg⟩ | ⟨next, hn, hn'⟩ | ⟨st, hst, hst'⟩
    · rw [read_error hf, read_error hg]
      exact .error hfg
    · rw [read_site hn, read_site hn']
      exact ih v next
    · cases hread : st.read v with
      | error f =>
        rw [read_refused hst hread, read_refused hst' hread]
        exact .refl _
      | ok c =>
        cases c with
        | none =>
          rw [read_null hst hread, read_null hst' hread]
          exact .refl _
        | some w =>
          cases hrest with
          | nil =>
            rw [read_last hst hread, read_last hst' hread]
            exact .refl _
          | cons hnext _ =>
            rw [read_step hst hread, read_step hst' hread]
            exact ih w _

/-- The declared types resolve atoms of the same texts alike, by induction on the atoms. -/
theorem terminal_respelled (ev : Evaluator) (site : Site) :
    Respelled (ev.terminal site as) (ev.terminal site bs) := by
  induction h generalizing site with
  | nil => exact .refl _
  | @cons a b as bs hab hrest ih =>
    rcases ev.resolve_cases site hab with ⟨f, g, hf, hg, hfg⟩ | ⟨next, hn, hn'⟩ | ⟨st, hst, hst'⟩
    · rw [terminal_error hf, terminal_error hg]
      exact .error hfg
    · rw [terminal_site hn, terminal_site hn']
      exact ih next
    · cases hrest with
      | nil =>
        rw [terminal_last hst, terminal_last hst']
        exact .refl _
      | cons hnext _ =>
        rw [terminal_step hst, terminal_step hst']
        exact ih _

/-- A write takes the same steps along atoms of the same texts, and does the same at each of them, by
induction on the atoms. -/
theorem write_respelled (ev : Evaluator) (payload : Payload) (v : Value) (site : Site) :
    (ev.write payload v site as).Respells (ev.write payload v site bs) := by
  induction h generalizing v site with
  | nil => exact .refl _
  | @cons a b as bs hab hrest ih =>
    rcases ev.resolve_cases site hab with ⟨f, g, hf, hg, hfg⟩ | ⟨next, hn, hn'⟩ | ⟨st, hst, hst'⟩
    · rw [write_error hf, write_error hg]
      exact .failed v hfg
    · rw [write_site hn, write_site hn']
      exact ih v next
    · cases hrest with
      | nil =>
        rw [write_last hst, write_last hst']
        exact .refl _
      | cons hnext _ =>
        rw [write_step hst, write_step hst', ev.approach_respelled st hnext v]
        refine .andThen _ fun w => ?_
        unfold descend
        split
        · exact .refl _
        · exact .refl _
        · next p _ => exact (ih p.value _).within p.fill

end Walks

/-! ## Expressions -/

/-- Two expressions give the same answer to every question about a root, and every write to either
leaves the same root with the same result.  What fails for one of them fails for the other one with
the same fault, which may write the atom that is no index as the expression does. -/
structure EvaluatesAlike (ev : Evaluator) (first second : String) (root : Value) : Prop where
  get : SameAnswer first second (ev.get first root) (ev.get second root)
  getValue : ∀ t, SameAnswer first second (ev.getValue first t root) (ev.getValue second t root)
  getString : SameAnswer first second (ev.getString first root) (ev.getString second root)
  getTag : ∀ k, SameAnswer first second (ev.getTag first k root) (ev.getTag second k root)
  set : ∀ payload, (ev.set first payload root).Respells (ev.set second payload root)

section Expressions

variable (hfirst : parse first = .ok as) (hsecond : parse second = .ok bs)
  (htexts : as.map (·.text) = bs.map (·.text))

include hfirst hsecond htexts

theorem reading_respelled (ev : Evaluator) (root : Value) :
    SameAnswer first second (ev.reading first root) (ev.reading second root) := by
  simp only [reading, hfirst, hsecond]
  exact .blame (read_respelled (forall₂_of_texts htexts) ev root _)

/-- Expressions evaluate alike if their atoms have the same texts, however these are written. -/
theorem evaluatesAlike (ev : Evaluator) (root : Value) : ev.EvaluatesAlike first second root where
  get := by
    refine .bind (reading_respelled hfirst hsecond htexts ev root) fun r => ?_
    cases r <;> exact .ok _
  getValue t := by
    refine .bind (reading_respelled hfirst hsecond htexts ev root) fun r => ?_
    cases r with
    | null l => exact .ok _
    | found v s =>
      dsimp only
      split
      · exact .ok _
      · exact .error (.same _)
  getString := by
    refine .bind (reading_respelled hfirst hsecond htexts ev root) fun r => ?_
    cases r with
    | null l => exact .ok _
    | found v s => exact (SameAnswer.blame (.refl _)).map some
  getTag k := by
    simp only [Evaluator.getTag, hfirst, hsecond]
    have hterminal := terminal_respelled (forall₂_of_texts htexts) ev (start root)
    exact .blame (hterminal.bind fun s => .ok (s.tag? k))
  set payload := by
    simp only [Evaluator.set, hfirst, hsecond]
    exact (write_respelled (forall₂_of_texts htexts) ev payload root _).after _

end Expressions

/-- For an index in quotes the lines of a crate are made as long as for a plain one. -/
theorem evaluatesAlike_stocked :
    parse "lines[2].qty" =
        .ok [⟨"lines", .name, 0⟩, ⟨"2", .bracketed, 6⟩, ⟨"qty", .name, 9⟩] ∧
      parse "['lines'][\"2\"]['q\\ty']" =
        .ok [⟨"lines", .quoted, 1⟩, ⟨"2", .quoted, 10⟩, ⟨"qty", .quoted, 15⟩] ∧
      Crate.evaluator.EvaluatesAlike "lines[2].qty" "['lines'][\"2\"]['q\\ty']" Crate.stocked ∧
      (Crate.evaluator.set "['lines'][\"2\"]['q\\ty']" (.value (some (.int .u32 7)))
        Crate.stocked).result = .ok () := by
  have hfirst : parse "lines[2].qty" =
      .ok [⟨"lines", .name, 0⟩, ⟨"2", .bracketed, 6⟩, ⟨"qty", .name, 9⟩] := by rfl
  have hsecond : parse "['lines'][\"2\"]['q\\ty']" =
      .ok [⟨"lines", .quoted, 1⟩, ⟨"2", .quoted, 10⟩, ⟨"qty", .quoted, 15⟩] := by rfl
  exact ⟨hfirst, hsecond, evaluatesAlike hfirst hsecond rfl Crate.evaluator Crate.stocked, by rfl⟩

end Evaluator

end ObjectPath
