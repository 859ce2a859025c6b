import ObjectPath.Proofs.Resolution
import ObjectPath.Proofs.Spelling

/-!
# Reads compose

A read along `as ++ bs` is a read along `as` and then one along `bs` from what was found
(`Evaluator.read_append`): a null stays null and a fault stays the same, unless the first atoms end
at a member whose index is the next one.

The walk behind `as` is not yet the read of an expression of its own.  It takes its steps from the
member that `as` ended at, and its atoms are at other offsets.  The steps read the same from any
member (`Evaluator.resolve_alike`), and no message tells an offset
(`EvalError.message_eq_of_alike`).
-/

namespace ObjectPath

/-! ## Faults without offsets -/

/-- A path fault without the place of its atom. -/
def PathFault.unplaced : PathFault → PathFault
  | .notAnIndex a => .notAnIndex a.unplaced
  | f => f

/-- A fault without the place of its atom. -/
def Fault.unplaced : Fault → Fault
  | .malformedPath f => .malformedPath f.unplaced
  | f => f

/-- Errors of two expressions, for the same cause. -/
def EvalError.Alike (e e' : EvalError) : Prop := e.fault.unplaced = e'.fault.unplaced

/-- Outcomes of two expressions: the same value, null, or errors for the same cause. -/
inductive SameOutcome : Except EvalError (Option Value) → Except EvalError (Option Value) → Prop
  | ok (c : Option Value) : SameOutcome (.ok c) (.ok c)
  | error {e e' : EvalError} (h : e.Alike e') : SameOutcome (.error e) (.error e')

theorem PathFault.message_unplaced (f : PathFault) : f.unplaced.message = f.message := by
  cases f <;> rfl

theorem Fault.kind_unplaced (f : Fault) : f.unplaced.kind = f.kind := by
  cases f <;> rfl

/-- A missing index is not at an atom. -/
theorem Fault.eq_noIndex_of_unplaced {f : Fault} {m : String}
    (h : f.unplaced = .malformedPath (.noIndex m)) : f = .malformedPath (.noIndex m) := by
  cases f with
  | malformedPath f => cases f <;> first | exact h | cases h
  | _ => cases h

theorem EvalError.message_unplaced (source : String) (f : Fault) :
    EvalError.message ⟨source, f.unplaced⟩ = EvalError.message ⟨source, f⟩ := by
  cases f with
  | malformedPath f => simp only [Fault.unplaced, EvalError.message, f.message_unplaced]
  | _ => rfl

/-- Errors for the same cause are of one kind, and their wording differs in the expression only. -/
theorem EvalError.message_eq_of_alike {e e' : EvalError} (h : e.Alike e') :
    e.fault.kind = e'.fault.kind ∧ e.message = EvalError.message ⟨e.expression, e'.fault⟩ := by
  constructor
  · rw [← Fault.kind_unplaced, h, Fault.kind_unplaced]
  · rw [← EvalError.message_unplaced e.expression e'.fault, ← h, EvalError.message_unplaced]

/-! ## Sites with another origin -/

/-- The same site, but for the member it belongs to. -/
inductive Site.Alike : Site → Site → Prop
  | value (t : Ty) (o o' : Option Member) : Alike (.value t o) (.value t o')
  | index (m : Member) (t : Ty) : Alike (.index m t) (.index m t)

/-- A site is for a value of a type; one for an index is for any value. -/
def Site.For (v : Value) : Site → Prop
  | .value t _ => t = v.typeOf
  | .index _ _ => True

/-- What a reading gives. -/
def Reading.value? : Reading → Option Value
  | .null _ => none
  | .found v _ => some v

namespace Evaluator

variable {ev : Evaluator} {site site' next : Site} {a b : Atom} {as bs rest : List Atom}
  {st : Step} {s : Step} {v w : Value} {f : Fault} {l : String}

/-- An atom at a site and the same atom elsewhere at a site that is alike resolve to the same: a
fault, an index, or steps that read the same. -/
theorem resolve_alike (ev : Evaluator) (hsite : site.Alike site') (ha : a.unplaced = b.unplaced) :
    (∃ f g, ev.resolve site a = .error f ∧ ev.resolve site' b = .error g ∧
      f.unplaced = g.unplaced) ∨
    (∃ m t, ev.resolve site a = .ok (.site (.index m t)) ∧
      ev.resolve site' b = .ok (.site (.index m t))) ∨
    ∃ st st', ev.resolve site a = .ok (.step st) ∧ ev.resolve site' b = .ok (.step st') ∧
      ∀ v, site.For v → st'.read v = st.read v := by
  have htext : b.text = a.text := by injection ha with h; exact h.symm
  have hindex : b.index? = a.index? := by rw [← b.index?_unplaced, ← ha, a.index?_unplaced]
  cases hsite with
  | index m t =>
    simp only [resolve, htext]
    cases ev.converters.parse none a.text t with
    | ok i => exact .inr (.inr ⟨_, _, rfl, rfl, fun _ _ => rfl⟩)
    | error f => exact .inl ⟨f, f, rfl, rfl, rfl⟩
  | value t o o' =>
    cases t with
    | leaf | option =>
      simp only [resolve, htext]
      exact .inl ⟨_, _, rfl, rfl, rfl⟩
    | seq k item =>
      simp only [resolve, hindex]
      cases a.index? with
      | none => exact .inl ⟨_, _, rfl, rfl, by simp only [Fault.unplaced, PathFault.unplaced, ha]⟩
      | some i =>
        refine .inr (.inr ⟨_, _, rfl, rfl, fun v hv => ?_⟩)
        cases v <;> cases hv
        rfl
    | map k key value =>
      simp only [resolve, htext]
      cases ev.converters.parse none a.text key with
      | error f => exact .inl ⟨f, f, rfl, rfl, rfl⟩
      | ok i =>
        refine .inr (.inr ⟨_, _, rfl, rfl, fun v hv => ?_⟩)
        cases v <;> cases hv
        rfl
    | record path =>
      simp only [resolve, htext]
      cases (ev.schema.metadata? (.record path)).bind (·.member? a.text) with
      | none => exact .inl ⟨_, _, rfl, rfl, rfl⟩
      | some m =>
        cases hm : m.index? with
        | some t => exact .inr (.inl ⟨m, t, by simp only [hm], by simp only [hm]⟩)
        | none => exact .inr (.inr ⟨.member m, .member m, by simp only [hm], by simp only [hm],
            fun _ _ => rfl⟩)

/-! ## Outcomes of walks -/

/-- What a read gives, or why it fails, without labels and offsets. -/
def outcome (ev : Evaluator) (v : Value) (site : Site) (as : List Atom) :
    Except Fault (Option Value) :=
  match ev.read v site as with
  | .ok r => .ok r.value?
  | .error f => .error f.unplaced

theorem outcome_of_read {r : Reading} (h : ev.read v site as = .ok r) :
    ev.outcome v site as = .ok r.value? := by
  rw [outcome, h]

theorem outcome_of_error (h : ev.read v site as = .error f) :
    ev.outcome v site as = .error f.unplaced := by
  rw [outcome, h]

theorem read_of_outcome {c : Option Value} (h : ev.outcome v site as = .ok c) :
    ∃ r, ev.read v site as = .ok r ∧ r.value? = c := by
  unfold outcome at h
  split at h
  · next r hr => exact ⟨r, hr, Except.ok.inj h⟩
  · cases h

theorem error_of_outcome (h : ev.outcome v site as = .error f) :
    ∃ g, ev.read v site as = .error g ∧ g.unplaced = f := by
  unfold outcome at h
  split at h
  · cases h
  · next g hg => exact ⟨g, hg, Except.error.inj h⟩

theorem outcome_congr {w : Value} {site' : Site} {bs : List Atom}
    (h : ev.read v site as = ev.read w site' bs) :
    ev.outcome v site as = ev.outcome w site' bs := by
  rw [outcome, h, outcome]

/-- A walk comes to the same from a site that is alike, with its atoms at other offsets. -/
theorem outcome_alike (as : List Atom) : ∀ {bs : List Atom} {v : Value} {site site' : Site},
    as.map Atom.unplaced = bs.map Atom.unplaced → site.Alike site' → site.For v →
      ev.outcome v site as = ev.outcome v site' bs := by
  induction as with
  | nil =>
    intro bs v site site' h hsite _
    cases List.map_eq_nil_iff.1 h.symm
    cases hsite <;> rfl
  | cons a as ih =>
    intro bs v site site' h hsite hv
    cases bs with
    | nil => cases h
    | cons b bs =>
      obtain ⟨hab, hrest⟩ := List.cons.inj h
      rcases ev.resolve_alike hsite hab with ⟨f, g, hf, hg, hfg⟩ | ⟨m, t, hm, hm'⟩ |
        ⟨st, st', hst, hst', hread⟩
      · rw [outcome_of_error (read_error hf), outcome_of_error (read_error hg), hfg]
      · rw [outcome_congr (read_site hm), outcome_congr (read_site hm')]
        exact ih hrest (.index m t) trivial
      · have hread := hread v hv
        cases hr : st.read v with
        | error f =>
          rw [outcome_of_error (read_refused hst hr),
            outcome_of_error (read_refused hst' (hread.trans hr))]
        | ok c =>
          cases c with
          | none =>
            rw [outcome_of_read (read_null hst hr),
              outcome_of_read (read_null hst' (hread.trans hr))]
            rfl
          | some w =>
            cases as with
            | nil =>
              cases List.map_eq_nil_iff.1 hrest.symm
              rw [outcome_of_read (read_last hst hr),
                outcome_of_read (read_last hst' (hread.trans hr))]
              rfl
            | cons a' as =>
              cases bs with
              | nil => cases hrest
              | cons b' bs =>
                rw [outcome_congr (read_step hst hr),
                  outcome_congr (read_step hst' (hread.trans hr))]
                exact ih hrest (.value _ _ _) rfl

/-! ## Walks in sequence -/

/-- Goes on with a read behind what was read. -/
def readOn (ev : Evaluator) (bs : List Atom) : Reading → Except Fault Reading
  | .null l => .ok (.null l)
  | .found w s => ev.read w (.value w.typeOf s.origin) bs

/-- Where the first atoms do not lack an index, a read along all of them is a read along the first
ones and one along the others from what was found. -/
theorem read_append (hbs : bs ≠ []) (as : List Atom) : ∀ {v : Value} {site : Site},
    (as = [] → ∃ m t, site = .index m t) →
      (∀ m, ev.read v site as ≠ .error (.malformedPath (.noIndex m))) →
        ev.read v site (as ++ bs) = ev.read v site as >>= ev.readOn bs := by
  induction as with
  | nil =>
    intro v site hsite hindex
    obtain ⟨m, t, rfl⟩ := hsite rfl
    exact absurd rfl (hindex m.name)
  | cons a as ih =>
    intro v site _ hindex
    rw [List.cons_append]
    cases hres : ev.resolve site a with
    | error f => rw [read_error hres, read_error hres]; rfl
    | ok r =>
      cases r with
      | site next =>
        rw [read_site hres] at hindex ⊢
        rw [read_site hres]
        exact ih (fun _ => eq_index_of_resolve hres) hindex
      | step st =>
        cases hr : st.read v with
        | error f => rw [read_refused hres hr, read_refused hres hr]; rfl
        | ok c =>
          cases c with
          | none => rw [read_null hres hr, read_null hres hr]; rfl
          | some w =>
            cases as with
            | nil =>
              obtain ⟨b, bs, rfl⟩ := List.exists_cons_of_ne_nil hbs
              rw [read_last hres hr, List.nil_append, read_step hres hr]
              rfl
            | cons a' as =>
              rw [read_step hres hr] at hindex ⊢
              rw [List.cons_append, read_step hres hr]
              exact ih (absurd · (List.cons_ne_nil _ _)) hindex

/-! ## Expressions -/

/-- What an expression gives is what its walk gives, or the fault of the walk. -/
theorem get_of_parse {source : String} (h : parse source = .ok as) (v : Value) :
    ev.get source v =
      match ev.read v (start v) as with
      | .ok r => .ok r.value?
      | .error f => .error ⟨source, f⟩ := by
  unfold get reading
  rw [h]
  cases hr : ev.read v (start v) as with
  | error f => simp only [bind, Except.bind, hr, blame]
  | ok r => cases r <;> simp only [bind, Except.bind, pure, Except.pure, hr, blame, Reading.value?]

/-- The value, or null, that an expression gives is the outcome of its walk. -/
theorem get_eq_ok_iff {source : String} (h : parse source = .ok as) {c : Option Value} :
    ev.get source v = .ok c ↔ ev.outcome v (start v) as = .ok c := by
  rw [get_of_parse h, outcome]
  cases ev.read v (start v) as <;> simp

theorem get_eq_error_iff {source : String} (h : parse source = .ok as) {e : EvalError} :
    ev.get source v = .error e ↔ ∃ f, e = ⟨source, f⟩ ∧ ev.read v (start v) as = .error f := by
  rw [get_of_parse h]
  cases ev.read v (start v) as <;> simp [eq_comm]

/-- Expressions give the same where their walks do. -/
theorem sameOutcome_of_outcome {first second : String} (hfirst : parse first = .ok as)
    (hsecond : parse second = .ok bs)
    (h : ev.outcome v (start v) as = ev.outcome w (start w) bs) :
    SameOutcome (ev.get first v) (ev.get second w) := by
  cases hw : ev.outcome w (start w) bs with
  | ok c =>
    rw [(get_eq_ok_iff hfirst).2 (h.trans hw), (get_eq_ok_iff hsecond).2 hw]
    exact .ok c
  | error f =>
    obtain ⟨g, hg, rfl⟩ := error_of_outcome hw
    obtain ⟨g', hg', heq⟩ := error_of_outcome (h.trans hw)
    rw [(get_eq_error_iff hfirst).2 ⟨g', rfl, hg'⟩, (get_eq_error_iff hsecond).2 ⟨g, rfl, hg⟩]
    exact .error heq

/-- How the read of an expression follows from that of its first part: from there on it is the read
of the second part from what the first one leads to. -/
structure Composes (ev : Evaluator) (source first second : String) (root : Value) : Prop where
  found : ∀ v, ev.get first root = .ok (some v) →
    SameOutcome (ev.get source root) (ev.get second v)
  null : ev.get first root = .ok none → ev.get source root = .ok none
  failed : ∀ e, ev.get first root = .error e →
    (∀ m, e.fault ≠ .malformedPath (.noIndex m)) →
      ∃ e', ev.get source root = .error e' ∧ e'.expression = source ∧ e'.Alike e

theorem composes (hbs : bs ≠ []) (has : as ≠ []) {source first second : String}
    (hsource : parse source = .ok (as ++ bs)) (hfirst : Spells first as)
    (hsecond : Spells second bs) (root : Value) : ev.Composes source first second root := by
  obtain ⟨as', hfirst, hunplaced⟩ := hfirst
  obtain ⟨bs', hsecond, hunplaced'⟩ := hsecond
  -- The walk of the first part, with its atoms where the whole expression has them.
  have hpart : ev.outcome root (start root) as = ev.outcome root (start root) as' :=
    outcome_alike as hunplaced.symm (.value _ _ _) rfl
  have happend (hindex : ∀ m, ev.read root (start root) as ≠ .error (.malformedPath (.noIndex m))) :
      ev.read root (start root) (as ++ bs) = ev.read root (start root) as >>= ev.readOn bs :=
    read_append hbs as (absurd · has) hindex
  refine ⟨fun v hv => ?_, fun hnull => ?_, fun e he hindex => ?_⟩
  · obtain ⟨r, hr, hvalue⟩ := read_of_outcome (hpart.trans ((get_eq_ok_iff hfirst).1 hv))
    cases r with
    | null l => cases hvalue
    | found w s =>
      cases hvalue
      have hwhole := happend (fun m h => by rw [hr] at h; cases h)
      rw [hr] at hwhole
      refine sameOutcome_of_outcome hsource hsecond ?_
      rw [outcome_congr hwhole]
      exact outcome_alike bs hunplaced'.symm (.value _ _ _) rfl
  · obtain ⟨r, hr, hvalue⟩ := read_of_outcome (hpart.trans ((get_eq_ok_iff hfirst).1 hnull))
    cases r with
    | found w s => cases hvalue
    | null l =>
      have hwhole := happend (fun m h => by rw [hr] at h; cases h)
      rw [hr] at hwhole
      exact (get_eq_ok_iff hsource).2 (outcome_of_read hwhole)
  · obtain ⟨f, rfl, hf⟩ := (get_eq_error_iff hfirst).1 he
    obtain ⟨g, hg, hfg⟩ := error_of_outcome (hpart.trans (outcome_of_error hf))
    have hwhole := happend (fun m hm => by
      rw [hg] at hm
      cases hm
      exact hindex m (Fault.eq_noIndex_of_unplaced hfg.symm))
    rw [hg] at hwhole
    exact ⟨⟨source, g⟩, (get_eq_error_iff hsource).2 ⟨g, rfl, hwhole⟩, rfl, hfg⟩

/-- Reads compose, and null propagates.  Wherever the atoms of an expression are split, both parts
are atoms of expressions of their own; and the read of the whole is that of the second part from
the value that the first one leads to, null where that is null, and otherwise the failure of the
first part, unless that only lacks an index. -/
theorem get_append (ev : Evaluator) {source : String} {as bs : List Atom} (has : as ≠ [])
    (hbs : bs ≠ []) (h : parse source = .ok (as ++ bs)) :
    (∃ first second, parse first = .ok as ∧ Spells second bs) ∧
      ∀ first second root, Spells first as → Spells second bs →
        ev.Composes source first second root :=
  ⟨exists_spelled_of_append has hbs h,
    fun _ _ root hfirst hsecond => composes hbs has h hfirst hsecond root⟩

set_option maxRecDepth 10000 in
/-- The second part begins behind the index of a property. -/
theorem get_append_stocked :
    [Atom.mk "bin" .name 0, ⟨"a b", .quoted, 4⟩] ≠ [] ∧
      [Atom.mk "0" .bracketed 11, ⟨"qty", .name, 14⟩] ≠ [] ∧
      parse "bin['a b'][0].qty" = .ok ([⟨"bin", .name, 0⟩, ⟨"a b", .quoted, 4⟩] ++
        [⟨"0", .bracketed, 11⟩, ⟨"qty", .name, 14⟩]) ∧
      (∃ first second, parse first = .ok [⟨"bin", .name, 0⟩, ⟨"a b", .quoted, 4⟩] ∧
        Spells second [⟨"0", .bracketed, 11⟩, ⟨"qty", .name, 14⟩]) ∧
      ∀ first second root, Spells first [⟨"bin", .name, 0⟩, ⟨"a b", .quoted, 4⟩] →
        Spells second [⟨"0", .bracketed, 11⟩, ⟨"qty", .name, 14⟩] →
          Shelf.evaluator.Composes "bin['a b'][0].qty" first second root :=
  have hparse : parse "bin['a b'][0].qty" = .ok ([⟨"bin", .name, 0⟩, ⟨"a b", .quoted, 4⟩] ++
      [⟨"0", .bracketed, 11⟩, ⟨"qty", .name, 14⟩]) := by rfl
  ⟨List.cons_ne_nil _ _, List.cons_ne_nil _ _, hparse,
    get_append Shelf.evaluator (List.cons_ne_nil _ _) (List.cons_ne_nil _ _) hparse⟩

end Evaluator

end ObjectPath
