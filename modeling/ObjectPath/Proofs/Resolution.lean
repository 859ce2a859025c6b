import ObjectPath.Proofs.Sharing
import ObjectPath.Proofs.Walks

/-!
# Resolution from declared types

`Evaluator.terminal` resolves a path without a value: behind each step it goes on with the declared
type of the slot, where a read goes on with the type of what it found.  In a typed value both are
the same, so the two walks take the same steps and report the same faults
(`Evaluator.Simulates`).  They differ where the read stops at a
null, where a member cannot be read, and at a member that ends the path without its index.

`Evaluator.trail` lists the steps that are resolved on the way.  The last member among them is the
origin of the last step, whose tags count (`Evaluator.origin_of_trail`).
-/

namespace ObjectPath

/-- A step that stops at a member whose index is missing. -/
def Step.Unindexed : Step → Prop
  | member m => m.index?.isSome
  | indexed _ _ _ | element _ _ _ | entry _ _ _ _ => False

/-- The member to which what stands at a site belongs. -/
def Site.origin : Site → Option Member
  | .value _ o => o
  | .index m _ => some m

/-- A read through a typed value fails only where a member cannot be read. -/
theorem Member.read_eq_error {m : Member} {v : Value} {f : Fault} (h : m.read v = .error f) :
    ∃ name, f = .unreadable name := by
  unfold Member.read at h
  split at h
  · split at h
    · cases h
    · cases h; exact ⟨_, rfl⟩
  · cases h

theorem Member.readAt_eq_error {m : Member} {v i : Value} {f : Fault}
    (h : m.readAt v i = .error f) : ∃ name, f = .unreadable name := by
  unfold Member.readAt at h
  split at h
  · split at h
    · cases h
    · cases h; exact ⟨_, rfl⟩
  · cases h; exact ⟨_, rfl⟩

theorem Step.read_eq_error {s : Schema} {st : Step} {t : Ty} {v : Value} {f : Fault}
    (hst : st.Fits s t) (hv : HasType s v t) (h : st.read v = .error f) :
    ∃ name, f = .unreadable name := by
  have hslot : st.slot v = .error f := by
    unfold Step.read at h
    split at h
    · cases h
    · next hs => cases h; exact hs
  cases hst with
  | member => exact Member.read_eq_error hslot
  | indexed => exact Member.readAt_eq_error hslot
  | element =>
    cases hv with
    | seq => cases hslot
  | entry =>
    cases hv with
    | map => cases hslot

namespace Evaluator

variable {ev : Evaluator} {payload : Payload} {site next : Site} {a b : Atom} {rest : List Atom}
  {s st : Step} {ss : List Step} {v x : Value} {t : Ty} {f : Fault}

/-! ## The steps of a path -/

/-- The steps of a path from the first to the last, resolved from declared types alone. -/
def trail (ev : Evaluator) : Site → List Atom → Except Fault (List Step)
  | .value t o, [] => .error (Site.value t o).unfinished
  | .index m _, [] => .ok [.member m]
  | site, a :: rest =>
    match ev.resolve site a with
    | .error f => .error f
    | .ok (.site next) => ev.trail next rest
    | .ok (.step s) =>
      if rest.isEmpty then .ok [s]
      else
        match ev.trail (.value s.type.declared s.origin) rest with
        | .ok ss => .ok (s :: ss)
        | .error f => .error f

theorem trail_error (h : ev.resolve site a = .error f) :
    ev.trail site (a :: rest) = .error f := by
  cases site <;> rw [trail, h]

theorem trail_site (h : ev.resolve site a = .ok (.site next)) :
    ev.trail site (a :: rest) = ev.trail next rest := by
  cases site <;> rw [trail, h]

theorem trail_last (h : ev.resolve site a = .ok (.step st)) : ev.trail site [a] = .ok [st] := by
  cases site <;> (rw [trail, h]; rfl)

theorem trail_step (h : ev.resolve site a = .ok (.step st))
    (hss : ev.trail (.value st.type.declared st.origin) (b :: rest) = .ok ss) :
    ev.trail site (a :: b :: rest) = .ok (st :: ss) := by
  cases site <;> (rw [trail, h]; simp only [hss, List.isEmpty_cons]; rfl)

/-- The steps of a longer path are its first step and those behind it. -/
theorem trail_step_ok (h : ev.resolve site a = .ok (.step st))
    (hss : ev.trail site (a :: b :: rest) = .ok ss) :
    ∃ ts, ss = st :: ts ∧ ev.trail (.value st.type.declared st.origin) (b :: rest) = .ok ts := by
  cases hts : ev.trail (.value st.type.declared st.origin) (b :: rest) with
  | ok ts => rw [trail_step h hts] at hss; cases hss; exact ⟨ts, rfl, rfl⟩
  | error f =>
    have herror : ev.trail site (a :: b :: rest) = .error f := by
      cases site <;> (rw [trail, h]; simp only [hts, List.isEmpty_cons]; rfl)
    rw [herror] at hss
    cases hss

/-- A path that resolves has steps. -/
theorem trail_ne_nil (ev : Evaluator) (atoms : List Atom) :
    ∀ site : Site, ev.trail site atoms ≠ .ok [] := by
  induction atoms with
  | nil =>
    intro site h
    cases site <;> cases h
  | cons a rest ih =>
    intro site h
    cases hres : ev.resolve site a with
    | error f => rw [trail_error hres] at h; cases h
    | ok r =>
      cases r with
      | site next => rw [trail_site hres] at h; exact ih next h
      | step st =>
        cases rest with
        | nil => rw [trail_last hres] at h; cases h
        | cons b rest =>
          obtain ⟨ts, hcons, -⟩ := trail_step_ok hres h
          cases hcons

/-- The last step of a path is the last of its steps. -/
theorem exists_trail_of_terminal {atoms : List Atom} :
    ∀ {site : Site}, ev.terminal site atoms = .ok s →
      ∃ ss, ev.trail site atoms = .ok ss ∧ ss.getLast? = some s := by
  induction atoms with
  | nil =>
    intro site h
    cases site with
    | value t o => rw [terminal] at h; cases h
    | index m u => rw [terminal] at h; cases h; exact ⟨_, rfl, rfl⟩
  | cons a rest ih =>
    intro site h
    cases hres : ev.resolve site a with
    | error f => rw [terminal_error hres] at h; cases h
    | ok r =>
      cases r with
      | site next =>
        rw [terminal_site hres] at h
        rw [trail_site hres]
        exact ih h
      | step st =>
        cases rest with
        | nil =>
          rw [terminal_last hres] at h
          cases h
          exact ⟨_, trail_last hres, rfl⟩
        | cons b rest =>
          rw [terminal_step hres] at h
          obtain ⟨ss, hss, hlast⟩ := ih h
          refine ⟨st :: ss, trail_step hres hss, ?_⟩
          rw [List.getLast?_cons, hlast]
          rfl

theorem origin_of_resolve (h : ev.resolve site a = .ok (.step st)) :
    st.origin = st.member?.or site.origin := by
  cases site with
  | index m u =>
    simp only [resolve] at h
    split at h <;> cases h
    rfl
  | value u o =>
    cases u with
    | leaf | option => cases h
    | seq k item =>
      simp only [resolve] at h
      split at h <;> cases h
      rfl
    | map k key value =>
      simp only [resolve] at h
      split at h <;> cases h
      rfl
    | record path =>
      simp only [resolve] at h
      split at h
      · cases h
      · split at h <;> cases h
        rfl

theorem eq_index_of_resolve (h : ev.resolve site a = .ok (.site next)) :
    ∃ m u, next = .index m u := by
  cases site with
  | index m u =>
    simp only [resolve] at h
    split at h <;> cases h
  | value u o =>
    cases u with
    | leaf | option => cases h
    | seq k item | map k key value =>
      simp only [resolve] at h
      split at h <;> cases h
    | record path =>
      simp only [resolve] at h
      split at h
      · cases h
      · split at h <;> cases h
        exact ⟨_, _, rfl⟩

/-- At an index the path goes through the member that takes it. -/
theorem exists_member_of_trail {m : Member} {u : Ty} {atoms : List Atom}
    (h : ev.trail (.index m u) atoms = .ok ss) : ∃ ms, ss.filterMap Step.member? = m :: ms := by
  cases atoms with
  | nil => cases h; exact ⟨[], rfl⟩
  | cons a rest =>
    cases hi : ev.converters.parse none a.text u with
    | error f =>
      have hres : ev.resolve (.index m u) a = .error f := by rw [resolve, hi]
      rw [trail_error hres] at h
      cases h
    | ok i =>
      have hres : ev.resolve (.index m u) a = .ok (.step (.indexed m i a.text)) := by
        rw [resolve, hi]
      cases rest with
      | nil => rw [trail_last hres] at h; cases h; exact ⟨[], rfl⟩
      | cons b rest =>
        obtain ⟨ts, rfl, -⟩ := trail_step_ok hres h
        exact ⟨ts.filterMap Step.member?, rfl⟩

/-- The last member among some steps is that of the last ones, or else that of the first one. -/
theorem lastMember_cons (st : Step) (ss : List Step) :
    ((st :: ss).filterMap Step.member?).getLast? =
      (ss.filterMap Step.member?).getLast?.or st.member? := by
  cases h : st.member? with
  | none => rw [List.filterMap_cons_none h, Option.or_none]
  | some m =>
    rw [List.filterMap_cons_some h, List.getLast?_cons]
    cases (ss.filterMap Step.member?).getLast? <;> rfl

/-- The origin of the last step is the last member among the steps of the path, or where there is
none, that of the site. -/
theorem origin_of_trail {atoms : List Atom} :
    ∀ {site : Site} {ss : List Step}, ev.trail site atoms = .ok ss →
      ev.terminal site atoms = .ok s →
        s.origin = (ss.filterMap Step.member?).getLast?.or site.origin := by
  induction atoms with
  | nil =>
    intro site ss h hs
    cases site with
    | value t o => cases h
    | index m u => rw [terminal] at hs; cases hs; cases h; rfl
  | cons a rest ih =>
    intro site ss h hs
    cases hres : ev.resolve site a with
    | error f => rw [trail_error hres] at h; cases h
    | ok r =>
      cases r with
      | site next =>
        rw [trail_site hres] at h
        rw [terminal_site hres] at hs
        obtain ⟨m, u, rfl⟩ := eq_index_of_resolve hres
        obtain ⟨ms, hms⟩ := exists_member_of_trail h
        rw [ih h hs, hms, List.getLast?_cons]
        rfl
      | step st =>
        have horigin := origin_of_resolve hres
        cases rest with
        | nil =>
          rw [trail_last hres] at h
          rw [terminal_last hres] at hs
          cases h
          cases hs
          rw [lastMember_cons]
          exact horigin
        | cons b rest =>
          rw [terminal_step hres] at hs
          obtain ⟨ts, rfl, hbelow⟩ := trail_step_ok hres h
          rw [ih hbelow hs, lastMember_cons, Option.or_assoc]
          exact congrArg _ horigin

/-! ## The walks of reads and writes -/

/-- What a read finds is of the declared type of its last step, without the optional layer, and that
step is the one the path resolves to. -/
theorem terminal_of_read (hev : ev.Typed) {atoms : List Atom} :
    ∀ {v : Value} {t : Ty} {site : Site}, HasType ev.schema v t → site.Fits ev.schema t →
      ev.read v site atoms = .ok (.found x s) →
        ev.terminal site atoms = .ok s ∧ HasType ev.schema x s.type.declared := by
  induction atoms with
  | nil => intro v t site _ _ h; rw [read] at h; cases h
  | cons a rest ih =>
    intro v t site hv hsite h
    cases hres : ev.resolve site a with
    | error f => rw [read_error hres] at h; cases h
    | ok r =>
      cases r with
      | site next =>
        rw [read_site hres] at h
        rw [terminal_site hres]
        exact ih hv (fits_site hev hsite hres) h
      | step st =>
        have hst := fits_step hev hsite hres
        cases hr : st.read v with
        | error f => rw [read_refused hres hr] at h; cases h
        | ok c =>
          cases c with
          | none => rw [read_null hres hr] at h; cases h
          | some w =>
            have hw := Step.hasType_read hev.schema hst hv hr
            cases rest with
            | nil =>
              rw [read_last hres hr] at h
              cases h
              exact ⟨terminal_last hres, hw⟩
            | cons b rest =>
              rw [read_step hres hr, hw.typeOf_eq] at h
              rw [terminal_step hres]
              exact ih hw (fits_below hst _) h

/-- The two walks report the same fault, unless a member cannot be read or lacks its index. -/
theorem terminal_of_read_error (hev : ev.Typed) {atoms : List Atom} :
    ∀ {v : Value} {t : Ty} {site : Site}, HasType ev.schema v t → site.Fits ev.schema t →
      ev.read v site atoms = .error f → (∀ name, f ≠ .unreadable name) →
      (∀ name, f ≠ .malformedPath (.noIndex name)) → ev.terminal site atoms = .error f := by
  induction atoms with
  | nil =>
    intro v t site _ _ h _ hindex
    rw [read] at h
    cases h
    cases site with
    | value u o => rw [terminal]
    | index m u => exact absurd rfl (hindex m.name)
  | cons a rest ih =>
    intro v t site hv hsite h hread hindex
    cases hres : ev.resolve site a with
    | error g => rw [read_error hres] at h; cases h; exact terminal_error hres
    | ok r =>
      cases r with
      | site next =>
        rw [read_site hres] at h
        rw [terminal_site hres]
        exact ih hv (fits_site hev hsite hres) h hread hindex
      | step st =>
        have hst := fits_step hev hsite hres
        cases hr : st.read v with
        | error g =>
          rw [read_refused hres hr] at h
          cases h
          obtain ⟨name, hname⟩ := Step.read_eq_error hst hv hr
          exact absurd hname (hread name)
        | ok c =>
          cases c with
          | none => rw [read_null hres hr] at h; cases h
          | some w =>
            have hw := Step.hasType_read hev.schema hst hv hr
            cases rest with
            | nil => rw [read_last hres hr] at h; cases h
            | cons b rest =>
              rw [read_step hres hr, hw.typeOf_eq] at h
              rw [terminal_step hres]
              exact ih hw (fits_below hst _) h hread hindex

/-- Where a path resolves, it is read, if it does not lack its last index and no member on the way
is unreadable. -/
theorem read_of_terminal (hev : ev.Typed) {atoms : List Atom} :
    ∀ {v : Value} {t : Ty} {site : Site}, HasType ev.schema v t → site.Fits ev.schema t →
      ev.terminal site atoms = .ok s → ¬ s.Unindexed →
      (∃ r, ev.read v site atoms = .ok r) ∨
        ∃ name, ev.read v site atoms = .error (.unreadable name) := by
  induction atoms with
  | nil =>
    intro v t site _ hsite h hs
    cases site with
    | value u o => rw [terminal] at h; cases h
    | index m u =>
      rw [terminal] at h
      cases h
      have hindex : m.index?.isSome := by rw [hsite.2]; rfl
      exact absurd hindex hs
  | cons a rest ih =>
    intro v t site hv hsite h hs
    cases hres : ev.resolve site a with
    | error g => rw [terminal_error hres] at h; cases h
    | ok r =>
      cases r with
      | site next =>
        rw [terminal_site hres] at h
        rw [read_site hres]
        exact ih hv (fits_site hev hsite hres) h hs
      | step st =>
        have hst := fits_step hev hsite hres
        cases hr : st.read v with
        | error g =>
          obtain ⟨name, rfl⟩ := Step.read_eq_error hst hv hr
          exact .inr ⟨name, read_refused hres hr⟩
        | ok c =>
          cases c with
          | none => exact .inl ⟨_, read_null hres hr⟩
          | some w =>
            have hw := Step.hasType_read hev.schema hst hv hr
            cases rest with
            | nil => exact .inl ⟨_, read_last hres hr⟩
            | cons b rest =>
              rw [terminal_step hres] at h
              rw [read_step hres hr, hw.typeOf_eq]
              exact ih hw (fits_below hst _) h hs

/-- A write that succeeds ends at the step its path resolves to, and what it stored was made for
that step. -/
theorem terminal_of_write (hev : ev.Typed) {atoms : List Atom} :
    ∀ {v : Value} {t : Ty} {site : Site}, HasType ev.schema v t → site.Fits ev.schema t →
      (ev.write payload v site atoms).result = .ok () →
        ∃ s y, ev.terminal site atoms = .ok s ∧ ev.bound payload s = .ok y := by
  induction atoms with
  | nil => intro v t site _ _ h; rw [write] at h; cases h
  | cons a rest ih =>
    intro v t site hv hsite h
    cases hres : ev.resolve site a with
    | error f => rw [write_error hres] at h; cases h
    | ok r =>
      cases r with
      | site next =>
        rw [write_site hres] at h
        rw [terminal_site hres]
        exact ih hv (fits_site hev hsite hres) h
      | step st =>
        have hst := fits_step hev hsite hres
        cases rest with
        | nil =>
          rw [write_last hres, deliver_eq] at h
          split at h
          · next y hy => exact ⟨st, y, terminal_last hres, hy⟩
          · cases h
        | cons b rest =>
          rw [write_step hres] at h
          obtain ⟨-, hdescend⟩ := Written.andThen_ok h
          obtain ⟨w, p, hp, hinner⟩ := descend_ok hdescend
          obtain ⟨hptype, hsite'⟩ := fits_place hev hst (hasType_approach hev hst hv) hp
          rw [terminal_step hres, ← hptype.typeOf_eq]
          exact ih hptype hsite' hinner

/-! ## Expressions -/

/-- What an expression resolves to in values of a type, without any of them. -/
def resolved (ev : Evaluator) (source : String) (t : Ty) : Except EvalError Step :=
  blame source do ev.terminal (.value t none) (← parse source)

/-- The resolution of an expression from a type simulates its evaluation in a value of that type. -/
structure Simulates (ev : Evaluator) (source : String) (t : Ty) (root : Value) : Prop where
  /-- What is read is read through the step that the expression resolves to, and is of the declared
  type of that step without its optional layer. -/
  found : ∀ x s, ev.reading source root = .ok (.found x s) →
    ev.resolved source t = .ok s ∧ x.typeOf = s.type.declared
  /-- A read fails with the fault of the resolution, unless a member cannot be read or lacks its
  index. -/
  failed : ∀ e, ev.reading source root = .error e → (∀ name, e.fault ≠ .unreadable name) →
    (∀ name, e.fault ≠ .malformedPath (.noIndex name)) → ev.resolved source t = .error e
  /-- What resolves is read, to a value or to null, unless a member cannot be read. -/
  read : ∀ s, ev.resolved source t = .ok s → ¬ s.Unindexed →
    (∃ r, ev.reading source root = .ok r) ∨
      ∃ name, ev.reading source root = .error ⟨source, .unreadable name⟩
  /-- What is written resolves, to the step for which the payload was converted. -/
  written : ∀ payload, (ev.set source payload root).result = .ok () →
    ∃ s y, ev.resolved source t = .ok s ∧ ev.bound payload s = .ok y
  /-- The origin is the last member that the path goes through, if there is one, and its tags are
  reported. -/
  origin : ∀ s, ev.resolved source t = .ok s → ∃ atoms ss, parse source = .ok atoms ∧
    ev.trail (.value t none) atoms = .ok ss ∧ ss.getLast? = some s ∧
    s.origin = (ss.filterMap Step.member?).getLast? ∧
    ∀ k, ev.getTag source k root = .ok (s.origin.bind (·.tag? k))

theorem blame_ok {source : String} {α : Type} {r : Except Fault α} {y : α} :
    blame source r = .ok y ↔ r = .ok y := by
  cases r <;> simp [blame]

theorem blame_error {source : String} {α : Type} {r : Except Fault α} {e : EvalError} :
    blame source r = .error e ↔ e.expression = source ∧ r = .error e.fault := by
  cases r with
  | ok y => simp [blame]
  | error f => obtain ⟨expression, g⟩ := e; simp [blame, eq_comm]

/-- An expression resolves in every value of a type as the type says. -/
theorem simulates (hev : ev.Typed) {root : Value} (hroot : HasType ev.schema root t)
    (source : String) : ev.Simulates source t root := by
  have hstart : start root = .value t none := by rw [start, hroot.typeOf_eq]
  have hsite : (start root).Fits ev.schema t := hstart ▸ ⟨rfl, nofun⟩
  cases hparse : parse source with
  | error f =>
    have hreading : ev.reading source root = .error ⟨source, f⟩ := by
      simp only [reading, hparse, bind, Except.bind, blame]
    have hresolved : ev.resolved source t = .error ⟨source, f⟩ := by
      simp only [resolved, hparse, bind, Except.bind, blame]
    refine ⟨fun x s h => ?_, fun e h _ _ => ?_, fun s h => ?_, fun payload h => ?_, fun s h => ?_⟩
    · rw [hreading] at h; cases h
    · rw [hreading] at h; cases h; exact hresolved
    · rw [hresolved] at h; cases h
    · rw [set_of_parse_error hparse] at h; cases h
    · rw [hresolved] at h; cases h
  | ok atoms =>
    have hreading : ev.reading source root = blame source (ev.read root (start root) atoms) := by
      simp only [reading, hparse, bind, Except.bind]
    have hresolved : ev.resolved source t = blame source (ev.terminal (start root) atoms) := by
      simp only [resolved, hparse, bind, Except.bind, hstart]
    refine ⟨fun x s h => ?_, fun e h hread hindex => ?_, fun s h hs => ?_, fun payload h => ?_,
      fun s h => ?_⟩
    · rw [hreading, blame_ok] at h
      rw [hresolved, blame_ok]
      obtain ⟨hs, hx⟩ := terminal_of_read hev hroot hsite h
      exact ⟨hs, hx.typeOf_eq⟩
    · rw [hreading, blame_error] at h
      rw [hresolved, blame_error]
      exact ⟨h.1, terminal_of_read_error hev hroot hsite h.2 hread hindex⟩
    · rw [hresolved, blame_ok] at h
      rw [hreading]
      rcases read_of_terminal hev hroot hsite h hs with ⟨r, hr⟩ | ⟨name, hr⟩
      · exact .inl ⟨r, blame_ok.2 hr⟩
      · exact .inr ⟨name, blame_error.2 ⟨rfl, hr⟩⟩
    · rw [(set_of_parse hparse ev payload root).2] at h
      obtain ⟨s, y, hs, hy⟩ := terminal_of_write hev hroot hsite h
      exact ⟨s, y, by rw [hresolved, hs]; rfl, hy⟩
    · rw [hresolved, blame_ok] at h
      obtain ⟨ss, hss, hlast⟩ := exists_trail_of_terminal h
      refine ⟨atoms, ss, hparse, hstart ▸ hss, hlast, ?_, fun k => ?_⟩
      · rw [origin_of_trail hss h, hstart]
        exact Option.or_none
      · simp only [getTag, hparse, bind, Except.bind, h]
        rfl

set_option maxRecDepth 10000 in
/-- A line on a shelf that is not there: the path to its quantity resolves, through the member of
the quantity. -/
theorem simulates_stocked :
    Shelf.evaluator.Typed ∧ HasType Shelf.evaluator.schema Shelf.stocked (.record "Shelf") ∧
      Shelf.evaluator.Simulates "bin['a b'][2].qty" (.record "Shelf") Shelf.stocked :=
  ⟨Shelf.typed, Shelf.hasType_stocked, simulates Shelf.typed Shelf.hasType_stocked _⟩

end Evaluator

end ObjectPath
