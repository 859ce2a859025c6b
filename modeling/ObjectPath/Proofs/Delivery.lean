import ObjectPath.Proofs.Walks

/-!
# Walks and their payloads

A write looks at its payload at its last step only.  Up to there the walk is the same for all
payloads: it fails on its way (`Evaluator.Stops`), or it comes to its last step
(`Evaluator.ComesTo`), and what is delivered there decides its outcome (`Evaluator.Arrives`).  So
payloads that are delivered alike are set alike (`Evaluator.set_agrees`).
-/

namespace ObjectPath

/-- The same value is left behind with the same result, whatever was told on the way. -/
structure Written.Agrees (w w' : Written) : Prop where
  value : w.value = w'.value
  result : w.result = w'.result

namespace Written.Agrees

variable {w w' w'' : Written} {f : Fault}

theorem refl (w : Written) : w.Agrees w := ⟨rfl, rfl⟩

theorem symm (h : w.Agrees w') : w'.Agrees w := ⟨h.value.symm, h.result.symm⟩

theorem trans (h : w.Agrees w') (h' : w'.Agrees w'') : w.Agrees w'' :=
  ⟨h.value.trans h'.value, h.result.trans h'.result⟩

theorem within (h : w.Agrees w') (fill : Value → Value) : (w.within fill).Agrees (w'.within fill) :=
  ⟨congrArg fill h.value, h.result⟩

theorem andThen_of_ok (h : w.result = .ok ()) (next : Value → Written) :
    (w.andThen next).Agrees (next w.value) := by
  obtain ⟨hvalue, hresult⟩ := @Written.andThen_of_ok _ next h
  exact ⟨hvalue, hresult⟩

/-- What follows a failure does not happen. -/
theorem andThen_of_error (h : w.result = .error f) (next : Value → Written) :
    (w.andThen next).Agrees (.failed w.value f) := by
  obtain ⟨hvalue, hresult⟩ := @Written.andThen_of_error _ next _ h
  exact ⟨hvalue, hresult⟩

theorem andThen (h : w.Agrees w') (next : Value → Written) :
    (w.andThen next).Agrees (w'.andThen next) := by
  cases hw : w.result with
  | ok =>
    have hleft := andThen_of_ok hw next
    rw [h.value] at hleft
    exact hleft.trans (andThen_of_ok (h.result.symm.trans hw) next).symm
  | error f =>
    have hleft := andThen_of_error hw next
    rw [h.value] at hleft
    exact hleft.trans (andThen_of_error (h.result.symm.trans hw) next).symm

theorem failed_andThen {v : Value} (h : w.Agrees (.failed v f)) (next : Value → Written) :
    (w.andThen next).Agrees (.failed v f) := by
  have hfailed := andThen_of_error h.result next
  rwa [h.value] at hfailed

end Written.Agrees

namespace Evaluator

variable {ev : Evaluator} {site : Site} {a b : Atom} {atoms rest : List Atom} {s st : Step}
  {v w x : Value} {f : Fault} {t : Ty} {fill : Value → Value} {payload payload' : Payload}

/-- Every write on the path fails in the same way on its way to the last step. -/
def Stops (ev : Evaluator) (v : Value) (site : Site) (atoms : List Atom) (w : Value) (f : Fault) :
    Prop :=
  ∀ payload, (ev.write payload v site atoms).Agrees (.failed w f)

/-- Every write on the path comes to the step `s` in the same value `w`, delivers its payload there,
and puts back what is left. -/
def Arrives (ev : Evaluator) (v : Value) (site : Site) (atoms : List Atom) (s : Step) (w : Value)
    (fill : Value → Value) : Prop :=
  ∀ payload, (ev.write payload v site atoms).Agrees ((ev.deliver payload s w).within fill)

theorem set_agrees_write {source : String} (h : parse source = .ok atoms) (ev : Evaluator)
    (payload : Payload) (root : Value) :
    (ev.set source payload root).Agrees (ev.write payload root (start root) atoms) :=
  ⟨(set_of_parse h ev payload root).1, (set_of_parse h ev payload root).2⟩

/-- A write that was not stopped when it came to a step agrees with what is done behind it. -/
theorem write_agrees_of_approach (payload : Payload) (hres : ev.resolve site a = .ok (.step st))
    (ha : (ev.approach st b v).result = .ok ()) {p : Place w}
    (hp : st.place (ev.approach st b v).value = .ok (.place w p)) :
    (ev.write payload v site (a :: b :: rest)).Agrees
      ((ev.write payload p.value (.value p.value.typeOf st.origin) (b :: rest)).within p.fill) := by
  rw [write_step hres, ← descend_of_place hp]
  exact Written.Agrees.andThen_of_ok ha _

/-- Writes that fail when they come to a step, before they look at their payload, are stopped. -/
theorem stops_of_approach (hres : ev.resolve site a = .ok (.step st))
    (ha : (ev.approach st b v).result = .error f) :
    ev.Stops v site (a :: b :: rest) (ev.approach st b v).value f := by
  intro payload
  rw [write_step hres]
  exact Written.Agrees.andThen_of_error ha _

/-- Writes that come to a step and cannot go on there are stopped. -/
theorem stops_of_descend (hres : ev.resolve site a = .ok (.step st))
    (ha : (ev.approach st b v).result = .ok ())
    (h : ∀ payload, ev.descend payload st (b :: rest) (ev.approach st b v).value = .failed w f) :
    ev.Stops v site (a :: b :: rest) w f := by
  intro payload
  rw [write_step hres, ← h payload]
  exact Written.Agrees.andThen_of_ok ha _

/-- A write on the path comes to its last step `s` in the value `w`: nothing failed on its way.
`fill` puts back what is left of `w`. -/
inductive ComesTo (ev : Evaluator) :
    Value → Site → List Atom → Step → Value → (Value → Value) → Prop
  | last {v : Value} {site : Site} {a : Atom} {s : Step}
      (hres : ev.resolve site a = .ok (.step s)) : ComesTo ev v site [a] s v id
  | index {v w : Value} {site next : Site} {a : Atom} {rest : List Atom} {s : Step}
      {fill : Value → Value} (hres : ev.resolve site a = .ok (.site next))
      (h : ComesTo ev v next rest s w fill) : ComesTo ev v site (a :: rest) s w fill
  | further {v w : Value} {site : Site} {a b : Atom} {rest : List Atom} {s st : Step}
      {fill : Value → Value} {u : Value} {p : Place u}
      (hres : ev.resolve site a = .ok (.step st)) (ha : (ev.approach st b v).result = .ok ())
      (hp : st.place (ev.approach st b v).value = .ok (.place u p))
      (h : ComesTo ev p.value (.value p.value.typeOf st.origin) (b :: rest) s w fill) :
      ComesTo ev v site (a :: b :: rest) s w (p.fill ∘ fill)

namespace ComesTo

/-- What becomes of a write that comes to its last step is decided there. -/
theorem arrives (h : ev.ComesTo v site atoms s w fill) : ev.Arrives v site atoms s w fill := by
  intro payload
  induction h with
  | last hres => rw [write_last hres]; exact .refl _
  | index hres _ ih => rw [write_site hres]; exact ih
  | further hres ha hp _ ih =>
    exact (write_agrees_of_approach payload hres ha hp).trans (ih.within _)

/-- The step a write comes to is the last one of its path, and fits what it leads into. -/
theorem fits (hev : ev.Typed) (h : ev.ComesTo v site atoms s w fill) :
    ∀ {t : Ty}, HasType ev.schema v t → site.Fits ev.schema t →
      ev.terminal site atoms = .ok s ∧ ∃ u, s.Fits ev.schema u ∧ HasType ev.schema w u := by
  induction h with
  | last hres =>
    intro t hv hsite
    exact ⟨terminal_last hres, t, fits_step hev hsite hres, hv⟩
  | index hres _ ih =>
    intro t hv hsite
    rw [terminal_site hres]
    exact ih hv (fits_site hev hsite hres)
  | further hres _ hp _ ih =>
    intro t hv hsite
    have hst := fits_step hev hsite hres
    obtain ⟨hptype, hsite'⟩ := fits_place hev hst (hasType_approach hev hst hv) hp
    rw [terminal_step hres, ← hptype.typeOf_eq]
    exact ih hptype hsite'

/-- What is left at the last step is put back into a value of its type. -/
theorem hasType_fill (hev : ev.Typed) (h : ev.ComesTo v site atoms s w fill) :
    ∀ {t : Ty}, HasType ev.schema v t → site.Fits ev.schema t →
      ∃ u, HasType ev.schema w u ∧ s.Fits ev.schema u ∧
        ∀ x, HasType ev.schema x u → HasType ev.schema (fill x) t := by
  induction h with
  | last hres =>
    intro t hv hsite
    exact ⟨t, hv, fits_step hev hsite hres, fun _ hx => hx⟩
  | index hres _ ih =>
    intro t hv hsite
    exact ih hv (fits_site hev hsite hres)
  | further hres _ hp _ ih =>
    intro t hv hsite
    have hst := fits_step hev hsite hres
    have hplace := Step.typed_place hev.schema hst (hasType_approach hev hst hv) hp
    obtain ⟨hptype, hsite'⟩ := fits_place hev hst (hasType_approach hev hst hv) hp
    obtain ⟨u, hw, hs, hfill⟩ := ih hptype hsite'
    exact ⟨u, hw, hs, fun x hx => hplace.fill _ (hfill x hx)⟩

end ComesTo

/-- Whatever their payload, writes on a path fail on their way or come to its last step, by
induction on the path: approaching a step does not depend on the payload. -/
theorem stops_or_comesTo (ev : Evaluator) (atoms : List Atom) :
    ∀ (v : Value) (site : Site), (∃ w f, ev.Stops v site atoms w f) ∨
      ∃ s w fill, ev.ComesTo v site atoms s w fill := by
  induction atoms with
  | nil =>
    intro v site
    exact .inl ⟨v, site.unfinished, fun payload => by rw [write]; exact .refl _⟩
  | cons a rest ih =>
    intro v site
    cases hres : ev.resolve site a with
    | error f =>
      exact .inl ⟨v, f, fun payload => by rw [write_error hres]; exact .refl _⟩
    | ok r =>
      cases r with
      | site next =>
        rcases ih v next with ⟨w, f, h⟩ | ⟨s, w, fill, h⟩
        · exact .inl ⟨w, f, fun payload => by rw [write_site hres]; exact h payload⟩
        · exact .inr ⟨s, w, fill, .index hres h⟩
      | step st =>
        cases rest with
        | nil => exact .inr ⟨st, v, id, .last hres⟩
        | cons b rest =>
          -- The write is stopped when it comes to the step, or it goes on in the same place.
          cases ha : (ev.approach st b v).result with
          | error f => exact .inl ⟨_, f, stops_of_approach hres ha⟩
          | ok =>
            cases hp : st.place (ev.approach st b v).value with
            | error f =>
              exact .inl ⟨_, _, stops_of_descend hres ha fun payload => by rw [descend, hp]⟩
            | ok o =>
              cases o with
              | nothing u =>
                exact .inl ⟨_, _, stops_of_descend hres ha fun payload => by rw [descend, hp]⟩
              | place u p =>
                rcases ih p.value (.value p.value.typeOf st.origin) with
                  ⟨w, f, h⟩ | ⟨s, w, fill, h⟩
                · exact .inl ⟨p.fill w, f, fun payload =>
                    (write_agrees_of_approach payload hres ha hp).trans ((h payload).within p.fill)⟩
                · exact .inr ⟨s, w, p.fill ∘ fill, .further hres ha hp h⟩

/-- Writes through a typed value are stopped, or come to the last step of their path in a typed
value. -/
theorem stops_or_arrives (hev : ev.Typed) (atoms : List Atom) (hv : HasType ev.schema v t)
    (hsite : site.Fits ev.schema t) :
    (∃ w f, ev.Stops v site atoms w f) ∨
      ∃ s w u fill, ev.terminal site atoms = .ok s ∧ s.Fits ev.schema u ∧
        HasType ev.schema w u ∧ ev.Arrives v site atoms s w fill := by
  rcases stops_or_comesTo ev atoms v site with hstop | ⟨s, w, fill, h⟩
  · exact .inl hstop
  · obtain ⟨hs, u, hsu, hw⟩ := h.fits hev hv hsite
    exact .inr ⟨s, w, u, fill, hs, hsu, hw, h.arrives⟩

/-- A write to an expression comes to its last step. -/
def ComesAlong (ev : Evaluator) (source : String) (root : Value) (s : Step) (w : Value)
    (fill : Value → Value) : Prop :=
  ∃ atoms, parse source = .ok atoms ∧ ev.ComesTo root (start root) atoms s w fill

/-- What is set at an expression is what is delivered where the walk comes to its last step. -/
theorem ComesAlong.set_agrees {source : String} {root : Value}
    (h : ev.ComesAlong source root s w fill) (payload : Payload) :
    (ev.set source payload root).Agrees ((ev.deliver payload s w).within fill) := by
  obtain ⟨atoms, hparse, h⟩ := h
  exact (set_agrees_write hparse ev payload root).trans (h.arrives payload)

/-- Payloads that are delivered alike at the last step of an expression are set alike: with the same
result, and with the same root behind. -/
theorem set_agrees (hev : ev.Typed) {source : String} {root : Value}
    (hroot : HasType ev.schema root root.typeOf) (hparse : parse source = .ok atoms)
    (hs : ev.terminal (start root) atoms = .ok s)
    (h : ∀ w, ev.deliver payload s w = ev.deliver payload' s w) :
    (ev.set source payload root).Agrees (ev.set source payload' root) := by
  refine (set_agrees_write hparse ev payload root).trans
    (.trans ?_ (set_agrees_write hparse ev payload' root).symm)
  rcases stops_or_arrives hev atoms hroot (fits_start root) with
    ⟨w, f, hstop⟩ | ⟨s', w, u, fill, hs', -, -, harrive⟩
  · exact (hstop payload).trans (hstop payload').symm
  · rw [hs] at hs'
    cases hs'
    have hleft := harrive payload
    rw [h w] at hleft
    exact hleft.trans (harrive payload').symm

end Evaluator

end ObjectPath
