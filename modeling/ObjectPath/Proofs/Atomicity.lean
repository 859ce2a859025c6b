import ObjectPath.Proofs.Sharing
import ObjectPath.Proofs.Walks

/-!
# Failed writes that change nothing

A write stores something before its end only where it creates a missing value or makes an array
longer, and it tells so by an event (`Written.Quiet`).  A step that is asked to store a value and
fails has stored nothing, in a list that would need padding too (`Step.write_value_of_error`).  So
all that a failed write without such an event does to a value is to ask the getters on its way for
their places (`Evaluator.Asked`).  A getter is free to change the record then; where every getter
leaves it alone (`Schema.LeavesRecords`), the value is what it was (`Evaluator.set_value_of_quiet`).

Nothing else is assumed of schemas, members and converters here: what is put back at a place is what
stands there.
-/

namespace ObjectPath

/-! ## Quiet writes -/

namespace Written

variable {w : Written} {next : Value → Written} {e : Event}

end Written

/-! ## Storing fails before it changes anything -/

/-- What is prepared for a slot is of the type of the slot. -/
theorem Ty.typeOf_fit {target : Ty} {v x : Value} (h : target.fit v = .ok x) :
    x.typeOf = target := by
  rcases Ty.fit_ok h with ⟨ht, rfl⟩ | ⟨rfl, rfl⟩
  · exact ht
  · rfl

theorem Ty.typeOf_prepareNull {target : Ty} {label : String} {x : Value}
    (h : target.prepareNull label = .ok x) : x.typeOf = target := by
  cases target with
  | option u => cases h; rfl
  | leaf | seq | map | record => cases h

theorem Ty.typeOf_prepare {target : Ty} {label : String} {y : Option Value} {x : Value}
    (h : target.prepare label y = .ok x) : x.typeOf = target := by
  cases y with
  | none => exact Ty.typeOf_prepareNull h
  | some v =>
    simp only [Ty.prepare] at h
    split at h
    · next hf => cases h; exact Ty.typeOf_fit hf
    · split at h
      · exact Ty.typeOf_prepareNull h
      · split at h
        · next hf => cases h; exact Ty.typeOf_fit hf
        · cases h
      · cases h
      · cases h

namespace Step

variable {s : Schema} {st : Step} {item : Ty} {v x d : Value} {y : Option Value} {f : Fault}
  {items ys : List Value} {n i : Nat}

/-- Where the item type has a default value, padding succeeds. -/
theorem pad_of_default (hd : s.default? item = some d) (ht : d.typeOf = item) (n : Nat) :
    ∀ items : List Value, st.pad s item n items = (items ++ List.replicate n d, .ok ()) := by
  induction n with
  | zero => intro items; simp [pad]
  | succ n ih =>
    intro items
    have hpush : Value.push item items d = .ok (items ++ [d]) := if_pos ht
    simp only [pad, hd, hpush, ih]
    rw [List.append_assoc, List.replicate_succ, List.singleton_append]

/-- Padding that fails has appended nothing: all default items are alike. -/
theorem pad_items_of_error (h : st.pad s item n items = (ys, .error f)) : ys = items := by
  cases n with
  | zero => cases h
  | succ n =>
    cases hd : s.default? item with
    | none =>
      simp only [pad, hd] at h
      cases h
      rfl
    | some d =>
      by_cases ht : d.typeOf = item
      · rw [pad_of_default hd ht] at h
        cases h
      · have hpush : Value.push item items d = .error d := if_neg ht
        simp only [pad, hd, hpush] at h
        cases h
        rfl

theorem writeItem_items_of_error (hx : x.typeOf = item)
    (h : st.writeItem s item items i x = (ys, .error f)) : ys = items := by
  simp only [writeItem] at h
  split at h
  · split at h
    · cases h
    · cases h; rfl
  · split at h
    · cases h; rfl
    · split at h
      · next hp => cases h; exact pad_items_of_error hp
      · next padded hp =>
        have hpush : Value.push item padded x = .ok (padded ++ [x]) := if_pos hx
        simp only [hpush] at h
        cases h

/-- A value of the type of the slot that is not stored leaves everything as it was. -/
theorem store_value_of_error (hx : x.typeOf = st.type) (h : (st.store s v x).result = .error f) :
    (st.store s v x).value = v := by
  cases st with
  | member m => exact (Written.attempt_error h).2
  | indexed m index label => exact (Written.attempt_error h).2
  | element index item o =>
    cases v with
    | seq k t items =>
      simp only [store] at h ⊢
      split
      · next hk =>
        rw [if_pos hk] at h
        have hys := writeItem_items_of_error hx (Prod.ext rfl h)
        exact congrArg (Value.seq k t) hys
      · next hk =>
        rw [if_neg hk] at h
        split
        · next hw => rw [hw] at h; cases h
        · rfl
    | leaf | absent | present | map | record => rfl
  | entry key label t o =>
    cases v with
    | map k t u entries =>
      simp only [store] at h ⊢
      split
      · next hc => rw [if_pos hc] at h; cases h
      · rfl
    | leaf | absent | present | seq | record => rfl

/-- A write through a step that fails leaves everything as it was. -/
theorem write_value_of_error (h : (st.write s v y).result = .error f) :
    (st.write s v y).value = v := by
  unfold write at h ⊢
  split
  · next x hx =>
    rw [hx] at h
    exact store_value_of_error (Ty.typeOf_prepare hx) h
  · rfl

end Step

/-! ## Walks -/

/-- A site whose member, if it is one, is a member of some record. -/
def Site.Listed (s : Schema) : Site → Prop
  | .value _ _ => True
  | .index m _ => m.Known s

namespace Evaluator

variable {ev : Evaluator} {payload : Payload} {site : Site} {b : Atom} {st : Step} {v : Value}
  {f : Fault}

/-- Whatever the reason, a payload that is not stored at the last step of a path leaves everything
as it was. -/
theorem deliver_value_of_error (h : (ev.deliver payload st v).result = .error f) :
    (ev.deliver payload st v).value = v := by
  rw [deliver_eq] at h ⊢
  split
  · next y hy =>
    rw [hy] at h
    exact Step.write_value_of_error h
  · rfl

/-- What is left of a value by a walk that does nothing but ask the steps on its way for their
places. -/
inductive Asked (ev : Evaluator) : Site → List Atom → Value → Value → Prop
  /-- The walk stops. -/
  | stop {site : Site} {atoms : List Atom} {v : Value} : ev.Asked site atoms v v
  /-- An atom leads to the index of a member. -/
  | index {site next : Site} {a : Atom} {rest : List Atom} {v w : Value}
      (hres : ev.resolve site a = .ok (.site next)) (h : ev.Asked next rest v w) :
      ev.Asked site (a :: rest) v w
  /-- A step is asked. -/
  | step {site : Site} {a : Atom} {rest : List Atom} {st : Step} {v u w : Value}
      (hres : ev.resolve site a = .ok (.step st)) (hu : st.Asked v u)
      (h : ev.Asked site (a :: rest) u w) : ev.Asked site (a :: rest) v w
  /-- The walk goes on at the place of a step. -/
  | inside {site : Site} {a : Atom} {rest : List Atom} {st : Step} {v u x : Value} {p : Place u}
      (hres : ev.resolve site a = .ok (.step st)) (hp : st.place v = .ok (.place u p))
      (h : ev.Asked (.value p.value.typeOf st.origin) rest p.value x) :
      ev.Asked site (a :: rest) v (p.fill x)

theorem known_of_resolve {r : Resolved} (hsite : site.Listed ev.schema)
    (h : ev.resolve site b = .ok r) :
    (∃ st, r = .step st ∧ ∀ m, st.member? = some m → m.Known ev.schema) ∨
      ∃ next, r = .site next ∧ next.Listed ev.schema := by
  cases site with
  | index m u =>
    simp only [resolve] at h
    split at h
    · cases h
      refine .inl ⟨_, rfl, fun m' hm => ?_⟩
      cases hm
      exact hsite
    · cases h
  | value u o =>
    cases u with
    | leaf | option => cases h
    | seq | map =>
      simp only [resolve] at h
      split at h
      · cases h
        refine .inl ⟨_, rfl, fun m hm => ?_⟩
        cases hm
      · cases h
    | record path =>
      simp only [resolve] at h
      split at h
      · cases h
      · next m hm =>
        obtain ⟨md, hmd, hm⟩ := Option.bind_eq_some_iff.1 hm
        have hknown : m.Known ev.schema := ⟨_, md, b.text, hmd, hm⟩
        split at h
        · cases h; exact .inr ⟨_, rfl, hknown⟩
        · cases h
          refine .inl ⟨_, rfl, fun m' hm' => ?_⟩
          cases hm'
          exact hknown

/-- Where getters leave records alone, asking changes nothing. -/
theorem Asked.eq {atoms : List Atom} {w : Value} (hlaw : ev.schema.LeavesRecords)
    (h : ev.Asked site atoms v w) (hsite : site.Listed ev.schema) : w = v := by
  have hstep {site : Site} {a : Atom} {st : Step} (hsite : site.Listed ev.schema)
      (hres : ev.resolve site a = .ok (.step st)) : st.LeavesValue := by
    obtain ⟨_, he, hknown⟩ | ⟨_, he, -⟩ := known_of_resolve hsite hres
    · cases he
      refine Step.leavesValue fun m hm => ?_
      obtain ⟨t, hof⟩ := hknown m hm
      exact hlaw t m hof
    · cases he
  induction h with
  | stop => rfl
  | index hres _ ih =>
    obtain ⟨_, he, -⟩ | ⟨_, he, hnext⟩ := known_of_resolve hsite hres
    · cases he
    · cases he
      exact ih hnext
  | step hres hu _ ih => rw [ih hsite, hu.eq (hstep hsite hres)]
  | @inside _ _ _ _ _ _ _ p hres hp _ ih =>
    rw [ih trivial, p.fill_value]
    exact hstep hsite hres _ _ hp

/-- An evaluator for records whose getter fills their slot when it is asked for its place. -/
def filling : Evaluator :=
  ⟨⟨[Shelf.line, .ofParts [Shelf.line] "Cache" true [.skipped "line" (.option (.record "Line"))]
    [⟨"getLine", .option (.record "Line"), .getter (·.getSlot 0)
      fun r => .of ((r.setSlot 0 (.present Shelf.line.fresh)).atSlot? 0), .empty⟩]], []⟩, .empty⟩

-- Such a getter is seen in the root although the write fails at its last step.
set_option maxRecDepth 10000 in
example : filling.set "line.bogus" (.value none)
    (.record "Cache" [.absent (.record "Line")]) =
      ⟨.record "Cache" [.present Shelf.line.fresh], [.setting],
        .error (.noSuchMember "bogus" (.record "Line"))⟩ := rfl

end Evaluator

end ObjectPath
