import ObjectPath.Proofs.Steps

/-!
# Walks of writes

A write approaches each step but the last: it creates the value behind it if it is missing, and
lengthens an array that is too short (`Evaluator.approach`).  Then it goes on behind the step
(`Evaluator.descend`), and at the last one it stores its payload.  The equations of reads and writes
are stated once here, with all that lengthening an array can do (`Evaluator.lengthen_spec`).

A write keeps a value typed at whatever point it stops (`Evaluator.hasType_write`).
-/

namespace ObjectPath

/-! ## Outcomes in sequence -/

namespace Written

variable {w : Written} {next : Value → Written} {f : Fault}

theorem andThen_of_ok (h : w.result = .ok ()) :
    (w.andThen next).value = (next w.value).value ∧
      (w.andThen next).result = (next w.value).result := by
  unfold andThen
  rw [h]
  exact ⟨rfl, rfl⟩

theorem andThen_of_error (h : w.result = .error f) :
    (w.andThen next).value = w.value ∧ (w.andThen next).result = .error f := by
  unfold andThen
  rw [h]
  exact ⟨rfl, rfl⟩

theorem andThen_ok (h : (w.andThen next).result = .ok ()) :
    w.result = .ok () ∧ (next w.value).result = .ok () := by
  cases hw : w.result with
  | ok => rw [(andThen_of_ok hw).2] at h; exact ⟨rfl, h⟩
  | error f => rw [(andThen_of_error hw).2] at h; cases h

/-- What holds of the value left behind and is kept by what follows holds in the end. -/
theorem andThen_value (P : Value → Prop) (hw : P w.value) (hnext : ∀ v, P v → P (next v).value) :
    P (w.andThen next).value := by
  cases h : w.result with
  | ok => rw [(andThen_of_ok h).1]; exact hnext _ hw
  | error f => rw [(andThen_of_error h).1]; exact hw

end Written

/-! ## Arrays that are too short -/

/-- An array that is too short for the next atom, what is left of it when its items are moved out,
and the longer one they are moved to. -/
inductive Outgrown (s : Schema) (next : Atom) : Value → Value → Value → Prop
  | mk {item : Ty} {items : List Value} {i : Nat} {d : Value} (hi : next.index? = some i)
      (hshort : items.length ≤ i) (hbound : i + 1 < UInt64.size) (hd : s.default? item = some d) :
      Outgrown s next (.seq .boxed item items) (.seq .boxed item [])
        (.seq .boxed item (items ++ List.replicate (i + 1 - items.length) d))

namespace Outgrown

variable {s : Schema} {next : Atom} {array left longer : Value} {t : Ty}

theorem left_unique {left' longer' : Value} (h : Outgrown s next array left longer)
    (h' : Outgrown s next array left' longer') : left = left' := by
  cases h
  cases h'
  rfl

theorem hasType_left (h : Outgrown s next array left longer) (ha : HasType s array t) :
    HasType s left t := by
  cases h
  cases ha
  exact .seq nofun

theorem hasType_longer (hs : s.Typed) (h : Outgrown s next array left longer)
    (ha : HasType s array t) : HasType s longer t := by
  cases h with
  | mk _ _ _ hd =>
    cases ha with
    | seq hitems =>
      refine .seq fun z hz => ?_
      rcases List.mem_append.1 hz with hz | hz
      · exact hitems z hz
      · rw [List.eq_of_mem_replicate hz]
        exact hasType_default hs hd

end Outgrown

/-! ## Asking for a place -/

/-- What is left of a value when a step has been asked for its place, or not even that. -/
inductive Step.Asked (st : Step) (v : Value) : Value → Prop
  | unasked : st.Asked v v
  | left {o : Offer} (h : st.place v = .ok o) : st.Asked v o.left

namespace Step.Asked

variable {s : Schema} {t : Ty} {st : Step} {v w : Value}

theorem hasType (hs : s.Typed) (hst : st.Fits s t) (hv : HasType s v t) (h : st.Asked v w) :
    HasType s w t := by
  cases h with
  | unasked => exact hv
  | left ho => exact hasType_left hs hst hv ho

theorem eq (hleaves : st.LeavesValue) (h : st.Asked v w) : w = v := by
  cases h with
  | unasked => rfl
  | left ho => exact hleaves v _ ho

end Step.Asked

namespace Evaluator

variable {ev : Evaluator} {payload : Payload} {site next : Site} {a b : Atom} {rest : List Atom}
  {st : Step} {v w : Value} {f : Fault} {t : Ty} {p : Place w}

/-! ## Equations -/

/-- Makes what a step leads to ready for the next atom. -/
def approach (ev : Evaluator) (s : Step) (next : Atom) (v : Value) : Written :=
  (ev.fillIn s next v).andThen (ev.lengthen s next)

/-- Goes on with a write behind a step. -/
def descend (ev : Evaluator) (payload : Payload) (s : Step) (rest : List Atom) (v : Value) :
    Written :=
  match s.place v with
  | .error f => .failed v f
  | .ok (.nothing v) => .failed v (.malformedPath (.stillNull s.label))
  | .ok (.place _ p) =>
    (ev.write payload p.value (.value p.value.typeOf s.origin) rest).within p.fill

theorem write_error (h : ev.resolve site a = .error f) :
    ev.write payload v site (a :: rest) = .failed v f := by
  rw [write, h]

theorem write_site (h : ev.resolve site a = .ok (.site next)) :
    ev.write payload v site (a :: rest) = ev.write payload v next rest := by
  rw [write, h]

theorem write_last (h : ev.resolve site a = .ok (.step st)) :
    ev.write payload v site [a] = ev.deliver payload st v := by
  rw [write, h]
  rfl

theorem write_step (h : ev.resolve site a = .ok (.step st)) :
    ev.write payload v site (a :: b :: rest) =
      (ev.approach st b v).andThen (ev.descend payload st (b :: rest)) := by
  rw [write, h]
  rfl

theorem read_error (h : ev.resolve site a = .error f) :
    ev.read v site (a :: rest) = .error f := by
  rw [read, h]

theorem read_refused (h : ev.resolve site a = .ok (.step st)) (hr : st.read v = .error f) :
    ev.read v site (a :: rest) = .error f := by
  simp only [read, h, hr]

theorem read_site (h : ev.resolve site a = .ok (.site next)) :
    ev.read v site (a :: rest) = ev.read v next rest := by
  rw [read, h]

theorem read_null (h : ev.resolve site a = .ok (.step st)) (hr : st.read v = .ok none) :
    ev.read v site (a :: rest) = .ok (.null st.label) := by
  simp only [read, h, hr]

theorem read_last (h : ev.resolve site a = .ok (.step st)) (hr : st.read v = .ok (some w)) :
    ev.read v site [a] = .ok (.found w st) := by
  simp only [read, h, hr, List.isEmpty_nil, if_true]

theorem read_step (h : ev.resolve site a = .ok (.step st)) (hr : st.read v = .ok (some w)) :
    ev.read v site (a :: b :: rest) = ev.read w (.value w.typeOf st.origin) (b :: rest) := by
  rw [read, h]
  simp only [hr]
  rfl

/-- A walk that finds a value reads one behind its first step. -/
theorem read_of_found {x : Value} {s : Step} (hres : ev.resolve site a = .ok (.step st))
    (h : ev.read v site (a :: rest) = .ok (.found x s)) :
    ∃ y, st.read v = .ok (some y) := by
  cases hr : st.read v with
  | error f => rw [read_refused hres hr] at h; cases h
  | ok o =>
    cases o with
    | none => rw [read_null hres hr] at h; cases h
    | some y => exact ⟨y, rfl⟩

theorem terminal_error (h : ev.resolve site a = .error f) :
    ev.terminal site (a :: rest) = .error f := by
  cases site <;> rw [terminal, h]

theorem terminal_site (h : ev.resolve site a = .ok (.site next)) :
    ev.terminal site (a :: rest) = ev.terminal next rest := by
  cases site <;> rw [terminal, h]

theorem terminal_last (h : ev.resolve site a = .ok (.step st)) :
    ev.terminal site [a] = .ok st := by
  cases site <;> (rw [terminal, h]; rfl)

theorem terminal_step (h : ev.resolve site a = .ok (.step st)) :
    ev.terminal site (a :: b :: rest) =
      ev.terminal (.value st.type.declared st.origin) (b :: rest) := by
  cases site <;> (rw [terminal, h]; rfl)

theorem descend_of_place (h : st.place v = .ok (.place w p)) :
    ev.descend payload st rest v =
      (ev.write payload p.value (.value p.value.typeOf st.origin) rest).within p.fill := by
  rw [descend, h]

/-- Going on behind a step succeeds only at the place it leads to. -/
theorem descend_ok (h : (ev.descend payload st rest v).result = .ok ()) :
    ∃ w, ∃ p : Place w, st.place v = .ok (.place w p) ∧
      (ev.write payload p.value (.value p.value.typeOf st.origin) rest).result = .ok () := by
  unfold descend at h
  split at h
  · cases h
  · cases h
  · next w p hp => exact ⟨w, p, hp, h⟩

theorem set_of_parse {source : String} {atoms : List Atom} (h : parse source = .ok atoms)
    (ev : Evaluator) (payload : Payload) (v : Value) :
    (ev.set source payload v).value = (ev.write payload v (start v) atoms).value ∧
      (ev.set source payload v).result = (ev.write payload v (start v) atoms).result := by
  simp only [set, h]
  exact ⟨rfl, rfl⟩

theorem set_of_parse_error {source : String} (h : parse source = .error f) :
    ev.set source payload v = .failed v f := by
  simp only [set, h]

/-! ## Creating and lengthening -/

theorem fillIn_of_place (h : st.place v = .ok (.place w p)) : ev.fillIn st b v = .done w := by
  rw [fillIn, h]

theorem fillIn_of_create {x : Value} (hp : st.place v = .ok (.nothing w))
    (hx : st.create ev.schema b = .ok x) :
    ev.fillIn st b v = (st.write ev.schema w (some x)).after (.created x.typeOf st.label) := by
  rw [fillIn, hp]
  simp only [hx]

theorem approach_of_place (ev : Evaluator) (b : Atom) (h : st.place v = .ok (.place w p)) :
    (ev.approach st b v).value = (ev.lengthen st b w).value ∧
      (ev.approach st b v).result = (ev.lengthen st b w).result := by
  unfold approach
  rw [fillIn_of_place h]
  exact Written.andThen_of_ok rfl

/-- Lengthening does nothing but ask for the place, or fails with no more than that, or moves the
items of the array to a longer one and stores that. -/
theorem lengthen_spec (ev : Evaluator) (st : Step) (b : Atom) (v : Value) :
    (∃ w, st.Asked v w ∧ ev.lengthen st b v = .done w) ∨
      (∃ w f, st.Asked v w ∧ ev.lengthen st b v = .failed w f ∧
        (st.place v = .error f ∨ ∃ i, requiredLength i st.label = .error f)) ∨
      ∃ w, ∃ (p : Place w) (left longer : Value) (n : Nat), st.place v = .ok (.place w p) ∧
        Outgrown ev.schema b p.value left longer ∧
        ev.lengthen st b v = (st.write ev.schema (p.fill left) (some longer)).after
          (.grew st.label n) := by
  unfold lengthen
  split
  · exact .inl ⟨v, .unasked, rfl⟩
  · next i hi =>
    split
    · next f hf => exact .inr (.inl ⟨v, f, .unasked, rfl, .inl hf⟩)
    · next w hw => exact .inl ⟨w, .left hw, rfl⟩
    · next w p hp =>
      have hasked : st.Asked v w := .left hp
      split
      · next item items harray =>
        split
        · exact .inl ⟨w, hasked, rfl⟩
        · next hlt =>
          unfold requiredLength
          by_cases hbound : i + 1 < UInt64.size
          · rw [if_pos hbound]
            dsimp only
            split
            · exact .inl ⟨w, hasked, rfl⟩
            · next left longer hr =>
              obtain ⟨rfl, d, hd, rfl⟩ := Value.resized_spec hr (by omega)
              refine .inr (.inr ⟨w, p, _, _, i + 1, hp, ?_, rfl⟩)
              rw [harray]
              exact .mk hi (by omega) hbound hd
          · rw [if_neg hbound]
            exact .inr (.inl ⟨w, _, hasked, rfl, .inr ⟨i, if_neg hbound⟩⟩)
      · exact .inl ⟨w, hasked, rfl⟩

/-- Where asking for the place changes nothing, lengthening does nothing, or fails before it changes
anything, or moves the items of the array to a longer one and stores that. -/
theorem lengthen_spec_of_leaves (ev : Evaluator) (b : Atom) (hleaves : st.LeavesValue) (v : Value) :
    ev.lengthen st b v = .done v ∨
      (∃ f, ev.lengthen st b v = .failed v f ∧
        (st.place v = .error f ∨ ∃ i, requiredLength i st.label = .error f)) ∨
      ∃ (p : Place v) (left longer : Value) (n : Nat), st.place v = .ok (.place v p) ∧
        Outgrown ev.schema b p.value left longer ∧
        ev.lengthen st b v = (st.write ev.schema (p.fill left) (some longer)).after
          (.grew st.label n) := by
  obtain ⟨w, hw, h⟩ | ⟨w, f, hw, h, hf⟩ | ⟨w, p, left, longer, n, hp, h⟩ :=
    ev.lengthen_spec st b v
  · exact .inl (hw.eq hleaves ▸ h)
  · exact .inr (.inl ⟨f, hw.eq hleaves ▸ h, hf⟩)
  · obtain rfl : w = v := hleaves v _ hp
    exact .inr (.inr ⟨p, left, longer, n, hp, h⟩)

/-- An array that is too short is made longer. -/
theorem lengthen_of_outgrown {left longer : Value} (hp : st.place v = .ok (.place w p))
    (h : Outgrown ev.schema b p.value left longer) :
    ∃ n, ev.lengthen st b v = (st.write ev.schema (p.fill left) (some longer)).after
      (.grew st.label n) := by
  generalize ha : p.value = array at h
  cases h with
  | @mk item items i d hi hshort hbound hd =>
    refine ⟨i + 1, ?_⟩
    have hresized : Value.resized ev.schema item items (i + 1) =
        ([], some (items ++ List.replicate (i + 1 - items.length) d)) := by
      rw [Value.resized, hd]
      simp only
      rw [List.take_of_length_le (by omega)]
    simp only [lengthen, hi, hp, ha, requiredLength, if_neg (Nat.not_lt.2 hshort), if_pos hbound,
      hresized]

/-! ## Typed walks -/

theorem hasType_fillIn (hev : ev.Typed) (hst : st.Fits ev.schema t) (hv : HasType ev.schema v t) :
    HasType ev.schema (ev.fillIn st b v).value t := by
  unfold fillIn
  split
  · exact hv
  · next hp => exact Step.hasType_left hev.schema hst hv hp
  · next hp =>
    have hw := Step.hasType_left hev.schema hst hv hp
    split
    · exact hw
    · next x hx =>
      refine st.hasType_write hev.schema hst hw fun y hy => ?_
      cases hy
      exact (Step.hasType_create hev.schema hx).self

theorem hasType_lengthen (hev : ev.Typed) (hst : st.Fits ev.schema t)
    (hv : HasType ev.schema v t) : HasType ev.schema (ev.lengthen st b v).value t := by
  obtain ⟨w, hw, h⟩ | ⟨w, f, hw, h, -⟩ | ⟨w, p, left, longer, n, hp, hout, h⟩ :=
    ev.lengthen_spec st b v
  · rw [h]; exact hw.hasType hev.schema hst hv
  · rw [h]; exact hw.hasType hev.schema hst hv
  · have htyped := Step.typed_place hev.schema hst hv hp
    rw [h]
    refine st.hasType_write hev.schema hst (htyped.fill _ (hout.hasType_left htyped.value))
      fun y hy => ?_
    cases hy
    exact (hout.hasType_longer hev.schema htyped.value).self

theorem hasType_approach (hev : ev.Typed) (hst : st.Fits ev.schema t)
    (hv : HasType ev.schema v t) : HasType ev.schema (ev.approach st b v).value t :=
  Written.andThen_value (HasType ev.schema · t) (hasType_fillIn hev hst hv) fun _ =>
    hasType_lengthen hev hst

/-- What a payload stores in a slot. -/
def bound (ev : Evaluator) (payload : Payload) (s : Step) : Except Fault (Option Value) :=
  match payload with
  | .value x => .ok x
  | .strings raw => ev.converters.parseStrings s.override? s.type s.label raw

theorem deliver_eq (ev : Evaluator) (payload : Payload) (st : Step) (v : Value) :
    ev.deliver payload st v =
      match ev.bound payload st with
      | .ok x => st.write ev.schema v x
      | .error f => .failed v f := by
  cases payload <;> rfl

theorem hasType_bound (hev : ev.Typed) (hpay : payload.Typed ev.schema)
    (hst : st.Fits ev.schema t) {y : Option Value} (h : ev.bound payload st = .ok y) :
    ∀ x, y = some x → HasType ev.schema x x.typeOf := by
  cases payload with
  | value y =>
    cases h
    rintro x rfl
    exact hpay
  | strings raw =>
    exact hasType_parseStrings hev.converters (fun c hc => Step.typed_override hev.schema hst hc) h

theorem hasType_deliver (hev : ev.Typed) (hpay : payload.Typed ev.schema)
    (hst : st.Fits ev.schema t) (hv : HasType ev.schema v t) :
    HasType ev.schema (ev.deliver payload st v).value t := by
  rw [deliver_eq]
  split
  · next y hy => exact st.hasType_write hev.schema hst hv (hasType_bound hev hpay hst hy)
  · exact hv

/-- The walk goes on at a site that fits what stands at the place. -/
theorem fits_place (hev : ev.Typed) (hst : st.Fits ev.schema t) (hv : HasType ev.schema v t)
    (hp : st.place v = .ok (.place w p)) :
    HasType ev.schema p.value st.type.declared ∧
      (Site.value p.value.typeOf st.origin).Fits ev.schema st.type.declared := by
  have h := (Step.typed_place hev.schema hst hv hp).value
  exact ⟨h, by rw [h.typeOf_eq]; exact fits_below hst _⟩

/-- A write keeps a value typed, whether it succeeds or not. -/
theorem hasType_write (hev : ev.Typed) (hpay : payload.Typed ev.schema) (atoms : List Atom) :
    ∀ {v : Value} {t : Ty} {site : Site}, HasType ev.schema v t → site.Fits ev.schema t →
      HasType ev.schema (ev.write payload v site atoms).value t := by
  induction atoms with
  | nil => intro v t site hv _; rw [write]; exact hv
  | cons a rest ih =>
    intro v t site hv hsite
    cases hres : ev.resolve site a with
    | error f => rw [write_error hres]; exact hv
    | ok r =>
      cases r with
      | site next => rw [write_site hres]; exact ih hv (fits_site hev hsite hres)
      | step st =>
        have hst := fits_step hev hsite hres
        cases rest with
        | nil => rw [write_last hres]; exact hasType_deliver hev hpay hst hv
        | cons b rest =>
          rw [write_step hres]
          refine Written.andThen_value (HasType ev.schema · t) (hasType_approach hev hst hv)
            fun v' hv' => ?_
          unfold descend
          split
          · exact hv'
          · next hp => exact Step.hasType_left hev.schema hst hv' hp
          · next p hp =>
            obtain ⟨hp', hsite'⟩ := fits_place hev hst hv' hp
            exact (Step.typed_place hev.schema hst hv' hp).fill _ (ih hp' hsite')

/-- A write does not change where the walks of a value start. -/
theorem start_write (hev : ev.Typed) (hpay : payload.Typed ev.schema)
    (hv : HasType ev.schema v v.typeOf) (atoms : List Atom) :
    start (ev.write payload v (start v) atoms).value = start v :=
  congrArg (Site.value · none) (hasType_write hev hpay atoms hv (fits_start v)).typeOf_eq

end Evaluator

end ObjectPath
