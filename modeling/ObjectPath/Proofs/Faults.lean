import ObjectPath.Proofs.Atomicity

/-!
# Causes of faults

A fault has one cause (`Fault.cause`), and each operation fails from few causes: a conversion
because of a converter, the preparation of a value because of the value, the creation of a missing
value because of the path.  In particular a string that was converted is of the wanted type
(`Registry.typeOf_parse`), so strings do not fit a slot only where their number does not
(`Registry.parseStrings_error`, `Registry.prepare_parseStrings_error`).

Nothing is assumed of schemas, members and converters here.
-/

namespace ObjectPath

/-- What is to blame for a fault. -/
inductive Cause
  /-- The text of the expression. -/
  | text
  /-- The path: it leads nowhere, or to something that cannot be created. -/
  | path
  /-- A converter, or that there is none. -/
  | converter
  /-- The payload: it does not fit the slot at the end of the path. -/
  | payload
  /-- The members on the way: one cannot be read or written or lacks its index, or a walk does not
  find what its types promise. -/
  | internal
deriving DecidableEq, Repr

/-- The cause of a fault of a path. -/
def PathFault.cause : PathFault → Cause
  | .notAnIndex _ | .indexTooLarge _ _ | .outOfBounds _ _ => .path
  | .nothingLeft | .noIndex _ | .wrongContainer _ | .stillNull _ => .internal

/-- The cause of a fault. -/
def Fault.cause : Fault → Cause
  | .badSyntax _ => .text
  | .malformedPath f => f.cause
  | .noSuchMember _ _ | .missingIndex _ | .instantiation _ => .path
  | .noConverter _ | .conversion _ _ _ => .converter
  | .arity _ _ | .typeMismatch _ _ _ => .payload
  | .unreadable _ | .unwritable _ => .internal

/-- A fault that is met on the way to a slot. -/
def Fault.OnWay (f : Fault) : Prop := f.cause = .path ∨ f.cause = .converter

theorem Fault.OnWay.of_path {f : Fault} (h : f.cause = .path) : f.OnWay := .inl h

theorem Fault.OnWay.ne_internal {f : Fault} (h : f.OnWay) : f.cause ≠ .internal := by
  rcases h with h | h <;> simp [h]

theorem Fault.OnWay.ne_payload {f : Fault} (h : f.OnWay) : f.cause ≠ .payload := by
  rcases h with h | h <;> simp [h]

section Faults

variable {r : Registry} {o : Option Converter} {t item : Ty} {raw : String} {raws : List String}
  {f : Fault} {label : String} {v : Value} {vs : List Value}

/-! ## Conversions -/

namespace Registry

/-- What a string was converted to is of the wanted type, whatever the converter makes. -/
theorem typeOf_convert (h : r.convert o t raw = .ok v) : v.typeOf = t := by
  obtain ⟨-, rfl, rfl⟩ | ⟨c, x, -, -, hfit⟩ := Registry.convert_ok h
  · rfl
  · exact Ty.typeOf_fit hfit

theorem typeOf_parse : ∀ {t : Ty} {v : Value}, r.parse o raw t = .ok v → v.typeOf = t := by
  intro t
  induction t with
  | option t ih =>
    intro v h
    simp only [parse] at h
    split at h
    · cases h; rfl
    · split at h
      · cases h
      · next x hx =>
        rw [Value.wrap, if_pos (ih hx)] at h
        cases h
        exact congrArg Ty.option (ih hx)
  | leaf | seq | map | record => intro v h; exact typeOf_convert h

theorem typeOf_parseItems (h : r.parseItems o item raws = .ok vs) :
    ∀ v ∈ vs, v.typeOf = item := by
  induction raws generalizing vs with
  | nil => cases h; simp
  | cons raw raws ih =>
    simp only [parseItems] at h
    split at h
    · cases h
    · next x hx =>
      split at h
      · cases h
      · next xs hxs =>
        cases h
        exact List.forall_mem_cons.2 ⟨typeOf_parse hx, ih hxs⟩

theorem convert_error (h : r.convert o t raw = .error f) : f.cause = .converter := by
  unfold convert at h
  cases o with
  | some c =>
    simp only at h
    split at h
    · cases h; rfl
    · split at h
      · cases h
      · cases h; rfl
  | none =>
    simp only at h
    split at h
    · cases h
    · split at h
      · split at h
        · cases h; rfl
        · split at h
          · cases h
          · cases h; rfl
      · cases h; rfl

/-- A string fails to convert because of a converter only: what the converter for the inner type
made can be put in an optional slot. -/
theorem parse_error : ∀ {t : Ty} {f : Fault}, r.parse o raw t = .error f →
    f.cause = .converter := by
  intro t
  induction t with
  | option t ih =>
    intro f h
    simp only [parse] at h
    split at h
    · cases h
    · split at h
      · next hx => cases h; exact ih hx
      · next x hx =>
        rw [Value.wrap, if_pos (typeOf_parse hx)] at h
        cases h
  | leaf | seq | map | record => intro f h; exact convert_error h

theorem parseItems_error (h : r.parseItems o item raws = .error f) : f.cause = .converter := by
  induction raws with
  | nil => cases h
  | cons raw raws ih =>
    simp only [parseItems] at h
    split at h
    · next hx => cases h; exact parse_error hx
    · split at h
      · next hxs => cases h; exact ih hxs
      · cases h

/-- Strings fail to convert because of a converter, or because there are several for a slot that
takes one. -/
theorem parseStrings_error (h : r.parseStrings o t label raws = .error f) :
    f.cause = .converter ∨
      f = .arity label raws.length ∧ 2 ≤ raws.length ∧ ∀ k item, t.declared ≠ .seq k item := by
  unfold parseStrings at h
  split at h
  · split at h
    · next hxs => cases h; exact .inl (parseItems_error hxs)
    · next k item _ _ hxs =>
      rw [Value.collect_of_typeOf (typeOf_parseItems hxs)] at h
      cases h
  · next hseq =>
    split at h
    · cases h
    · split at h
      · next hx => cases h; exact .inl (parse_error hx)
      · cases h
    · next hnil hone =>
      cases h
      cases raws with
      | nil => exact absurd rfl hnil
      | cons raw raws =>
        cases raws with
        | nil => exact absurd rfl (hone raw)
        | cons => exact .inr ⟨rfl, by simp, hseq⟩

theorem format_error (h : r.format o v = .error f) : f.cause = .converter := by
  unfold format at h
  cases o with
  | some c =>
    simp only at h
    split at h
    · cases h
    · cases h; rfl
  | none =>
    simp only at h
    split at h
    · cases h
    · split at h
      · split at h
        · cases h
        · cases h; rfl
      · cases h; rfl

end Registry

/-! ## Values for a slot -/

theorem Ty.prepareNull_error (h : t.prepareNull label = .error f) :
    f = .typeMismatch label t .null ∧ t.isOptional = false := by
  cases t with
  | option t => cases h
  | leaf | seq | map | record => cases h; exact ⟨rfl, rfl⟩

theorem Ty.prepare_error {y : Option Value} (h : t.prepare label y = .error f) :
    f.cause = .payload := by
  cases y with
  | none => obtain ⟨rfl, -⟩ := Ty.prepareNull_error h; rfl
  | some v =>
    simp only [Ty.prepare] at h
    split at h
    · cases h
    · split at h
      · obtain ⟨rfl, -⟩ := Ty.prepareNull_error h; rfl
      · split at h
        · cases h
        · cases h; rfl
      · cases h; rfl
      · cases h; rfl

/-- What strings were converted to fits the slot, unless there was no string at all for a slot that
cannot be null. -/
theorem Registry.prepare_parseStrings_error {y : Option Value}
    (hy : r.parseStrings o t label raws = .ok y) (h : t.prepare label y = .error f) :
    raws = [] ∧ f = .typeMismatch label t .null ∧ t.isOptional = false ∧
      ∀ k item, t.declared ≠ .seq k item := by
  have hfits : ∀ {x : Value}, x.typeOf = t.declared → t.prepare label (some x) ≠ .error f := by
    intro x hx hp
    obtain ⟨z, hz⟩ := Ty.exists_fit hx
    rw [Ty.prepare_of_fit label hz] at hp
    cases hp
  unfold Registry.parseStrings at hy
  split at hy
  · next k item hd =>
    split at hy
    · cases hy
    · next xs hxs =>
      rw [Value.collect_of_typeOf (typeOf_parseItems hxs)] at hy
      cases hy
      exact absurd h (hfits hd.symm)
  · next hseq =>
    split at hy
    · cases hy
      obtain ⟨rfl, hopt⟩ := Ty.prepareNull_error h
      exact ⟨rfl, rfl, hopt, hseq⟩
    · split at hy
      · cases hy
      · next x hx =>
        cases hy
        rw [Ty.prepare_of_fit label (if_pos (typeOf_parse hx))] at h
        cases h
    · cases hy

/-! ## Paths -/

theorem Evaluator.cause_of_parse_error {source : String} (h : Evaluator.parse source = .error f) :
    f.cause = .text := by
  unfold Evaluator.parse at h
  split at h
  · cases h
  · cases h; rfl

theorem requiredLength_error {i : Nat} (h : requiredLength i label = .error f) :
    f.cause = .path := by
  unfold requiredLength at h
  split at h
  · cases h
  · cases h; rfl

theorem Evaluator.resolve_error {ev : Evaluator} {site : Site} {a : Atom}
    (h : ev.resolve site a = .error f) : f.OnWay := by
  cases site with
  | index m u =>
    simp only [Evaluator.resolve] at h
    split at h
    · cases h
    · next hp => cases h; exact .inr (Registry.parse_error hp)
  | value u o =>
    cases u with
    | leaf | option => cases h; exact .of_path rfl
    | seq k item =>
      simp only [Evaluator.resolve] at h
      split at h
      · cases h
      · cases h; exact .of_path rfl
    | map k key value =>
      simp only [Evaluator.resolve] at h
      split at h
      · cases h
      · next hp => cases h; exact .inr (Registry.parse_error hp)
    | record path =>
      simp only [Evaluator.resolve] at h
      split at h
      · cases h; exact .of_path rfl
      · split at h <;> cases h

end Faults

/-! ## Expressions -/

namespace Evaluator

variable {ev : Evaluator} {source : String} {root : Value} {t : Ty} {e : EvalError}

theorem get_error (h : ev.get source root = .error e) : ev.reading source root = .error e := by
  cases hr : ev.reading source root with
  | error e' =>
    simp only [get, hr, bind, Except.bind] at h
    exact congrArg Except.error (Except.error.inj h)
  | ok r => cases r <;> simp only [get, hr, bind, Except.bind] at h <;> cases h

theorem getValue_error (h : ev.getValue source t root = .error e) :
    ev.reading source root = .error e ∨ e.fault.cause = .payload := by
  cases hr : ev.reading source root with
  | error e' =>
    simp only [getValue, hr, bind, Except.bind] at h
    exact .inl (congrArg Except.error (Except.error.inj h))
  | ok r =>
    simp only [getValue, hr, bind, Except.bind] at h
    cases r with
    | null label => cases h
    | found x s =>
      simp only at h
      split at h
      · cases h
      · cases h; exact .inr rfl

theorem getString_error (h : ev.getString source root = .error e) :
    ev.reading source root = .error e ∨ e.fault.cause = .converter := by
  cases hr : ev.reading source root with
  | error e' =>
    simp only [getString, hr, bind, Except.bind] at h
    exact .inl (congrArg Except.error (Except.error.inj h))
  | ok r =>
    simp only [getString, hr, bind, Except.bind] at h
    cases r with
    | null label => cases h
    | found x s =>
      simp only at h
      cases hformat : ev.converters.format s.override? x with
      | ok text => rw [hformat] at h; cases h
      | error f =>
        rw [hformat] at h
        cases h
        exact .inr (Registry.format_error hformat)

end Evaluator

namespace Step

variable {s : Schema} {st : Step} {item : Ty} {v x : Value} {items ys : List Value} {f : Fault}
  {n i : Nat}

/-- Nothing is created because of the path only. -/
theorem create_error {next : Atom} (h : st.create s next = .error f) : f.cause = .path := by
  simp only [create] at h
  split at h
  · split at h
    · split at h
      · cases h
      · cases h; rfl
    · split at h
      · cases h; rfl
      · split at h
        · next hr => cases h; exact requiredLength_error hr
        · split at h
          · cases h; rfl
          · split at h
            · cases h
            · cases h; rfl
  · split at h
    · cases h
    · cases h; rfl

theorem pad_error (h : st.pad s item n items = (ys, .error f)) :
    f.cause ≠ .internal := by
  induction n generalizing items with
  | zero => cases h
  | succ n ih =>
    simp only [pad] at h
    split at h
    · cases h; simp [Fault.cause]
    · split at h
      · exact ih h
      · cases h; simp [Fault.cause]

theorem writeItem_error (h : st.writeItem s item items i x = (ys, .error f)) :
    f.cause ≠ .internal := by
  simp only [writeItem] at h
  split at h
  · split at h
    · cases h
    · cases h; simp [Fault.cause]
  · split at h
    · next hr => cases h; simp [requiredLength_error hr]
    · split at h
      · next hp => cases h; exact pad_error hp
      · split at h
        · cases h
        · cases h; simp [Fault.cause]

theorem writeArrayItem_error (h : st.writeArrayItem items i x = .error f) :
    f.cause ≠ .internal := by
  unfold writeArrayItem at h
  split at h
  · split at h
    · cases h
    · cases h; simp [Fault.cause]
  · cases h; simp [Fault.cause, PathFault.cause]

end Step

end ObjectPath
