import ObjectPath.Evaluator

/-!
# Well-typed values

`HasType s v t` says that a value is of a type through and through: every slot, item, key and entry
is of the type that is declared for it.  `Schema.Typed` and `Registry.Typed` say the same of what a
schema and a registry bring along, the accessor methods and the converters included.

The main statements are that strings are converted to values of the wanted type and that values fit
the slot they are prepared for (`hasType_parseStrings`, `hasType_prepare`).
-/

namespace ObjectPath

/-! ## Values of a type -/

/-- The leaves that there are: an integer lies in the range of its type, and a floating point number
is a pattern of the width of its format. -/
def Leaf.InRange : Leaf → Prop
  | .int t n => t.Holds n
  | .float t pattern => pattern < Nat.pow 2 t.bits
  | .bool _ | .char _ | .text _ | .named _ _ => True

instance (l : Leaf) : Decidable l.InRange := by
  cases l <;> unfold Leaf.InRange <;> infer_instance

/-- A value of a type, down to its leaves. -/
inductive HasType (s : Schema) : Value → Ty → Prop
  | leaf {l : Leaf} (h : l.InRange) : HasType s (.leaf l) (.leaf l.type)
  | absent (t : Ty) : HasType s (.absent t) (.option t)
  | present {v : Value} {t : Ty} (h : HasType s v t) : HasType s (.present v) (.option t)
  | seq {k : SeqKind} {item : Ty} {items : List Value} (h : ∀ v ∈ items, HasType s v item) :
      HasType s (.seq k item items) (.seq k item)
  | map {k : MapKind} {key value : Ty} {entries : List (Value × Value)}
      (hk : ∀ e ∈ entries, HasType s e.1 key) (hv : ∀ e ∈ entries, HasType s e.2 value) :
      HasType s (.map k key value entries) (.map k key value)
  | record {p : String} {d : RecordDecl} {xs : List Value} (hd : s.record? p = some d)
      (hlen : xs.length = d.slots.length)
      (h : ∀ (i : Nat) (x : Value) (slot : Slot), xs[i]? = some x → d.slots[i]? = some slot →
        HasType s x slot.type) : HasType s (.record p xs) (.record p)

namespace HasType

variable {s : Schema} {v w : Value} {t u : Ty}

theorem typeOf_eq (h : HasType s v t) : v.typeOf = t := by
  induction h with
  | leaf | absent | seq | map | record => rfl
  | present _ ih => simp [Value.typeOf, ih]

/-- A value has no other type than its own. -/
theorem self (h : HasType s v t) : HasType s v v.typeOf := by rwa [h.typeOf_eq]

theorem of_typeOf (h : HasType s v v.typeOf) (ht : v.typeOf = t) : HasType s v t := ht ▸ h

theorem items {k : SeqKind} {item : Ty} {items : List Value}
    (h : HasType s (.seq k item items) t) : ∀ v ∈ items, HasType s v item := by
  cases h; assumption

/-- What stands in an optional slot is of its inner type. -/
theorem unwrapped (h : HasType s v t) (hv : v.unwrapped = some w) : HasType s w t.declared := by
  cases h with
  | absent => cases hv
  | present h => cases hv; exact h
  | leaf h => cases hv; exact .leaf h
  | seq h => cases hv; exact .seq h
  | map hk hv' => cases hv; exact .map hk hv'
  | record hd hlen h => cases hv; exact .record hd hlen h

/-- A value of a record type has the slots that are declared, and their values are typed. -/
theorem slot {p : String} {xs : List Value} {d : RecordDecl} {i : Nat} {x : Value} {sl : Slot}
    (h : HasType s (.record p xs) t) (hd : s.record? p = some d) (hx : xs[i]? = some x)
    (hs : d.slots[i]? = some sl) : HasType s x sl.type := by
  cases h with
  | record hd' _ h =>
    rw [hd] at hd'
    cases hd'
    exact h i x sl hx hs

theorem setSlot {p : String} {xs : List Value} {d : RecordDecl} {i : Nat} {y : Value} {sl : Slot}
    (h : HasType s (.record p xs) t) (hd : s.record? p = some d) (hs : d.slots[i]? = some sl)
    (hy : HasType s y sl.type) : HasType s (.record p (xs.set i y)) t := by
  cases h with
  | record hd' hlen h =>
    rw [hd] at hd'
    cases hd'
    refine .record hd (by simpa using hlen) fun j x slot hx hslot => ?_
    rw [List.getElem?_set] at hx
    split at hx
    · next hij =>
      subst hij
      rw [hs] at hslot
      split at hx
      · cases hx; cases hslot; exact hy
      · cases hx
    · exact h j x slot hx hslot

theorem setItem {k : SeqKind} {item : Ty} {xs : List Value} (i : Nat)
    (h : HasType s (.seq k item xs) t) (hw : HasType s w item) :
    HasType s (.seq k item (xs.set i w)) t := by
  cases h with
  | seq h =>
    refine .seq fun x hx => ?_
    rcases List.mem_or_eq_of_mem_set hx with hx | rfl
    · exact h x hx
    · exact hw

end HasType

/-! ## Checking types -/

/-- Whether a leaf is in range. -/
def Leaf.inRange (l : Leaf) : Bool := decide l.InRange

mutual

/-- Whether a value is of a type. -/
def Value.checks (s : Schema) : Value → Ty → Bool
  | .leaf l, t => decide (t = .leaf l.type) && l.inRange
  | .absent u, t => decide (t = .option u)
  | .present v, .option t => v.checks s t
  | .seq k item items, t => decide (t = .seq k item) && checksItems s item items
  | .map k key value entries, t =>
    decide (t = .map k key value) && checksEntries s key value entries
  | .record p xs, t =>
    match s.record? p with
    | some d => decide (t = .record p) && checksSlots s xs d.slots
    | none => false
  | .present _, _ => false

/-- Whether all values of a list are of a type. -/
def Value.checksItems (s : Schema) (item : Ty) : List Value → Bool
  | [] => true
  | v :: vs => v.checks s item && checksItems s item vs

/-- Whether all entries of a list have keys and values of two types. -/
def Value.checksEntries (s : Schema) (key value : Ty) : List (Value × Value) → Bool
  | [] => true
  | (k, v) :: es => k.checks s key && v.checks s value && checksEntries s key value es

/-- Whether the values of a list are of the types of the slots. -/
def Value.checksSlots (s : Schema) : List Value → List Slot → Bool
  | [], [] => true
  | v :: vs, sl :: slots => v.checks s sl.type && checksSlots s vs slots
  | _, _ => false

end

mutual

theorem HasType.of_checks {s : Schema} :
    ∀ (v : Value) (t : Ty), v.checks s t = true → HasType s v t
  | .leaf l, t, h => by
    simp only [Value.checks, Leaf.inRange, Bool.and_eq_true, decide_eq_true_eq] at h
    exact h.1 ▸ .leaf h.2
  | .absent u, t, h => by
    simp only [Value.checks, decide_eq_true_eq] at h
    exact h ▸ .absent u
  | .present v, t, h => by
    cases t with
    | option t => exact .present (of_checks v t (by simpa [Value.checks] using h))
    | leaf | seq | map | record => simp [Value.checks] at h
  | .seq k item items, t, h => by
    simp only [Value.checks, Bool.and_eq_true, decide_eq_true_eq] at h
    exact h.1 ▸ .seq (of_checksItems items item h.2)
  | .map k key value entries, t, h => by
    simp only [Value.checks, Bool.and_eq_true, decide_eq_true_eq] at h
    have he := of_checksEntries entries key value h.2
    exact h.1 ▸ .map (fun e hm => (he e hm).1) fun e hm => (he e hm).2
  | .record p xs, t, h => by
    simp only [Value.checks] at h
    split at h
    · next d hd =>
      simp only [Bool.and_eq_true, decide_eq_true_eq] at h
      have hs := of_checksSlots xs d.slots h.2
      exact h.1 ▸ .record hd hs.1 hs.2
    · cases h

theorem HasType.of_checksItems {s : Schema} : ∀ (vs : List Value) (item : Ty),
    Value.checksItems s item vs = true → ∀ v ∈ vs, HasType s v item
  | [], _, _ => by simp
  | v :: vs, item, h => by
    simp only [Value.checksItems, Bool.and_eq_true] at h
    exact List.forall_mem_cons.2 ⟨of_checks v item h.1, of_checksItems vs item h.2⟩

theorem HasType.of_checksEntries {s : Schema} :
    ∀ (es : List (Value × Value)) (key value : Ty), Value.checksEntries s key value es = true →
      ∀ e ∈ es, HasType s e.1 key ∧ HasType s e.2 value
  | [], _, _, _ => by simp
  | (k, v) :: es, key, value, h => by
    simp only [Value.checksEntries, Bool.and_eq_true] at h
    exact List.forall_mem_cons.2 ⟨⟨of_checks k key h.1.1, of_checks v value h.1.2⟩,
      of_checksEntries es key value h.2⟩

theorem HasType.of_checksSlots {s : Schema} :
    ∀ (vs : List Value) (slots : List Slot), Value.checksSlots s vs slots = true →
      vs.length = slots.length ∧
        ∀ (i : Nat) (x : Value) (slot : Slot), vs[i]? = some x → slots[i]? = some slot →
          HasType s x slot.type
  | [], [], _ => by simp
  | [], _ :: _, h => by simp [Value.checksSlots] at h
  | _ :: _, [], h => by simp [Value.checksSlots] at h
  | v :: vs, sl :: slots, h => by
    simp only [Value.checksSlots, Bool.and_eq_true] at h
    obtain ⟨hlen, hs⟩ := of_checksSlots vs slots h.2
    refine ⟨by simp [hlen], fun i x slot hx hslot => ?_⟩
    cases i with
    | zero =>
      simp only [List.getElem?_cons_zero, Option.some.injEq] at hx hslot
      exact hx ▸ hslot ▸ of_checks v sl.type h.1
    | succ i => exact hs i x slot (by simpa using hx) (by simpa using hslot)

end

/-! ## Typed schemas and registries -/

/-- A converter may give a value of another type than the wanted one, but it gives a value. -/
def Converter.Typed (s : Schema) (c : Converter) : Prop :=
  ∀ t raw v, c.parse t raw = .ok v → HasType s v v.typeOf

/-- The converters of a registry are typed. -/
def Registry.Typed (s : Schema) (r : Registry) : Prop := ∀ t c, r.get? t = some c → c.Typed s

/-- The converter among some tags is typed. -/
def Tags.Typed (s : Schema) (ts : Tags) : Prop :=
  ∀ tag c, ts.get? .convert = some tag → tag.converter? = some c → c.Typed s

/-- A place inside a value of type `whole` at which a value of type `part` stands. -/
structure Place.Typed (s : Schema) (whole part : Ty) {v : Value} (p : Place v) : Prop where
  value : HasType s p.value part
  fill : ∀ w, HasType s w part → HasType s (p.fill w) whole

/-- An offer that leaves a value of type `whole` behind, with a place for values of type `part`. -/
def Offer.Typed (s : Schema) (whole part : Ty) : Offer → Prop
  | .nothing v => HasType s v whole
  | .place _ p => p.Typed s whole part

/-- What an accessor method of a record keeps to if its value is of type `type`: it takes and gives
values of the types it declares. -/
def Access.Typed (s : Schema) (record type : Ty) : Access → Prop
  | .getter get offer => ∀ r, HasType s r record →
      (∀ v, get r = some v → HasType s v type) ∧ (offer r).Typed s record type
  | .setter set => ∀ r v, HasType s r record → HasType s v type → HasType s (set r v) record
  | .indexedGetter index get offer => ∀ r i, HasType s r record → HasType s i index →
      (∀ v, get r i = some v → HasType s v type) ∧ (offer r i).Typed s record type
  | .indexedSetter index set => ∀ r i v, HasType s r record → HasType s i index →
      HasType s v type → HasType s (set r i v) record

/-- A record whose slots, fields and accessor methods are of the types they declare. -/
structure RecordDecl.Typed (s : Schema) (d : RecordDecl) : Prop where
  initial : ∀ slot ∈ d.slots, HasType s slot.initial slot.type
  field : ∀ f ∈ d.members.fields, ∃ slot, d.slots[f.slot]? = some slot ∧ slot.type = f.type
  method : ∀ m ∈ d.members.methods, m.access.Typed s (.record d.path) m.type
  fieldTags : ∀ f ∈ d.members.fields, f.tags.Typed s
  methodTags : ∀ m ∈ d.members.methods, m.tags.Typed s

/-- A schema whose records and default values are of the types they declare. -/
structure Schema.Typed (s : Schema) : Prop where
  record : ∀ p d, s.record? p = some d → d.Typed s
  leaf : ∀ p d v, s.leaf? p = some d → d.default? = some v → HasType s v (.leaf (.named p))

/-- An evaluator with a typed schema and typed converters. -/
structure Evaluator.Typed (ev : Evaluator) : Prop where
  schema : ev.schema.Typed
  converters : ev.converters.Typed ev.schema

/-- A payload whose value is typed. -/
def Payload.Typed (s : Schema) : Payload → Prop
  | .value (some v) => HasType s v v.typeOf
  | .value none | .strings _ => True

/-! ## Default values -/

theorem Leaf.inRange_zero (t : LeafTy) : t.zero.InRange := by
  cases t with
  | int t => cases t <;> exact ⟨by decide, by decide⟩
  | float t => cases t <;> decide
  | bool | char | text | named => trivial

theorem LeafTy.type_zero (t : LeafTy) : t.zero.type = t := by cases t <;> rfl

theorem hasType_zero (s : Schema) (t : LeafTy) : HasType s (.leaf t.zero) (.leaf t) := by
  have h : HasType s (.leaf t.zero) (.leaf t.zero.type) := .leaf (Leaf.inRange_zero t)
  rwa [LeafTy.type_zero] at h

theorem Schema.record?_path {s : Schema} {p : String} {d : RecordDecl} (h : s.record? p = some d) :
    d.path = p := by
  simpa using List.find?_some h

/-- A fresh record is a value of its type. -/
theorem hasType_fresh {s : Schema} (hs : s.Typed) {p : String} {d : RecordDecl}
    (hd : s.record? p = some d) : HasType s d.fresh (.record p) := by
  rw [RecordDecl.fresh, Schema.record?_path hd]
  refine .record hd (by simp) fun i x slot hx hslot => ?_
  simp only [List.getElem?_map, hslot, Option.map_some, Option.some.injEq] at hx
  exact hx ▸ (hs.record p d hd).initial slot (List.mem_of_getElem? hslot)

/-- The default value of a type is of the type. -/
theorem hasType_default {s : Schema} (hs : s.Typed) {t : Ty} {v : Value}
    (h : s.default? t = some v) : HasType s v t := by
  cases t with
  | leaf t =>
    cases t with
    | named p =>
      obtain ⟨d, hd, hv⟩ := Option.bind_eq_some_iff.1 h
      exact hs.leaf p d v hd hv
    | bool | char | text | int | float => cases h; exact hasType_zero s _
  | option t => cases h; exact .absent t
  | seq k t => cases h; exact .seq (by simp)
  | map k t u => cases h; exact .map (by simp) (by simp)
  | record p =>
    simp only [Schema.default?] at h
    split at h
    · next d hd =>
      split at h
      · cases h; exact hasType_fresh hs hd
      · cases h
    · cases h

/-! ## Fitting and converting -/

section Fitting

variable {s : Schema} {v x : Value} {t target : Ty}

theorem Ty.fit_ok (h : target.fit v = .ok x) :
    v.typeOf = target ∧ x = v ∨ target = .option v.typeOf ∧ x = .present v := by
  unfold Ty.fit at h
  split at h
  · next ht => cases h; exact .inl ⟨ht, rfl⟩
  · cases target with
    | option u =>
      simp only at h
      split at h
      · next hu => cases h; exact .inr ⟨hu ▸ rfl, rfl⟩
      · cases h
    | leaf | seq | map | record => cases h

/-- A value that does not fit is handed back. -/
theorem Ty.fit_error (h : target.fit v = .error x) :
    x = v ∧ v.typeOf ≠ target ∧ target ≠ .option v.typeOf := by
  unfold Ty.fit at h
  split at h
  · cases h
  · next ht =>
    cases target with
    | option u =>
      simp only at h
      split at h
      · cases h
      · next hu => cases h; exact ⟨rfl, ht, fun he => hu (Ty.option.inj he).symm⟩
    | leaf | seq | map | record => cases h; exact ⟨rfl, ht, nofun⟩

/-- A slot takes every value of its type behind an optional layer. -/
theorem Ty.exists_fit (h : v.typeOf = target.declared) : ∃ x, target.fit v = .ok x := by
  cases target with
  | option t =>
    have ht : v.typeOf = t := h
    unfold Ty.fit
    by_cases hv : v.typeOf = .option t
    · exact ⟨v, if_pos hv⟩
    · exact ⟨.present v, by rw [if_neg hv]; exact if_pos ht⟩
  | leaf | seq | map | record => exact ⟨v, if_pos h⟩

theorem Ty.prepare_of_fit (member : String) (h : target.fit v = .ok x) :
    target.prepare member (some v) = .ok x := by
  rw [prepare, h]

theorem hasType_fit (hv : HasType s v v.typeOf) (h : target.fit v = .ok x) :
    HasType s x target := by
  rcases Ty.fit_ok h with ⟨ht, rfl⟩ | ⟨rfl, rfl⟩
  · exact hv.of_typeOf ht
  · exact .present hv

theorem hasType_prepareNull {member : String} (h : target.prepareNull member = .ok x) :
    HasType s x target := by
  cases target with
  | option u => cases h; exact .absent u
  | leaf | seq | map | record => cases h

/-- What a slot takes for a value is of the type of the slot. -/
theorem hasType_prepare {member : String} {y : Option Value}
    (hy : ∀ v, y = some v → HasType s v v.typeOf) (h : target.prepare member y = .ok x) :
    HasType s x target := by
  cases y with
  | none => exact hasType_prepareNull h
  | some v =>
    have hv := hy v rfl
    simp only [Ty.prepare] at h
    split at h
    · next hf => cases h; exact hasType_fit hv hf
    · next w hf =>
      obtain ⟨rfl, -, -⟩ := Ty.fit_error hf
      split at h
      · exact hasType_prepareNull h
      · next k item y =>
        have hitem := (hv.items y (by simp)).self
        split at h
        · next hf' => cases h; exact hasType_fit hitem hf'
        · cases h
      · cases h
      · cases h

theorem hasType_wrap (hv : HasType s v v.typeOf) (h : v.wrap t = .ok x) :
    HasType s x (.option t) := by
  unfold Value.wrap at h
  split at h
  · next ht => cases h; exact .present (hv.of_typeOf ht)
  · cases h

/-- Items of one type make a sequence. -/
theorem Value.collect_of_typeOf {item : Ty} {items : List Value} (h : ∀ v ∈ items, v.typeOf = item)
    (k : SeqKind) : collect k item items = .ok (.seq k item items) := by
  have hnone : stranger? item items = none :=
    List.find?_eq_none.2 fun v hv => by simp [h v hv]
  rw [collect, hnone]

theorem hasType_collect {k : SeqKind} {item : Ty} {items : List Value}
    (hi : ∀ v ∈ items, HasType s v v.typeOf) (h : Value.collect k item items = .ok x) :
    HasType s x (.seq k item) := by
  unfold Value.collect at h
  split at h
  · cases h
  · next hn =>
    cases h
    refine .seq fun v hv => (hi v hv).of_typeOf ?_
    simpa using List.find?_eq_none.1 hn v hv

end Fitting

section Converting

variable {s : Schema} {r : Registry} {override : Option Converter} {x : Value}

/-- A string converts to a text as it is, or to what a converter makes of it if that fits. -/
theorem Registry.convert_ok {t : Ty} {raw : String} (h : r.convert override t raw = .ok x) :
    override = none ∧ t = .text ∧ x = .text raw ∨
      ∃ c v, (override = some c ∨ override = none ∧ r.get? t = some c) ∧
        c.parse t raw = .ok v ∧ t.fit v = .ok x := by
  unfold Registry.convert at h
  cases override with
  | some c =>
    simp only at h
    split at h
    · cases h
    · next v hv =>
      split at h
      · next hf => cases h; exact .inr ⟨c, v, .inl rfl, hv, hf⟩
      · cases h
  | none =>
    simp only at h
    split at h
    · next ht => cases h; exact .inl ⟨rfl, ht, rfl⟩
    · split at h
      · next c hc =>
        split at h
        · cases h
        · next v hv =>
          split at h
          · next hf => cases h; exact .inr ⟨c, v, .inr ⟨rfl, hc⟩, hv, hf⟩
          · cases h
      · cases h

theorem hasType_convert (hr : r.Typed s) (ho : ∀ c, override = some c → c.Typed s) {t : Ty}
    {raw : String} (h : r.convert override t raw = .ok x) : HasType s x t := by
  obtain ⟨-, rfl, rfl⟩ | ⟨c, v, hc, hv, hf⟩ := Registry.convert_ok h
  · exact .leaf (l := .text raw) trivial
  · have hct : c.Typed s := hc.elim (ho c) fun hg => hr t c hg.2
    exact hasType_fit (hct t raw v hv) hf

/-- What a string converts to is of the wanted type. -/
theorem hasType_parse (hr : r.Typed s) (ho : ∀ c, override = some c → c.Typed s) {raw : String} :
    ∀ {t : Ty} {x : Value}, r.parse override raw t = .ok x → HasType s x t := by
  intro t
  induction t with
  | option t ih =>
    intro x h
    simp only [Registry.parse] at h
    split at h
    · cases h; exact .absent t
    · split at h
      · cases h
      · next v hv =>
        split at h
        · next hw => cases h; exact hasType_wrap (ih hv).self hw
        · cases h
  | leaf | seq | map | record =>
    intro x h
    exact hasType_convert hr ho (by simpa [Registry.parse] using h)

theorem hasType_parseItems (hr : r.Typed s) (ho : ∀ c, override = some c → c.Typed s) {item : Ty}
    {raw : List String} : ∀ {vs : List Value}, r.parseItems override item raw = .ok vs →
      ∀ v ∈ vs, HasType s v item := by
  induction raw with
  | nil => intro vs h; cases h; simp
  | cons a raw ih =>
    intro vs h
    simp only [Registry.parseItems] at h
    split at h
    · cases h
    · next v hv =>
      split at h
      · cases h
      · next vs' hvs =>
        cases h
        exact List.forall_mem_cons.2 ⟨hasType_parse hr ho hv, ih hvs⟩

/-- What strings convert to for a slot is a value. -/
theorem hasType_parseStrings (hr : r.Typed s) (ho : ∀ c, override = some c → c.Typed s)
    {target : Ty} {member : String} {raw : List String} {y : Option Value}
    (h : r.parseStrings override target member raw = .ok y) :
    ∀ v, y = some v → HasType s v v.typeOf := by
  unfold Registry.parseStrings at h
  intro v hv
  subst hv
  split at h
  · split at h
    · cases h
    · next items hitems =>
      split at h
      · next w hw =>
        cases h
        exact (hasType_collect (fun v hv => (hasType_parseItems hr ho hitems v hv).self) hw).self
      · cases h
  · split at h
    · cases h
    · split at h
      · cases h
      · next w hw => cases h; exact (hasType_parse hr ho hw).self
    · cases h

end Converting

end ObjectPath
