import ObjectPath.Proofs.Padding

/-!
# Slots that a step opens

A step opens a value if there is a slot for it, or can be one (`Step.Opens`): any key opens a map,
and behind the end of a sequence there can be an item.  What is found in the slot is its content, or
the default value of its type if it is missing (`Step.held?`); and the value with other content in
the slot has default items in front of an item that is new (`Step.put`).

So a slot that is opened is like one that is there: what was put in it is found there
(`Step.Opens.held?_put`), and of two contents the second one stays (`Step.Opens.put_put`).
-/

namespace ObjectPath

/-! ## Putting content in a slot -/

/-- The last item of a list that became longer is a default one. -/
theorem paddedTo_set_default {items : List Value} {i : Nat} (h : items.length ≤ i) (d : Value) :
    (paddedTo items i d).set i d = paddedTo items i d := by
  have hcount : i + 1 - items.length = i - items.length + 1 := by omega
  rw [paddedTo_set_of_le h, paddedTo, hcount, List.replicate_succ', List.append_assoc]

namespace Entries

variable {k : MapKind} {key : Value} {es : List (Value × Value)}

/-- Replacing the value of a new entry is putting the entry there with the other value. -/
theorem replace_place (hnew : get? key es = none) (v w : Value) :
    replace key w (place k key v es) = place k key w es := by
  induction es with
  | nil => simp [place, replace]
  | cons e es ih =>
    obtain ⟨k', u⟩ := e
    unfold get? at hnew
    split at hnew
    · cases hnew
    · next hne =>
      simp only [place]
      split
      · simp [replace]
      · rw [replace, if_neg hne, ih hnew]

theorem replace_insert (k : MapKind) (key v w : Value) (es : List (Value × Value)) :
    replace key w (insert k key v es) = insert k key w es := by
  unfold insert
  split
  · exact replace_replace key v w es
  · next h => exact replace_place (Option.not_isSome_iff_eq_none.1 h) v w

end Entries

namespace Step

/-- The default item, or any value where there is none. -/
def filler (s : Schema) (item : Ty) : Value := (s.default? item).getD (.absent item)

/-- The value with other content in the slot a step leads to.  There are default items in front of
an item that a sequence did not have. -/
def put (s : Schema) (st : Step) (v c : Value) : Value :=
  match st, v with
  | member (.field f), .record path xs => .record path (xs.set f.slot c)
  | element i item _, .seq k t xs => .seq k t ((paddedTo xs i (filler s item)).set i c)
  | entry key _ _ _, .map k a b es => .map k a b (Entries.insert k key c es)
  | _, v => v

/-- What the slot a step leads to holds; a slot that is missing counts as one with the default
value. -/
def held? (s : Schema) (st : Step) (v : Value) : Option Value :=
  match st.slot v with
  | .ok (some c) => some c
  | .ok none => s.default? st.type
  | .error _ => none

/-- A step to a field, an item or an entry that a value has or can get.  Without a default item a
sequence can only get the item behind its last one. -/
inductive Opens (s : Schema) : Step → Value → Prop
  | field {f : Field} {path : String} {xs : List Value} (h : f.slot < xs.length) :
      Opens s (.member (.field f)) (.record path xs)
  | item {i : Nat} {k : SeqKind} {t : Ty} {o : Option Member} {xs : List Value}
      (h : i < xs.length ∨ i + 1 < UInt64.size ∧
        (k.growable = true ∧ i = xs.length ∨ (s.default? t).isSome = true)) :
      Opens s (.element i t o) (.seq k t xs)
  | entry {key : Value} {label : String} {k : MapKind} {a b : Ty} {o : Option Member}
      {es : List (Value × Value)} (hkey : key.typeOf = a) :
      Opens s (.entry key label b o) (.map k a b es)

/-- A step that does not lead behind the end of an array. -/
def Within : Step → Value → Prop
  | element i _ _, .seq k _ xs => k.growable = true ∨ i < xs.length
  | _, _ => True

variable {s : Schema} {st : Step} {v c x y : Value} {t : Ty} {q : Place v} {b : Atom}

theorem Opens.leadsInto (h : st.Opens s v) : st.LeadsInto v := by
  cases h with
  | field => exact .field
  | item => exact .item
  | entry hkey => exact .entry hkey

/-- A slot that is there is opened, and filling it is putting content in it. -/
theorem LeadsInto.opens (h : st.LeadsInto v) (hq : st.slotPlace v = .ok (.place v q)) (s : Schema) :
    st.Opens s v ∧ st.held? s v = some q.value ∧ ∀ c, q.fill c = st.put s v c := by
  have hheld : st.held? s v = some q.value := by
    obtain ⟨o, ho, hslot⟩ := h.slot_eq_slotPlace
    obtain rfl := Offer.of_eq_place (Except.ok.inj (ho.symm.trans hq))
    unfold held?
    rw [hslot]
    rfl
  cases h with
  | field =>
    obtain ⟨hx, hfill⟩ := Value.atSlot?_record (Offer.of_eq_place (Except.ok.inj hq))
    exact ⟨.field (List.getElem?_eq_some_iff.1 hx).1, hheld, hfill⟩
  | @item i k item o xs =>
    obtain ⟨hx, hfill⟩ := Value.atIndex?_seq (Offer.of_eq_place (Except.ok.inj hq))
    have hlt := (List.getElem?_eq_some_iff.1 hx).1
    refine ⟨.item (.inl hlt), hheld, fun c => ?_⟩
    rw [hfill, put, paddedTo_of_lt hlt]
  | @entry key label k a b o es hkey =>
    obtain ⟨hx, hfill⟩ := Value.atKey?_map (Offer.of_eq_place (Except.ok.inj hq))
    refine ⟨.entry hkey, hheld, fun c => ?_⟩
    rw [hfill, put, Entries.insert, hx]
    rfl

/-- What was put in a slot stands there, and putting something else there leaves no trace of it. -/
theorem Opens.exists_place (h : st.Opens s v) (c : Value) :
    st.LeadsInto (st.put s v c) ∧ ∃ q : Place (st.put s v c),
      st.slotPlace (st.put s v c) = .ok (.place (st.put s v c) q) ∧ q.value = c ∧
        ∀ y, q.fill y = st.put s v y := by
  cases h with
  | @field f path xs hlt =>
    have hset := List.getElem?_set_self (a := c) hlt
    rw [← Value.map_value_atSlot? path] at hset
    obtain ⟨q, hq, hc⟩ := Option.map_eq_some_iff.1 hset
    refine ⟨.field, q, congrArg (Except.ok <| Offer.of ·) hq, hc, fun y => ?_⟩
    rw [(Value.atSlot?_record hq).2, List.set_set, put]
  | @item i k item o xs =>
    have hwritten := (grown_set xs i (filler s item) c).written
    obtain ⟨q, hq, hc, hfill⟩ := Value.exists_atIndex? k item hwritten
    refine ⟨.item, q, congrArg (Except.ok <| Offer.of ·) hq, hc, fun y => ?_⟩
    rw [hfill, List.set_set, put]
  | @entry key label k a b o es hkey =>
    have hget : Entries.get? key (Entries.insert k key c es) = some c := by
      rw [Entries.get?_insert, if_pos rfl]
    rw [← Value.map_value_atKey? key k a b] at hget
    obtain ⟨q, hq, hc⟩ := Option.map_eq_some_iff.1 hget
    refine ⟨.entry hkey, q, congrArg (Except.ok <| Offer.of ·) hq, hc, fun y => ?_⟩
    rw [(Value.atKey?_map hq).2, Entries.replace_insert, put]

section Opens

variable (h : st.Opens s v)

include h

theorem Opens.put (c : Value) : st.Opens s (st.put s v c) := by
  obtain ⟨hinto, q, hq, -, -⟩ := h.exists_place c
  exact (hinto.opens hq s).1

theorem Opens.held?_put (c : Value) : st.held? s (st.put s v c) = some c := by
  obtain ⟨hinto, q, hq, hc, -⟩ := h.exists_place c
  rw [(hinto.opens hq s).2.1, hc]

/-- The second of two contents stays. -/
theorem Opens.put_put (c y : Value) : st.put s (st.put s v c) y = st.put s v y := by
  obtain ⟨hinto, q, hq, -, hfill⟩ := h.exists_place c
  rw [← (hinto.opens hq s).2.2, hfill]

theorem Opens.typeOf_put (c : Value) : (st.put s v c).typeOf = v.typeOf := by
  cases h <;> rfl

theorem Opens.within_put (c : Value) : st.Within (st.put s v c) := by
  cases h with
  | field | entry => trivial
  | @item i k item o xs =>
    refine .inr ?_
    rw [List.length_set, length_paddedTo]
    omega

end Opens

/-- An item is stored behind the last one of a growable sequence, without any in front. -/
theorem store_last {k : SeqKind} {item : Ty} {xs : List Value} {o : Option Member}
    (hk : k.growable = true) (hbound : xs.length + 1 < UInt64.size) (d : Value)
    (hx : x.typeOf = item) :
    (element xs.length item o).store s (.seq k item xs) x =
      .done (.seq k item ((paddedTo xs xs.length d).set xs.length x)) := by
  have hnone : xs[xs.length]? = none := List.getElem?_eq_none (Nat.le_refl _)
  rw [paddedTo_set_of_le (Nat.le_refl _), Nat.sub_self]
  simp only [store, if_pos hk, writeItem, hnone, requiredLength, if_pos hbound, Nat.sub_self, pad,
    Value.push, if_pos hx, List.replicate_zero, List.append_nil]
  rfl

/-- Nothing is stored behind the end of a sequence that cannot get the item. -/
theorem store_closed {k : SeqKind} {item : Ty} {xs : List Value} {i : Nat} {o : Option Member}
    (hle : xs.length ≤ i)
    (h : k.growable = true → i + 1 < UInt64.size →
      ¬ (i = xs.length ∨ (s.default? item).isSome = true)) (x : Value) :
    ∃ f, ((element i item o).store s (.seq k item xs) x).result = .error f := by
  have hnone : xs[i]? = none := List.getElem?_eq_none hle
  unfold store
  by_cases hk : k.growable = true
  · by_cases hbound : i + 1 < UInt64.size
    · obtain ⟨hne, hd⟩ := not_or.1 (h hk hbound)
      obtain ⟨n, hn⟩ : ∃ n, i - xs.length = n + 1 := Nat.exists_eq_add_one.2 (by omega)
      have hd := Option.not_isSome_iff_eq_none.1 hd
      simp only [if_pos hk, writeItem, hnone, requiredLength, if_pos hbound, hn, pad, hd]
      exact ⟨_, rfl⟩
    · simp only [if_pos hk, writeItem, hnone, requiredLength, if_neg hbound]
      exact ⟨_, rfl⟩
  · simp only [if_neg hk, writeArrayItem, hnone]
    exact ⟨_, rfl⟩

/-! ## Typed contents -/

/-- A field leads to a slot of its type in every record of the type. -/
theorem slot_lt_of_typed {f : Field} {path : String} {xs : List Value} (hs : s.Typed)
    (hm : (Member.field f).Of s t) (hv : HasType s (.record path xs) t) : f.slot < xs.length := by
  obtain ⟨p, d, rfl, hd, hmade⟩ := hm.madeOf
  cases hmade with
  | field hf =>
    obtain ⟨sl, hsl, -⟩ := (hs.record p d hd).field f hf
    cases hv with
    | record hd' hlen =>
      cases hd.symm.trans hd'
      rw [hlen]
      exact (List.getElem?_eq_some_iff.1 hsl).1

section Typed

variable (hs : s.Typed) (hst : st.Fits s t) (hv : HasType s v t)

include hs hst hv

theorem hasType_held (hinto : st.LeadsInto v) (hc : st.held? s v = some c) :
    HasType s c st.type := by
  obtain ⟨o, ho, hslot⟩ := hinto.slot_eq_slotPlace
  unfold held? at hc
  rw [hslot] at hc
  cases o with
  | none => exact hasType_default hs hc
  | some q => cases hc; exact (typed_slotPlace hs hst hv ho).value

theorem hasType_put (h : st.Opens s v) (hc : HasType s c st.type) :
    HasType s (st.put s v c) t := by
  cases h with
  | @field f path xs hlt =>
    cases hst with
    | member hm =>
      obtain ⟨p, d, rfl, hd, hmade⟩ := hm.madeOf
      cases hmade with
      | field hf =>
        obtain ⟨sl, hsl, htype⟩ := (hs.record p d hd).field f hf
        obtain rfl : path = p := Ty.record.inj hv.typeOf_eq
        exact hv.setSlot hd hsl (htype ▸ hc)
  | @item i k item o xs hopen =>
    cases hst with
    | element =>
      cases hv.typeOf_eq
      refine .seq fun z hz => ?_
      rcases Nat.lt_or_ge i xs.length with hlt | hle
      · rw [paddedTo_of_lt hlt] at hz
        rcases List.mem_or_eq_of_mem_set hz with hz | rfl
        · exact hv.items z hz
        · exact hc
      · rw [paddedTo_set_of_le hle] at hz
        rcases List.mem_append.1 hz with hz | hz
        · rcases List.mem_append.1 hz with hz | hz
          · exact hv.items z hz
          · -- There are default items in front only where there is one.
            obtain ⟨hne, rfl⟩ := List.mem_replicate.1 hz
            obtain ⟨-, ⟨-, rfl⟩ | hd⟩ := hopen.resolve_left (Nat.not_lt.2 hle)
            · exact absurd (Nat.sub_self _) hne
            · obtain ⟨d, hd⟩ := Option.isSome_iff_exists.1 hd
              rw [filler, hd]
              exact hasType_default hs hd
        · rw [List.mem_singleton.1 hz]
          exact hc
  | entry =>
    cases hst with
    | entry hk =>
      cases hv.typeOf_eq
      exact hv.mapOf hk hc fun e he => Entries.mem_insert he

/-- A value is stored in a slot that is opened, but not behind the end of an array. -/
theorem store_of_opens (h : st.Opens s v) (hwithin : st.Within v) (hx : x.typeOf = st.type) :
    st.store s v x = .done (st.put s v x) := by
  obtain ⟨o, ho, -⟩ := h.leadsInto.slot_eq_slotPlace
  cases o with
  | some q =>
    rw [← (h.leadsInto.opens ho s).2.2]
    exact h.leadsInto.store_eq_done s ho (typed_slotPlace hs hst hv ho).value.typeOf_eq hx
  | none =>
    cases h with
    | @field f path xs hlt =>
      have hslot := Value.map_value_atSlot? path xs f.slot
      rw [Offer.of_eq_nothing (Except.ok.inj ho), List.getElem?_eq_getElem hlt] at hslot
      cases hslot
    | @item i k item o xs hopen =>
      have hnone : xs[i]? = none := by
        rw [← Value.map_value_atIndex? i k item, Offer.of_eq_nothing (Except.ok.inj ho)]
        rfl
      have hle := List.getElem?_eq_none_iff.1 hnone
      have hk := hwithin.resolve_right (Nat.not_lt.2 hle)
      obtain ⟨hbound, hpad⟩ := hopen.resolve_left (Nat.not_lt.2 hle)
      cases hd : s.default? item with
      | some d =>
        rw [put, filler, hd]
        exact store_behind hk hle hbound hd (hasType_default hs hd).typeOf_eq hx
      | none =>
        rw [hd] at hpad
        obtain ⟨-, rfl⟩ := hpad.resolve_right Bool.false_ne_true
        exact store_last hk hbound _ hx
    | @entry key label k a b o es hkey =>
      exact if_pos ⟨hkey, hx⟩

end Typed

end Step

end ObjectPath
