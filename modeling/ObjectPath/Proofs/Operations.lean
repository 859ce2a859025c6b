import ObjectPath.Container
import ObjectPath.Proofs.Fields
import ObjectPath.Proofs.Sharing

/-!
# Operations that take effect in full or not at all

`Operation.Keeps` says what an operation does to a container of a type.  The container stays of the
type.  A value that is offered is accepted exactly if it is of the type that is declared for it, and
is then found where it was put, everything else being where it was; otherwise that very value is
handed back and the container is as it was.  An array gives its items away to a longer or shorter one
unless it lacks default items, and a sequence gives them away in order.

`Operation.keeps_apply` is the statement for one operation, and `Operation.keepsThrough_run` the one
for any number of operations on one container.
-/

namespace ObjectPath

/-! ## What is found in a container -/

/-- The type of what a selector finds in a container of a type. -/
def Ty.part? : Ty → Selector → Option Ty
  | .seq _ item, .index _ => some item
  | .map _ _ value, .key _ => some value
  | .option inner, .content => some inner
  | _, _ => none

namespace Value

/-- What a selector finds in a container. -/
def found? (v : Value) (s : Selector) : Option Value := (v.select s).join.map (·.value)

section Found

variable {s : Selector} {k : SeqKind} {m : MapKind} {item key value : Ty} {i : Nat}

@[simp] theorem found?_seq_index (items : List Value) :
    (seq k item items).found? (.index i) = items[i]? :=
  map_value_atIndex? i k item items

@[simp] theorem found?_map_key (x : Value) (es : List (Value × Value)) :
    (map m key value es).found? (.key x) = Entries.get? x es :=
  map_value_atKey? x m key value es

theorem found?_present_of_ne (hs : s ≠ .content) (v : Value) : (present v).found? s = none := by
  cases s with
  | content => exact absurd rfl hs
  | index | key => rfl

end Found

section Select

variable {c : Value} {sel other : Selector} {p : Place c}

/-- A place that is selected is one of an item, of an entry or of the content of a slot. -/
theorem select_cases (h : c.select sel = some (some p)) :
    (∃ k t items i, c = .seq k t items ∧ sel = .index i ∧ items[i]? = some p.value ∧
        ∀ w, p.fill w = .seq k t (items.set i w)) ∨
      (∃ k t u es key, c = .map k t u es ∧ sel = .key key ∧ Entries.get? key es = some p.value ∧
        ∀ w, p.fill w = .map k t u (Entries.replace key w es)) ∨
      (c = .present p.value ∧ sel = .content ∧ ∀ w, p.fill w = .present w) := by
  cases sel with
  | index i =>
    cases c with
    | seq k t items =>
      obtain ⟨hx, hfill⟩ := atIndex?_seq (Option.some.inj h)
      exact .inl ⟨k, t, items, i, rfl, rfl, hx, hfill⟩
    | leaf | absent | present | map | record => cases h
  | key key =>
    cases c with
    | map k t u es =>
      obtain ⟨hx, hfill⟩ := atKey?_map (Option.some.inj h)
      exact .inr (.inl ⟨k, t, u, es, key, rfl, rfl, hx, hfill⟩)
    | leaf | absent | present | seq | record => cases h
  | content =>
    cases c with
    | present v => cases h; exact .inr (.inr ⟨rfl, rfl, fun _ => rfl⟩)
    | absent | leaf | seq | map | record => cases h

/-- What is put at a selected place is found there. -/
theorem found?_fill_self (h : c.select sel = some (some p)) (w : Value) :
    (p.fill w).found? sel = some w := by
  obtain ⟨k, t, items, i, rfl, rfl, hx, hfill⟩ | ⟨k, t, u, es, key, rfl, rfl, hx, hfill⟩ |
    ⟨-, rfl, hfill⟩ := select_cases h
  · rw [hfill, found?_seq_index, List.getElem?_set_self (List.getElem?_eq_some_iff.1 hx).1]
  · rw [hfill, found?_map_key, Entries.get?_replace_self w hx]
  · rw [hfill]; rfl

/-- What other selectors find stays where it is. -/
theorem found?_fill_of_ne (h : c.select sel = some (some p)) (hne : other ≠ sel) (w : Value) :
    (p.fill w).found? other = c.found? other := by
  obtain ⟨k, t, items, i, rfl, rfl, -, hfill⟩ | ⟨k, t, u, es, key, rfl, rfl, -, hfill⟩ |
    ⟨hc, rfl, hfill⟩ := select_cases h
  · rw [hfill]
    cases other with
    | index j =>
      have hij : i ≠ j := fun hij => hne (hij ▸ rfl)
      rw [found?_seq_index, found?_seq_index, List.getElem?_set_ne hij]
    | key | content => rfl
  · rw [hfill]
    cases other with
    | key x =>
      have hx : x ≠ key := fun hx => hne (hx ▸ rfl)
      rw [found?_map_key, found?_map_key, Entries.get?_replace_of_ne hx]
    | index | content => rfl
  · rw [hfill, found?_present_of_ne hne, hc, found?_present_of_ne hne]

end Select

end Value

/-- A selected place holds a value of the type declared for it, and takes one. -/
theorem HasType.typed_select {s : Schema} {c : Value} {t : Ty} {sel : Selector} {p : Place c}
    (hc : HasType s c t) (h : c.select sel = some (some p)) :
    ∃ u, t.part? sel = some u ∧ p.Typed s t u := by
  obtain ⟨k, item, items, i, rfl, rfl, hx, hfill⟩ | ⟨k, key, value, es, x, rfl, rfl, hx, hfill⟩ |
    ⟨hpres, rfl, hfill⟩ := Value.select_cases h
  · obtain rfl : _ = t := hc.typeOf_eq
    exact ⟨item, rfl, hc.items _ (List.mem_of_getElem? hx), fun w hw => hfill w ▸ hc.setItem i hw⟩
  · obtain rfl : _ = t := hc.typeOf_eq
    refine ⟨value, rfl, hc.value_of_get? hx, fun w hw => hfill w ▸ ?_⟩
    cases hc with
    | map hk hv =>
      exact (HasType.map hk hv).mapOf (hk _ (Entries.mem_of_get? hx)) hw fun _ => Entries.mem_replace
  · rw [hpres] at hc
    cases hc with
    | present hv => exact ⟨_, rfl, hv, fun w hw => hfill w ▸ .present hw⟩

/-! ## What operations keep to -/

/-- The values that an answer hands out. -/
def Answer.values : Answer → List Value
  | value v | rejected v => [v]
  | items vs => vs
  | wrongKind _ | nothing | accepted => []

namespace Operation

/-- What is given to an operation is a value. -/
def Typed (s : Schema) : Operation → Prop
  | put _ v | push v | set v => HasType s v v.typeOf
  | insert key v => HasType s key key.typeOf ∧ HasType s v v.typeOf
  | get _ | drain | resized _ => True

/-- The value that an operation offers to a container. -/
def offer? : Operation → Option Value
  | put _ v | push v | insert _ v | set v => some v
  | get _ | drain | resized _ => none

/-- Whether a container has the operation, and a place for what is put in one. -/
def Applies (op : Operation) (c : Value) : Prop :=
  match op with
  | get sel => (c.select sel).isSome
  | put sel _ => (c.found? sel).isSome
  | push _ => c.typeOf.kind = .list
  | insert _ _ => c.typeOf.kind = .map
  | drain => c.typeOf.kind = .list ∨ c.typeOf.kind = .array
  | resized _ => c.typeOf.kind = .array
  | set _ => True

/-- Whether what an operation offers is of the types that are declared in containers of a type. -/
def Matches (op : Operation) (t : Ty) : Prop :=
  match op, t with
  | put sel v, t => t.part? sel = some v.typeOf
  | push v, .seq _ item => v.typeOf = item
  | insert key v, .map _ k u => key.typeOf = k ∧ v.typeOf = u
  | set v, t => v.typeOf = t
  | _, _ => False

/-- A value is found by a selector in `after`, and everything else is found as in `before`. -/
def PutAt (sel : Selector) (v before after : Value) : Prop :=
  after.found? sel = some v ∧ ∀ other, other ≠ sel → after.found? other = before.found? other

/-- The value that an operation offers is where it belongs, and everything else is where it was. -/
def Stores (op : Operation) (before after : Value) : Prop :=
  match op with
  | put sel v => PutAt sel v before after
  | push v => ∃ n, before.length? = some n ∧ after.length? = some (n + 1) ∧
      PutAt (.index n) v before after
  | insert key v => PutAt (.key key) v before after
  | set v => after = v
  | get _ | drain | resized _ => False

/-- What becomes of a value that is offered: `r` is the container that is left and the answer. -/
structure Settles (op : Operation) (t : Ty) (v c : Value) (r : Value × Answer) : Prop where
  /-- It is accepted exactly if it is of the declared type. -/
  accepted : r.2 = .accepted ↔ op.Matches t
  /-- It is stored then. -/
  stored : op.Matches t → op.Stores c r.1
  /-- Otherwise it is handed back, and the container is as it was. -/
  rejected : ¬op.Matches t → r = (c, .rejected v)

/-- What becomes of an array of some items that is asked for one of `n` items. -/
structure Resizes (s : Schema) (item : Ty) (items : List Value) (n : Nat) (r : Value × Answer) :
    Prop where
  /-- There is no such array exactly if default items are needed and there are none; the array is as
  it was then. -/
  refused : r = (.seq .boxed item items, .nothing) ↔ items.length < n ∧ s.default? item = none
  /-- Otherwise the array is left empty, and the new one holds its items and default ones. -/
  moved : ¬(items.length < n ∧ s.default? item = none) →
    ∃ others, r = (.seq .boxed item [], .value (.seq .boxed item others)) ∧ others.length = n ∧
      others.take items.length = items.take n ∧
        ∀ v ∈ others.drop items.length, s.default? item = some v

/-- What an operation does to a container of a type: `r` is what is left and the answer. -/
structure Keeps (s : Schema) (t : Ty) (op : Operation) (c : Value) (r : Value × Answer) : Prop where
  /-- The container stays of its type. -/
  typed : HasType s r.1 t
  /-- What is handed out is typed too. -/
  handed : ∀ v ∈ r.2.values, HasType s v v.typeOf
  /-- A value that is offered is stored in full or handed back. -/
  settled : ∀ v, op.offer? = some v → op.Applies c → op.Settles t v c r
  /-- Looking up finds what stands there, and nothing changes. -/
  looked : ∀ sel, op = .get sel → r.1 = c ∧ ∀ v, r.2 = .value v ↔ c.found? sel = some v
  resized : ∀ item items n, op = .resized n → c = .seq .boxed item items → Resizes s item items n r
  /-- All items are handed out in order, and none is left. -/
  drained : ∀ k item items, op = .drain → c = .seq k item items →
    r = (.seq k item [], .items items)
  /-- Without the operation or a place nothing changes. -/
  inapplicable : ¬op.Applies c → r.1 = c ∧ (r.2 = .nothing ∨ r.2 = .wrongKind c.typeOf.kind)

section Single

variable {s : Schema} {t item : Ty} {c v key : Value} {sel : Selector} {n : Nat} {op : Operation}
  {r : Value × Answer} {k : SeqKind} {items : List Value}

/-- What there is to show of an operation that offers a value. -/
theorem Keeps.of_offer (ho : op.offer? = some v) (typed : HasType s r.1 t)
    (handed : ∀ v ∈ r.2.values, HasType s v v.typeOf)
    (settled : op.Applies c → op.Settles t v c r)
    (inapplicable : ¬op.Applies c → r.1 = c ∧ (r.2 = .nothing ∨ r.2 = .wrongKind c.typeOf.kind)) :
    Keeps s t op c r where
  typed := typed
  handed := handed
  settled w hw happ := by
    rw [ho] at hw
    cases hw
    exact settled happ
  looked sel' h := by subst h; cases ho
  resized item items n h := by subst h; cases ho
  drained k item items h := by subst h; cases ho
  inapplicable := inapplicable

/-- A value that is offered and accepted. -/
theorem Keeps.of_accepted {c' : Value} (ho : op.offer? = some v) (happ : op.Applies c)
    (hmatch : op.Matches t) (typed : HasType s c' t) (hstores : op.Stores c c') :
    Keeps s t op c (c', .accepted) :=
  .of_offer ho typed (by simp [Answer.values])
    (fun _ => ⟨iff_of_true rfl hmatch, fun _ => hstores, fun h => absurd hmatch h⟩)
    fun h => absurd happ h

/-- A value that is offered and handed back. -/
theorem Keeps.of_rejected (ho : op.offer? = some v) (happ : op.Applies c)
    (hmatch : ¬op.Matches t) (hc : HasType s c t) (hv : HasType s v v.typeOf) :
    Keeps s t op c (c, .rejected v) :=
  .of_offer ho hc (by simpa [Answer.values] using hv)
    (fun _ => ⟨iff_of_false (by simp) hmatch, fun h => absurd h hmatch, fun _ => rfl⟩)
    fun h => absurd happ h

/-- An operation that a container does not have changes nothing. -/
theorem keeps_wrongKind (hc : HasType s c t) (happ : ¬op.Applies c) (hop : ∀ sel, op ≠ get sel) :
    Keeps s t op c (c, .wrongKind c.typeOf.kind) where
  typed := hc
  handed := by simp [Answer.values]
  settled w _ h := absurd h happ
  looked sel' h := absurd h (hop sel')
  resized item items n h hseq := by
    subst h hseq
    exact absurd rfl happ
  drained k item items h hseq := by
    subst h hseq
    refine absurd ?_ happ
    cases hk : k.growable <;> simp [Applies, Value.typeOf, Ty.kind, hk]
  inapplicable _ := ⟨rfl, .inr rfl⟩

/-! ## Places -/

theorem keeps_get (hc : HasType s c t) : Keeps s t (get sel) c ((get sel).apply s c) := by
  cases hsel : c.select sel with
  | none =>
    rw [apply, hsel]
    refine ⟨hc, by simp [Answer.values], nofun, fun sel' h => ?_, nofun, nofun,
      fun _ => ⟨rfl, .inr rfl⟩⟩
    cases h
    simp [Value.found?, hsel]
  | some found =>
    have happ : (get sel).Applies c := by simp [Applies, hsel]
    rw [apply, hsel]
    cases found with
    | none =>
      refine ⟨hc, by simp [Answer.values], nofun, fun sel' h => ?_, nofun, nofun,
        fun h => absurd happ h⟩
      cases h
      simp [Value.found?, hsel]
    | some p =>
      obtain ⟨u, -, hp⟩ := hc.typed_select hsel
      refine ⟨hc, by simpa [Answer.values] using hp.value.self, nofun, fun sel' h => ?_, nofun,
        nofun, fun h => absurd happ h⟩
      cases h
      simp [Value.found?, hsel]

theorem keeps_put (hc : HasType s c t) (hv : HasType s v v.typeOf) :
    Keeps s t (put sel v) c ((put sel v).apply s c) := by
  cases hsel : c.select sel with
  | none =>
    rw [apply, hsel]
    exact keeps_wrongKind hc (by simp [Applies, Value.found?, hsel]) nofun
  | some found =>
    cases found with
    | none =>
      rw [apply, hsel]
      refine .of_offer rfl hc (by simp [Answer.values]) (fun h => absurd h ?_)
        fun _ => ⟨rfl, .inl rfl⟩
      simp [Applies, Value.found?, hsel]
    | some p =>
      obtain ⟨u, hu, hp⟩ := hc.typed_select hsel
      have hmatch : (put sel v).Matches t ↔ v.typeOf = p.value.typeOf := by
        rw [Matches, hu, hp.value.typeOf_eq, Option.some.injEq, eq_comm]
      have happ : (put sel v).Applies c := by simp [Applies, Value.found?, hsel]
      simp only [apply, hsel]
      split
      · next ht =>
        exact .of_accepted rfl happ (hmatch.2 ht)
          (hp.fill v (hv.of_typeOf (ht.trans hp.value.typeOf_eq)))
          ⟨Value.found?_fill_self hsel v, fun _ hne => Value.found?_fill_of_ne hsel hne v⟩
      · next ht => exact .of_rejected rfl happ (fun h => ht (hmatch.1 h)) hc hv

/-! ## Lists -/

/-- A growable sequence appends an item of its item type and hands back any other one. -/
theorem apply_push_seq (hk : k.growable = true) : (push v).apply s (.seq k item items) =
    if v.typeOf = item then (.seq k item (items ++ [v]), .accepted)
    else (.seq k item items, .rejected v) := by
  simp only [apply, hk, if_true, Value.push]
  by_cases ht : v.typeOf = item
  · rw [if_pos ht, if_pos ht]
  · rw [if_neg ht, if_neg ht]

/-- An item that is appended is found behind the others. -/
theorem stores_push : (push v).Stores (.seq k item items) (.seq k item (items ++ [v])) := by
  refine ⟨items.length, rfl, by simp [Value.length?], by simp, fun other hne => ?_⟩
  cases other with
  | index i =>
    have hi : i ≠ items.length := fun hi => hne (hi ▸ rfl)
    simp only [Value.found?_seq_index]
    rcases Nat.lt_or_gt_of_ne hi with hlt | hgt
    · exact List.getElem?_append_left hlt
    · rw [List.getElem?_eq_none (by simp; omega), List.getElem?_eq_none (by omega)]
  | key | content => rfl

theorem keeps_push (hc : HasType s c t) (hv : HasType s v v.typeOf) :
    Keeps s t (push v) c ((push v).apply s c) := by
  cases c with
  | seq k item items =>
    obtain rfl : _ = t := hc.typeOf_eq
    cases hk : k.growable with
    | false =>
      have happ : ¬(push v).Applies (.seq k item items) := by
        simp [Applies, Value.typeOf, Ty.kind, hk]
      have hkeeps := keeps_wrongKind hc happ (by simp)
      simpa [apply, Value.typeOf, Ty.kind, hk] using hkeeps
    | true =>
      have happ : (push v).Applies (.seq k item items) := by
        simp [Applies, Value.typeOf, Ty.kind, hk]
      rw [apply_push_seq hk]
      split
      · next ht =>
        refine .of_accepted rfl happ ht (.seq fun x hx => ?_) stores_push
        rcases List.mem_append.1 hx with hx | hx
        · exact hc.items x hx
        · exact List.mem_singleton.1 hx ▸ hv.of_typeOf ht
      · next ht => exact .of_rejected rfl happ ht hc hv
  | leaf | absent | present | map | record =>
    exact keeps_wrongKind hc (by simp [Applies, Value.typeOf, Ty.kind]) (by simp)

/-! ## Maps and whole values -/

/-- What is inserted under a key is found there. -/
theorem stores_insert {m : MapKind} {t u : Ty} (es : List (Value × Value)) :
    (insert key v).Stores (.map m t u es) (.map m t u (Entries.insert m key v es)) := by
  refine ⟨by simp [Entries.get?_insert], fun other hne => ?_⟩
  cases other with
  | key x =>
    have hx : x ≠ key := fun hx => hne (hx ▸ rfl)
    simp [Entries.get?_insert, hx]
  | index | content => rfl

theorem keeps_insert (hc : HasType s c t) (hkey : HasType s key key.typeOf)
    (hv : HasType s v v.typeOf) : Keeps s t (insert key v) c ((insert key v).apply s c) := by
  cases c with
  | map m a b es =>
    obtain rfl : _ = t := hc.typeOf_eq
    simp only [apply]
    split
    · next ht =>
      exact .of_accepted rfl rfl ht
        (hc.mapOf (hkey.of_typeOf ht.1) (hv.of_typeOf ht.2) fun _ => Entries.mem_insert)
        (stores_insert es)
    · next ht => exact .of_rejected rfl rfl ht hc hv
  | seq k item items =>
    refine keeps_wrongKind hc ?_ nofun
    cases hk : k.growable <;> simp [Applies, Value.typeOf, Ty.kind, hk]
  | leaf | absent | present | record =>
    exact keeps_wrongKind hc (by simp [Applies, Value.typeOf, Ty.kind]) nofun

theorem keeps_set (hc : HasType s c t) (hv : HasType s v v.typeOf) :
    Keeps s t (set v) c ((set v).apply s c) := by
  obtain rfl := hc.typeOf_eq
  simp only [apply]
  split
  · next ht => exact .of_accepted rfl trivial ht (hv.of_typeOf ht) rfl
  · next ht => exact .of_rejected rfl trivial ht hc hv

/-! ## Moving items out -/

theorem keeps_drain (hc : HasType s c t) : Keeps s t drain c (drain.apply s c) := by
  cases c with
  | seq k item items =>
    obtain rfl : _ = t := hc.typeOf_eq
    refine ⟨.seq (by simp), fun v hv => (hc.items v hv).self, nofun, nofun, nofun,
      fun k' item' items' _ h => ?_, fun h => absurd ?_ h⟩
    · cases h; rfl
    · cases hk : k.growable <;> simp [Applies, Value.typeOf, Ty.kind, hk]
  | leaf | absent | present | map | record =>
    exact keeps_wrongKind hc (by simp [Applies, Value.typeOf, Ty.kind]) nofun

/-- An array whose items can be moved gives them away, cut or with default items behind them. -/
theorem apply_resized_boxed : (Operation.resized n).apply s (.seq .boxed item items) =
    if items.length < n ∧ s.default? item = none then (.seq .boxed item items, .nothing)
    else (.seq .boxed item [], .value (.seq .boxed item
      (items.take n ++ ((s.default? item).map (List.replicate (n - items.length))).getD []))) := by
  simp only [apply, Value.resized]
  cases s.default? item with
  | none =>
    by_cases hn : items.length < n
    · simp only [hn, and_self, if_true]
    · simp only [hn, false_and, if_false, Option.map_none, Option.getD_none,
        List.append_nil]
  | some d => simp only [reduceCtorEq, and_false, if_false, Option.map_some, Option.getD_some]

theorem resizes_apply :
    Resizes s item items n ((Operation.resized n).apply s (.seq .boxed item items)) := by
  rw [apply_resized_boxed]
  split
  · next h => exact ⟨iff_of_true rfl h, fun hn => absurd h hn⟩
  · next h =>
    refine ⟨iff_of_false (by simp) h, fun _ => ⟨_, rfl, ?_⟩⟩
    rcases Nat.lt_or_ge items.length n with hn | hn
    · obtain ⟨d, hd⟩ := Option.ne_none_iff_exists'.1 fun hd => h ⟨hn, hd⟩
      have hle := Nat.le_of_lt hn
      rw [List.take_of_length_le hle, hd]
      simp [Nat.add_sub_cancel' hle]
    · have hpad : ((s.default? item).map (List.replicate (n - items.length))).getD [] = [] := by
        rw [Nat.sub_eq_zero_of_le hn]
        cases s.default? item <;> rfl
      have htake : (items.take n).length = n := List.length_take_of_le hn
      have hshort : (items.take n).length ≤ items.length := by rw [htake]; exact hn
      rw [hpad, List.append_nil]
      refine ⟨htake, List.take_of_length_le hshort, ?_⟩
      rw [List.drop_of_length_le hshort]
      simp

/-- The items of the other array are those of the array and default ones. -/
theorem Resizes.handed (hs : s.Typed) (hi : ∀ v ∈ items, HasType s v item)
    (h : Resizes s item items n r) : ∀ v ∈ r.2.values, HasType s v v.typeOf := by
  by_cases hshort : items.length < n ∧ s.default? item = none
  · rw [h.refused.2 hshort]
    simp [Answer.values]
  · obtain ⟨others, rfl, -, htake, hdrop⟩ := h.moved hshort
    suffices HasType s (.seq .boxed item others) (.seq .boxed item) by
      simpa [Answer.values] using this.self
    refine .seq fun v hv => ?_
    rw [← List.take_append_drop items.length others, htake] at hv
    rcases List.mem_append.1 hv with hv | hv
    · exact hi v (List.mem_of_mem_take hv)
    · exact hasType_default hs (hdrop v hv)

theorem keeps_resized (hs : s.Typed) (hc : HasType s c t) :
    Keeps s t (.resized n) c ((Operation.resized n).apply s c) := by
  cases c with
  | seq k item items =>
    obtain rfl : _ = t := hc.typeOf_eq
    cases k with
    | boxed =>
      refine ⟨?_, resizes_apply.handed hs hc.items, nofun, nofun, fun item' items' n' hn h => ?_,
        nofun, fun h => absurd rfl h⟩
      · rw [apply_resized_boxed]
        split
        · exact hc
        · exact .seq (by simp)
      · cases hn; cases h; exact resizes_apply
    | vec | deque =>
      exact keeps_wrongKind hc (by simp [Applies, Value.typeOf, Ty.kind, SeqKind.growable]) nofun
  | leaf | absent | present | map | record =>
    exact keeps_wrongKind hc (by simp [Applies, Value.typeOf, Ty.kind]) nofun

/-! ## Runs -/

/-- What one operation does to a container of a type. -/
theorem keeps_apply (hs : s.Typed) (hc : HasType s c t) (hop : op.Typed s) :
    Keeps s t op c (op.apply s c) := by
  cases op with
  | get sel => exact keeps_get hc
  | put sel v => exact keeps_put hc hop
  | push v => exact keeps_push hc hop
  | insert key v => exact keeps_insert hc hop.1 hop.2
  | drain => exact keeps_drain hc
  | resized n => exact keeps_resized hs hc
  | set v => exact keeps_set hc hop

end Single

/-- Operations on a container of a type, one after the other: what each of them is answered, and the
container that is left. -/
inductive KeepsThrough (s : Schema) (t : Ty) :
    Value → List Operation → List Answer → Value → Prop
  | nil {c : Value} (hc : HasType s c t) : KeepsThrough s t c [] [] c
  | cons {c d : Value} {op : Operation} {ops : List Operation} {r : Value × Answer}
      {answers : List Answer} (h : Keeps s t op c r) (hrest : KeepsThrough s t r.1 ops answers d) :
      KeepsThrough s t c (op :: ops) (r.2 :: answers) d

/-- Every operation of a run on a typed container takes effect in full or not at all: by induction
on the run, since each one leaves a typed container to the next. -/
theorem keepsThrough_run {s : Schema} (hs : s.Typed) {t : Ty} {ops : List Operation}
    (hops : ∀ op ∈ ops, op.Typed s) {c : Value} (hc : HasType s c t) :
    KeepsThrough s t c ops (run s c ops).2 (run s c ops).1 := by
  induction ops generalizing c with
  | nil => exact .nil hc
  | cons op ops ih =>
    obtain ⟨hop, hrest⟩ := List.forall_mem_cons.1 hops
    have hkeeps := keeps_apply hs hc hop
    exact .cons hkeeps (ih hrest hkeeps.typed)

/-- Two labels: one is replaced, a number is handed back, and the labels move to a longer array. -/
theorem keepsThrough_run_labels :
    Shelf.evaluator.schema.Typed ∧
      (∀ op ∈ [put (.index 1) (.text "top"), put (.index 0) (.int .u32 7), .resized 3, drain],
        op.Typed Shelf.evaluator.schema) ∧
      HasType Shelf.evaluator.schema (.seq .boxed .text [.text "left", .text "right"])
        (.seq .boxed .text) ∧
      KeepsThrough Shelf.evaluator.schema (.seq .boxed .text)
        (.seq .boxed .text [.text "left", .text "right"])
        [put (.index 1) (.text "top"), put (.index 0) (.int .u32 7), .resized 3, drain]
        [.accepted, .rejected (.int .u32 7),
          .value (.seq .boxed .text [.text "left", .text "top", .text ""]), .items []]
        (.seq .boxed .text []) := by
  have hops : ∀ op ∈ [put (.index 1) (.text "top"), put (.index 0) (.int .u32 7), .resized 3, drain],
      op.Typed Shelf.evaluator.schema := by
    simp only [List.forall_mem_cons, List.not_mem_nil, false_implies, implies_true, and_true]
    exact ⟨.of_checks _ _ (by decide), .of_checks _ _ (by decide), trivial, trivial⟩
  have hc : HasType Shelf.evaluator.schema (.seq .boxed .text [.text "left", .text "right"])
      (.seq .boxed .text) := .of_checks _ _ (by decide)
  exact ⟨Shelf.typed.schema, hops, hc, keepsThrough_run Shelf.typed.schema hops hc⟩

end Operation

end ObjectPath
