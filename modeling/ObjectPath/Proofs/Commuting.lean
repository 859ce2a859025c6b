import ObjectPath.Proofs.Contents
import ObjectPath.Proofs.Divergence
import ObjectPath.Proofs.KeyOrder

/-!
# Writes that commute

Where there are only fields, two writes along paths that diverge can be performed in any order: if
both orders succeed, they leave the same root (`Evaluator.set_commutes`).  Where the paths part, the
two steps open different slots of one value, and neither write is seen by the other one
(`Step.Apart.held?_put`); so it is only left to put two contents in two slots
(`Step.Apart.put_put`).  Before that both writes go through the same slots, and create, pad and
lengthen the same.

One trace of the order can be left: two keys that are new in a map in the order of insertion are
listed in the order of the writes (`Value.SameSince`).

Two fields of one slot do not diverge: there the second write decides
(`Evaluator.aliased_writes_ordered`).
-/

namespace ObjectPath

/-! ## Lists that are filled up twice -/

section Padding

variable {xs : List Value} {i j : Nat}

theorem paddedTo_set_of_lt (h : i < xs.length) (j : Nat) (d x : Value) :
    paddedTo (xs.set i x) j d = (paddedTo xs j d).set i x := by
  rw [paddedTo, paddedTo, List.length_set, List.set_append_left _ _ h]

theorem paddedTo_max (xs : List Value) (i j : Nat) (d : Value) :
    paddedTo (paddedTo xs i d) j d = paddedTo xs (max i j) d := by
  have hcount : i + 1 - xs.length + (j + 1 - (paddedTo xs i d).length) =
      max i j + 1 - xs.length := by
    rw [length_paddedTo]
    omega
  rw [paddedTo, paddedTo, List.append_assoc, List.replicate_append_replicate, paddedTo,
    ← hcount, paddedTo]

/-- Items at two indices come in in any order. -/
theorem paddedTo_set_comm (hne : i ≠ j) (d x y : Value) (xs : List Value) :
    (paddedTo ((paddedTo xs i d).set i x) j d).set j y =
      (paddedTo ((paddedTo xs j d).set j y) i d).set i x := by
  have hlt (k : Nat) : k < (paddedTo xs k d).length := by
    rw [length_paddedTo]
    omega
  rw [paddedTo_set_of_lt (hlt i), paddedTo_set_of_lt (hlt j), paddedTo_max, paddedTo_max,
    Nat.max_comm j i, List.set_comm _ _ hne]

end Padding

/-! ## Values that differ in the order of new keys -/

/-- The content of the slot a step leads to. -/
def Step.content? (st : Step) (v : Value) : Option Value :=
  match st.slot v with
  | .ok c => c
  | .error _ => none

/-- The same values, but for the order of two keys of a map in the order of insertion that were both
inserted since the value was `old`, or since it was created. -/
inductive Value.SameSince : Option Value → Value → Value → Prop
  | same {old : Option Value} (v : Value) : SameSince old v v
  | swapped {old : Option Value} {t u : Ty} {es : List (Value × Value)} {e e' : Value × Value}
      (hold : ∀ v, old = some v → v = .map .insertion t u es)
      (he : Entries.get? e.1 es = none) (he' : Entries.get? e'.1 es = none) (hne : e.1 ≠ e'.1) :
      SameSince old (.map .insertion t u (es ++ [e, e'])) (.map .insertion t u (es ++ [e', e]))
  | present {old : Option Value} {v w : Value} (h : SameSince (old.bind (·.unwrapped)) v w) :
      SameSince old (.present v) (.present w)
  | slot {old : Option Value} {path : String} {xs : List Value} {i : Nat} {v w : Value}
      (h : SameSince (old.bind fun u => (u.atSlot? i).map (·.value)) v w) :
      SameSince old (.record path (xs.set i v)) (.record path (xs.set i w))
  | item {old : Option Value} {k : SeqKind} {t : Ty} {xs : List Value} {i : Nat} {v w : Value}
      (h : SameSince (old.bind fun u => (u.atIndex? i).map (·.value)) v w) :
      SameSince old (.seq k t (xs.set i v)) (.seq k t (xs.set i w))
  | value {old : Option Value} {k : MapKind} {t u : Ty} {es : List (Value × Value)}
      {key v w : Value} (h : SameSince (old.bind fun u => (atKey? key u).map (·.value)) v w) :
      SameSince old (.map k t u (Entries.replace key v es))
        (.map k t u (Entries.replace key w es))

namespace Value.SameSince

variable {s : Schema} {old : Option Value} {v w x y : Value} {st : Step} {t : Ty}

/-- What was inserted since a value was there was inserted if there was none. -/
theorem forget (h : SameSince old v w) : SameSince none v w := by
  induction h with
  | same v => exact .same v
  | swapped _ he he' hne => exact .swapped (fun _ h => by cases h) he he' hne
  | present _ ih => exact .present ih
  | slot _ ih => exact .slot ih
  | item _ ih => exact .item ih
  | value _ ih => exact .value ih

/-- Leaves are the same. -/
theorem eq_leaf {l : Leaf} (h : SameSince old (.leaf l) w) : w = .leaf l := by
  cases h
  rfl

/-- The leaves in the slots of a record are the same. -/
theorem slot_leaf {path path' : String} {xs ys : List Value} {i : Nat} {l : Leaf}
    (h : SameSince old (.record path xs) (.record path' ys)) (hi : xs[i]? = some (.leaf l)) :
    ys[i]? = some (.leaf l) := by
  generalize hv : Value.record path xs = v at h
  generalize hw : Value.record path' ys = w at h
  cases h with
  | same => cases hv; cases hw; exact hi
  | swapped | present | item | value => cases hv
  | @slot _ _ zs j v w h =>
    cases hv
    cases hw
    rw [List.getElem?_set] at hi ⊢
    split
    · next hji =>
      rw [if_pos hji] at hi
      split at hi
      · next hlt =>
        cases hi
        rw [if_pos hlt, h.eq_leaf]
      · cases hi
    · next hji => rwa [if_neg hji] at hi

/-- In the slot that a step opens the same is put. -/
theorem put (hopens : st.Opens s v) (h : SameSince (st.content? v) x y) :
    SameSince (some v) (st.put s v x) (st.put s v y) := by
  cases hopens with
  | field => exact .slot h
  | @item i k t o xs =>
    refine .item ?_
    rw [Option.bind_some, Value.map_value_atIndex?]
    exact h
  | @entry key label k a b o es hkey =>
    have hreplace (z : Value) : Entries.insert k key z es =
        Entries.replace key z (Entries.insert k key x es) :=
      (Entries.replace_insert k key x z es).symm
    rw [Step.put, Step.put, hreplace x, hreplace y]
    refine .value ?_
    rw [Option.bind_some, Value.map_value_atKey?]
    exact h

/-- The same is held by a slot. -/
theorem holding (hold : ∀ c, old = some c → HasType s c t)
    (h : SameSince (old.bind (·.unwrapped)) x y) :
    SameSince old (t.holding x) (t.holding y) := by
  cases t with
  | option t => exact .present h
  | leaf | seq | map | record =>
    cases old with
    | none => exact h
    | some c =>
      rw [Option.bind_some, (hold c rfl).unwrapped_of_ne (fun e he => by cases he)] at h
      exact h

end Value.SameSince

/-! ## Steps beside each other -/

namespace Step

variable {s : Schema} {st st' : Step} {u v w x y c : Value} {t : Ty}

theorem Apart.symm (h : st.Apart st') : st'.Apart st := by
  cases h with
  | field h => exact .field (Ne.symm h)
  | item h => exact .item (Ne.symm h)
  | entry h => exact .entry (Ne.symm h)

theorem held?_of_content (hc : st.content? v = some c) (s : Schema) : st.held? s v = some c := by
  unfold content? at hc
  unfold held?
  cases hslot : st.slot v with
  | error f => rw [hslot] at hc; cases hc
  | ok o =>
    rw [hslot] at hc
    cases hc
    rfl

theorem held?_congr (h : st.slot v = st.slot w) : st.held? s v = st.held? s w := by
  rw [held?, held?, h]

namespace Alike

variable (h : st.Alike st')

include h

theorem put_eq (s : Schema) (v c : Value) : st'.put s v c = st.put s v c := by
  cases h with
  | member | indexed | item => rfl
  | entry => cases v <;> rfl

theorem held?_eq (s : Schema) (v : Value) : st'.held? s v = st.held? s v := by
  cases h with
  | member | item => rfl
  | indexed => rfl
  | entry => cases v <;> rfl

theorem base?_eq (s : Schema) (c : Value) : st'.base? s c = st.base? s c := by
  rw [base?, base?, h.type_eq]

theorem fits {s : Schema} {t : Ty} (hst : st.Fits s t) : st'.Fits s t := by
  cases h with
  | member | item => exact hst
  | indexed =>
    cases hst with
    | indexed hm hu hi => exact .indexed hm hu hi
  | entry =>
    cases hst with
    | entry hk ho => exact .entry hk ho

end Alike

namespace Apart

variable (h : st.Apart st')

include h

/-- What is put in one slot is not found in the other one. -/
theorem held?_put (hopens : st.Opens s v) (hopens' : st'.Opens s v) (x : Value) :
    st'.held? s (st.put s v x) = st'.held? s v := by
  cases h with
  | @field f g hne =>
    cases hopens with
    | @field _ path xs =>
      refine held?_congr (congrArg Except.ok ?_)
      rw [Step.put, Value.map_value_atSlot?, Value.map_value_atSlot?, List.getElem?_set_ne hne]
  | @entry k l label label' t u o o' hne =>
    cases hopens with
    | @entry _ _ kind a b _ es =>
      refine held?_congr (congrArg Except.ok ?_)
      rw [Entries.get?_insert, if_neg (Ne.symm hne)]
  | @item i j t u o o' hne =>
    cases hopens with
    | @item _ k _ _ xs hopen =>
      cases hopens'
      have hset : ((paddedTo xs i (filler s t)).set i x)[j]? = (paddedTo xs i (filler s t))[j]? :=
        List.getElem?_set_ne hne
      by_cases hlt : j < xs.length
      · refine held?_congr (congrArg Except.ok ?_)
        rw [hset, getElem?_paddedTo_of_lt hlt]
      · have hle : xs.length ≤ j := Nat.le_of_not_lt hlt
        by_cases hji : j < i
        · -- The first step put a default item in the slot of the second one.
          have hmissing : ¬ i < xs.length := by omega
          obtain ⟨-, hpad⟩ := hopen.resolve_left hmissing
          have hdefault := hpad.resolve_left fun hlast => by omega
          obtain ⟨d, hd⟩ := Option.isSome_iff_exists.1 hdefault
          have hfiller : filler s t = d := by rw [filler, hd, Option.getD_some]
          rw [getElem?_paddedTo_of_le hle (Nat.le_of_lt hji), hfiller] at hset
          simp only [held?, slot, Step.put, hfiller, hset, List.getElem?_eq_none hle]
          exact hd.symm
        · have hnone : (paddedTo xs i (filler s t))[j]? = none := by
            refine List.getElem?_eq_none ?_
            rw [length_paddedTo]
            omega
          refine held?_congr (congrArg Except.ok ?_)
          rw [hset, hnone, List.getElem?_eq_none hle]

/-- Two contents are put in two slots in any order, but for two keys that are new. -/
theorem put_put (hst : st.Fits s t) (hst' : st'.Fits s t) (hopens : st.Opens s v)
    (hopens' : st'.Opens s v) (hv : v.typeOf = t) (x y : Value) :
    Value.SameSince (some v) (st'.put s (st.put s v x) y) (st.put s (st'.put s v y) x) := by
  cases h with
  | @field f g hne =>
    cases hopens with
    | field =>
      rw [Step.put, Step.put, Step.put, Step.put, List.set_comm _ _ hne]
      exact .same _
  | @item i j a u o o' hne =>
    cases hopens with
    | item =>
      cases hopens'
      rw [Step.put, Step.put, Step.put, Step.put, paddedTo_set_comm hne]
      exact .same _
  | @entry k l label label' u u' o o' hne =>
    cases hopens with
    | @entry _ _ kind a b _ es =>
      cases hst with
      | entry hk =>
        cases hst' with
        | entry hl =>
          have horder := Value.precedes_or_precedes hk hl hne
          rw [Step.put, Step.put, Step.put, Step.put]
          obtain heq | ⟨hkind, hk, hl, hleft, hright⟩ :=
            Entries.insert_insert kind es hne x y horder
          · rw [heq]
            exact .same _
          · rw [hleft, hright]
            cases kind with
            | hash | tree => cases hkind
            | insertion => exact .swapped (fun _ h => (Option.some.inj h).symm) hk hl hne

end Apart

end Step

/-! ## Walks that part -/

theorem Diverge.ne_nil {ss ss' : List Step} (h : Diverge ss ss') : ss ≠ [] ∧ ss' ≠ [] := by
  cases h <;> exact ⟨List.cons_ne_nil _ _, List.cons_ne_nil _ _⟩

namespace Evaluator

variable {ev : Evaluator} {payload a b : Payload}

/-- What a write puts in a slot is decided by what the slot holds. -/
theorem puts_unique (hev : ev.Typed) (rest : List Atom) :
    ∀ {st : Step} {held : Option Value} {x y : Value}, ev.TypedSlot st held →
      ev.Puts payload st rest held x → ev.Puts payload st rest held y → x = y := by
  induction rest with
  | nil =>
    intro st held x y _ hx hy
    cases hx with
    | stored hx hprepare =>
      cases hy with
      | stored hy hprepare' =>
        cases hx.symm.trans hy
        exact Except.ok.inj (hprepare.symm.trans hprepare')
  | cons n rest ih =>
    intro st held x y hslot hx hy
    cases held with
    | none => cases hx
    | some c =>
      obtain ⟨u, st', x', hu, hres, hopens, hx', rfl⟩ := (puts_cons_iff hev hslot).1 hx
      obtain ⟨y', hy', rfl⟩ := (puts_below_iff hev hslot hu hres hopens).1 hy
      rw [ih (hslot.below hev hu hres) hx' hy']

/-- Behind a slot with some content stands what stood there, or what is new. -/
theorem base?_content {s : Schema} {st : Step} {v c u : Value} (hc : st.held? s v = some c)
    (hu : st.base? s c = some u) :
    (st.content? v).bind (·.unwrapped) = some u ∨ (st.content? v).bind (·.unwrapped) = none := by
  unfold Step.held? at hc
  unfold Step.content?
  cases hslot : st.slot v with
  | error f => exact .inr rfl
  | ok o =>
    cases o with
    | none => exact .inr rfl
    | some d =>
      rw [hslot] at hc
      cases hc
      show c.unwrapped = some u ∨ c.unwrapped = none
      cases hw : c.unwrapped with
      | none => exact .inr rfl
      | some w =>
        rw [Step.base?, hw] at hu
        exact .inl hu

theorem TypedSlot.alike {st st' : Step} {held : Option Value} (h : ev.TypedSlot st held)
    (halike : st.Alike st') : ev.TypedSlot st' held := by
  obtain ⟨hst, hfields, htyped⟩ := h
  refine .mk (halike.fits hst) hfields ?_
  rwa [halike.type_eq]

/-- Steps that are alike go on behind a slot in the same way. -/
theorem puts_alike_iff (hev : ev.Typed) {st st' : Step} {n : Atom} {rest : List Atom} {c x : Value}
    (halike : st.Alike st') (hslot : ev.TypedSlot st (some c)) :
    ev.Puts payload st' (n :: rest) (some c) x ↔ ev.Puts payload st (n :: rest) (some c) x := by
  rw [puts_cons_iff hev hslot, puts_cons_iff hev (hslot.alike halike), halike.base?_eq,
    halike.origin_eq, halike.type_eq]

/-- A trail begins with the step that the first atom resolves to, and goes on behind it. -/
theorem trail_cons_inv {site : Site} {n : Atom} {rest : List Atom} {st s : Step}
    {ss : List Step} (hres : ev.resolve site n = .ok (.step st))
    (h : ev.trail site (n :: rest) = .ok (s :: ss)) :
    s = st ∧ (ss ≠ [] → ∃ m rest', rest = m :: rest' ∧
      ev.trail (.value st.type.declared st.origin) (m :: rest') = .ok ss) := by
  cases rest with
  | nil =>
    rw [trail_last hres] at h
    cases h
    exact ⟨rfl, fun hne => absurd rfl hne⟩
  | cons m rest =>
    obtain ⟨_, heq, hbelow⟩ := trail_step_ok hres h
    cases heq
    exact ⟨rfl, fun _ => ⟨m, rest, rfl, hbelow⟩⟩

/-- Two writes through steps that open a value, in both orders: the one after the other leaves `r`,
the other after the one leaves `r'`. -/
inductive InBothOrders (ev : Evaluator) (a b : Payload) (st st' : Step) (rest rest' : List Atom)
    (v : Value) : Value → Value → Prop
  | mk {x y x' y' : Value} (hopens : st.Opens ev.schema v) (hopens' : st'.Opens ev.schema v)
      (hx : ev.Puts a st rest (st.held? ev.schema v) x)
      (hy : ev.Puts b st' rest' (st'.held? ev.schema v) y)
      (hy' : ev.Puts b st' rest' (st'.held? ev.schema (st.put ev.schema v x)) y')
      (hx' : ev.Puts a st rest (st.held? ev.schema (st'.put ev.schema v y)) x') :
      InBothOrders ev a b st st' rest rest' v (st'.put ev.schema (st.put ev.schema v x) y')
        (st.put ev.schema (st'.put ev.schema v y) x')

namespace InBothOrders

variable {st st' : Step} {rest rest' : List Atom} {v r r' : Value} {t : Ty}

theorem of_leaves (hev : ev.Typed) (ha : a.Typed ev.schema) (hb : b.Typed ev.schema)
    (hfields : ev.schema.OnlyFields t) (hv : HasType ev.schema v t) {site : Site} {n n' : Atom}
    {w w' : Value} (hsite : site.Fits ev.schema t) (hres : ev.resolve site n = .ok (.step st))
    (hres' : ev.resolve site n' = .ok (.step st'))
    (hw : (ev.write a v site (n :: rest)).Leaves w)
    (hr : (ev.write b w site (n' :: rest')).Leaves r)
    (hw' : (ev.write b v site (n' :: rest')).Leaves w')
    (hr' : (ev.write a w' site (n :: rest)).Leaves r') :
    ev.InBothOrders a b st st' rest rest' v r r' := by
  have hst := fits_step hev hsite hres
  have hst' := fits_step hev hsite hres'
  have hinto {u : Value} (hu : HasType ev.schema u t) := Step.leadsInto hfields hst hu
  have hinto' {u : Value} (hu : HasType ev.schema u t) := Step.leadsInto hfields hst' hu
  obtain ⟨⟨hopens, -⟩, x, hx, rfl⟩ := (write_leaves_iff hev (hinto hv) hst hv hres).1 hw
  obtain ⟨⟨hopens', -⟩, y, hy, rfl⟩ := (write_leaves_iff hev (hinto' hv) hst' hv hres').1 hw'
  have hxtype := hasType_puts hev ha rest (.of_fits hev hfields hst hv) hx
  have hytype := hasType_puts hev hb rest' (.of_fits hev hfields hst' hv) hy
  have hput := Step.hasType_put hev.schema hst hv hopens hxtype
  have hput' := Step.hasType_put hev.schema hst' hv hopens' hytype
  obtain ⟨-, y', hy', rfl⟩ := (write_leaves_iff hev (hinto' hput) hst' hput hres').1 hr
  obtain ⟨-, x', hx', rfl⟩ := (write_leaves_iff hev (hinto hput') hst hput' hres).1 hr'
  exact .mk hopens hopens' hx hy hy' hx'

/-- Writes through different slots do not see each other. -/
theorem of_apart (hev : ev.Typed) (hfields : ev.schema.OnlyFields t) (hst : st.Fits ev.schema t)
    (hst' : st'.Fits ev.schema t) (hv : HasType ev.schema v t) (hapart : st.Apart st')
    (h : ev.InBothOrders a b st st' rest rest' v r r') : Value.SameSince (some v) r r' := by
  cases h with
  | @mk x y x' y' hopens hopens' hx hy hy' hx' =>
    rw [hapart.held?_put hopens hopens'] at hy'
    rw [hapart.symm.held?_put hopens' hopens] at hx'
    have hxx : x' = x := puts_unique hev rest (.of_fits hev hfields hst hv) hx' hx
    have hyy : y' = y := puts_unique hev rest' (.of_fits hev hfields hst' hv) hy' hy
    rw [hxx, hyy]
    exact hapart.put_put hst hst' hopens hopens' hv.typeOf_eq x y

/-- Writes that go on behind one slot are writes to what stands there, in both orders. -/
theorem below (hev : ev.Typed) (ha : a.Typed ev.schema) (hb : b.Typed ev.schema)
    (hslot : ev.TypedSlot st (st.held? ev.schema v)) (halike : st.Alike st') {m m' : Atom}
    (h : ev.InBothOrders a b st st' (m :: rest) (m' :: rest') v r r') :
    ∃ c u nx ny q q', st.Opens ev.schema v ∧ st.held? ev.schema v = some c ∧
      st.base? ev.schema c = some u ∧
      ev.resolve (.value u.typeOf st.origin) m = .ok (.step nx) ∧
      ev.resolve (.value u.typeOf st.origin) m' = .ok (.step ny) ∧
      ev.InBothOrders a b nx ny rest rest' u q q' ∧
      r = st.put ev.schema v (st.type.holding q) ∧
      r' = st.put ev.schema v (st.type.holding q') := by
  cases h with
  | @mk x y x' y' hopens hopens' hx hy hy' hx' =>
    rw [halike.held?_eq] at hy hy'
    rw [halike.put_eq] at hx'
    rw [hopens.held?_put] at hy' hx'
    cases hheld : st.held? ev.schema v with
    | none => rw [hheld] at hx; cases hx
    | some c =>
      rw [hheld] at hslot hx hy
      have hslotx := hslot.hold (hasType_puts hev ha _ hslot hx)
      rw [puts_alike_iff hev halike hslot] at hy
      rw [puts_alike_iff hev halike hslotx] at hy'
      have hsloty := hslot.hold (hasType_puts hev hb _ hslot hy)
      obtain ⟨u, nx, x₂, hu, hresx, hopensx, hx₂, rfl⟩ := (puts_cons_iff hev hslot).1 hx
      obtain ⟨_, ny, y₂, hu', hresy, hopensy, hy₂, rfl⟩ := (puts_cons_iff hev hslot).1 hy
      cases hu.symm.trans hu'
      have hutype := (hslot.base hev hu).1.typeOf_eq
      -- Each write finds behind the slot what the other one left there.
      obtain ⟨_, _, y₃, hw, hresw, -, hy₃, rfl⟩ := (puts_cons_iff hev hslotx).1 hy'
      obtain ⟨_, _, x₃, hz, hresz, -, hx₃, rfl⟩ := (puts_cons_iff hev hsloty).1 hx'
      cases (Step.base_holding ((hopensx.typeOf_put x₂).trans hutype)).symm.trans hw
      cases (Step.base_holding ((hopensy.typeOf_put y₂).trans hutype)).symm.trans hz
      rw [hopensx.typeOf_put] at hresw
      rw [hopensy.typeOf_put] at hresz
      cases hresy.symm.trans hresw
      cases hresx.symm.trans hresz
      refine ⟨c, u, nx, ny, _, _, hopens, rfl, hu, hresx, hresy,
        .mk hopensx hopensy hx₂ hy₂ hy₃ hx₃, ?_, ?_⟩
      · rw [halike.put_eq, hopens.put_put]
      · rw [halike.put_eq, hopens.put_put]

end InBothOrders

/-- Two writes from one value along paths that diverge leave the same in both orders. -/
theorem sameSince_of_diverge (hev : ev.Typed) (ha : a.Typed ev.schema) (hb : b.Typed ev.schema)
    {ss ss' : List Step} (hdiverge : Diverge ss ss') :
    ∀ {v r r' : Value} {t : Ty} {site : Site} {n n' : Atom} {rest rest' : List Atom}
      {st st' : Step}, ev.schema.OnlyFields t → HasType ev.schema v t → site.Fits ev.schema t →
      ev.resolve site n = .ok (.step st) → ev.resolve site n' = .ok (.step st') →
      ev.trail site (n :: rest) = .ok ss → ev.trail site (n' :: rest') = .ok ss' →
      ev.InBothOrders a b st st' rest rest' v r r' → Value.SameSince (some v) r r' := by
  induction hdiverge with
  | here hapart =>
    intro v r r' t site n n' rest rest' st st' hfields hv hsite hres hres' htrail htrail' h
    obtain ⟨rfl, -⟩ := trail_cons_inv hres htrail
    obtain ⟨rfl, -⟩ := trail_cons_inv hres' htrail'
    exact h.of_apart hev hfields (fits_step hev hsite hres) (fits_step hev hsite hres') hv hapart
  | @behind st st' ss ss' halike hrest ih =>
    intro v r r' t site n n' rest rest' _ _ hfields hv hsite hres hres' htrail htrail' h
    obtain ⟨rfl, hrest₁⟩ := trail_cons_inv hres htrail
    obtain ⟨rfl, hrest₂⟩ := trail_cons_inv hres' htrail'
    obtain ⟨m, rest, rfl, hbelow⟩ := hrest₁ hrest.ne_nil.1
    obtain ⟨m', rest', rfl, hbelow'⟩ := hrest₂ hrest.ne_nil.2
    have hst := fits_step hev hsite hres
    have hslot : ev.TypedSlot st (st.held? ev.schema v) := .of_fits hev hfields hst hv
    rw [halike.type_eq, halike.origin_eq] at hbelow'
    obtain ⟨c, u, nx, ny, q, q', hopens, hheld, hu, hresx, hresy, hboth, rfl, rfl⟩ :=
      h.below hev ha hb hslot halike
    rw [hheld] at hslot
    obtain ⟨hutype, hfields', hsite'⟩ := hslot.base hev hu
    rw [hutype.typeOf_eq] at hresx hresy hsite'
    have hsame := ih hfields' hutype hsite' hresx hresy hbelow hbelow' hboth
    have hcontent : ∀ d, st.content? v = some d → HasType ev.schema d st.type := fun d hd =>
      Step.hasType_held hev.schema hst hv hopens.leadsInto (Step.held?_of_content hd _)
    refine .put hopens (.holding hcontent ?_)
    obtain heq | heq := base?_content hheld hu
    · rwa [heq]
    · rw [heq]
      exact hsame.forget

/-! ## Expressions -/

/-- Two expressions whose steps part: at different fields of a record for different slots of it, at
different items of a sequence or at different keys of a map. -/
inductive Part (ev : Evaluator) (source source' : String) (root : Value) : Prop
  | mk {atoms atoms' : List Atom} {ss ss' : List Step} (h : parse source = .ok atoms)
      (h' : parse source' = .ok atoms') (hss : ev.trail (start root) atoms = .ok ss)
      (hss' : ev.trail (start root) atoms' = .ok ss') (hdiverge : Diverge ss ss')

/-- Two writes along expressions that part, with success in both orders, leave the same root, but
for the order of keys that are new in a map in the order of insertion. -/
theorem set_commutes (hev : ev.Typed) {root r r' w w' : Value}
    (hfields : ev.schema.OnlyFields root.typeOf) (hroot : HasType ev.schema root root.typeOf)
    (ha : a.Typed ev.schema) (hb : b.Typed ev.schema) {source source' : String}
    (hpart : ev.Part source source' root) (hw : (ev.set source a root).Leaves w)
    (hr : (ev.set source' b w).Leaves r) (hw' : (ev.set source' b root).Leaves w')
    (hr' : (ev.set source a w').Leaves r') : Value.SameSince (some root) r r' := by
  obtain ⟨hparse, hparse', hss, hss', hdiverge⟩ := hpart
  rw [set_leaves_iff hparse] at hw hr'
  rw [set_leaves_iff hparse'] at hr hw'
  have hsite : (start root).Fits ev.schema root.typeOf := fits_start root
  have hstart : start w = start root := by
    rw [← hw.value]
    exact start_write hev ha hroot _
  have hstart' : start w' = start root := by
    rw [← hw'.value]
    exact start_write hev hb hroot _
  rw [hstart] at hr
  rw [hstart'] at hr'
  obtain ⟨n, rest, st, rfl, hres⟩ := exists_step_of_leaves hev hfields hsite hw
  obtain ⟨n', rest', st', rfl, hres'⟩ := exists_step_of_leaves hev hfields hsite hw'
  exact sameSince_of_diverge hev ha hb hdiverge hfields hroot hsite hres hres' hss hss'
    (.of_leaves hev ha hb hfields hroot hsite hres hres' hw hr hw' hr')

set_option maxRecDepth 10000 in
/-- Two marks that are new are listed in the order of the writes. -/
theorem set_commutes_marked :
    Crate.evaluator.Typed ∧ Crate.evaluator.schema.OnlyFields Crate.stocked.typeOf ∧
      HasType Crate.evaluator.schema Crate.stocked Crate.stocked.typeOf ∧
      (Payload.value (some (.int .u32 7))).Typed Crate.evaluator.schema ∧
      (Payload.value (some (.int .u32 8))).Typed Crate.evaluator.schema ∧
      Crate.evaluator.Part "marks['left']" "marks['right']" Crate.stocked ∧
      ∃ w r w' r',
        (Crate.evaluator.set "marks['left']" (.value (some (.int .u32 7))) Crate.stocked).Leaves w ∧
        (Crate.evaluator.set "marks['right']" (.value (some (.int .u32 8))) w).Leaves r ∧
        (Crate.evaluator.set "marks['right']" (.value (some (.int .u32 8))) Crate.stocked).Leaves
          w' ∧
        (Crate.evaluator.set "marks['left']" (.value (some (.int .u32 7))) w').Leaves r' ∧
        Crate.evaluator.get "marks['left']" r = .ok (some (.int .u32 7)) ∧
        Crate.evaluator.get "marks['left']" r' = .ok (some (.int .u32 7)) ∧ r ≠ r' ∧
        Value.SameSince (some Crate.stocked) r r' := by
  have htyped : Crate.evaluator.Typed := typed_of_isPlain Crate.isPlain
  have hfields := Schema.OnlyFields.of_isPlain Crate.isPlain Crate.stocked.typeOf
  have hleft : (Payload.value (some (.int .u32 7))).Typed Crate.evaluator.schema :=
    .of_checks _ _ (by decide)
  have hright : (Payload.value (some (.int .u32 8))).Typed Crate.evaluator.schema :=
    .of_checks _ _ (by decide)
  have hpart : Crate.evaluator.Part "marks['left']" "marks['right']" Crate.stocked :=
    .mk rfl rfl rfl rfl (.behind (.member _) (.here (.entry (by decide))))
  exact ⟨htyped, hfields, Crate.hasType_stocked, hleft, hright, hpart, _, _, _, _,
    ⟨rfl, rfl⟩, ⟨rfl, rfl⟩, ⟨rfl, rfl⟩, ⟨rfl, rfl⟩, rfl, rfl, by decide,
    set_commutes htyped hfields Crate.hasType_stocked hleft hright hpart
      ⟨rfl, rfl⟩ ⟨rfl, rfl⟩ ⟨rfl, rfl⟩ ⟨rfl, rfl⟩⟩

set_option maxRecDepth 10000 in
/-- Through two fields of one slot the second write decides. -/
theorem aliased_writes_ordered :
    Aliased.evaluator.Typed ∧ Aliased.evaluator.schema.OnlyFields Aliased.bench.typeOf ∧
      HasType Aliased.evaluator.schema Aliased.bench Aliased.bench.typeOf ∧
      (∃ f g : Field, f.name = "left" ∧ g.name = "right" ∧
        (do Aliased.evaluator.trail (start Aliased.bench) (← parse "left")) =
          .ok [.member (.field f)] ∧
        (do Aliased.evaluator.trail (start Aliased.bench) (← parse "right")) =
          .ok [.member (.field g)]) ∧
      ∃ w r w' r',
        (Aliased.evaluator.set "left" (.value (some (.int .u32 1))) Aliased.bench).Leaves w ∧
        (Aliased.evaluator.set "right" (.value (some (.int .u32 2))) w).Leaves r ∧
        (Aliased.evaluator.set "right" (.value (some (.int .u32 2))) Aliased.bench).Leaves w' ∧
        (Aliased.evaluator.set "left" (.value (some (.int .u32 1))) w').Leaves r' ∧
        ¬ Value.SameSince (some Aliased.bench) r r' := by
  refine ⟨typed_of_isPlain Aliased.isPlain, .of_isPlain Aliased.isPlain _,
    .of_checks _ _ (by decide),
    ⟨⟨"left", 2, .int .u32, .empty⟩, ⟨"right", 2, .int .u32, .empty⟩, rfl, rfl, rfl, rfl⟩,
    _, _, _, _, ⟨rfl, rfl⟩, ⟨rfl, rfl⟩, ⟨rfl, rfl⟩, ⟨rfl, rfl⟩, fun h => ?_⟩
  cases h.slot_leaf (i := 2) (l := .int .u32 2) rfl

end Evaluator

end ObjectPath
