import ObjectPath.Proofs.Walks

/-!
# What a write leaves alone

A write changes the value it starts from only through the first step of its path: it asks for the
place the step leads to, puts values there and stores values in its slot (`Step.Accesses`).  So the
other slots of a record, the other items of a sequence and the other entries of a map stay as they
are (`Step.Touches`), whether the write succeeds or not (`Evaluator.touches_write`).
-/

namespace ObjectPath

/-! ## Frames of containers -/

/-- Everything but the item at `i` is kept.  A growable sequence may have become longer. -/
structure ItemsKept (k : SeqKind) (i : Nat) (xs ys : List Value) : Prop where
  length_le : xs.length ≤ ys.length
  length_eq : k.growable = false → ys.length = xs.length
  items : ∀ j, j ≠ i → j < xs.length → ys[j]? = xs[j]?

/-- Everything but the slot `i` is kept. -/
structure SlotsKept (i : Nat) (xs ys : List Value) : Prop where
  length_eq : ys.length = xs.length
  slots : ∀ j, j ≠ i → ys[j]? = xs[j]?

/-- Everything but the entry under `key` is kept. -/
def EntriesKept (key : Value) (es es' : List (Value × Value)) : Prop :=
  ∀ other, other ≠ key → Entries.get? other es' = Entries.get? other es

namespace ItemsKept

variable {k : SeqKind} {i : Nat} {xs ys zs : List Value} {x : Value}

theorem refl : ItemsKept k i xs xs := ⟨Nat.le_refl _, fun _ => rfl, fun _ _ _ => rfl⟩

theorem trans (h : ItemsKept k i xs ys) (h' : ItemsKept k i ys zs) : ItemsKept k i xs zs where
  length_le := Nat.le_trans h.length_le h'.length_le
  length_eq hk := (h'.length_eq hk).trans (h.length_eq hk)
  items j hj hlt := (h'.items j hj (Nat.lt_of_lt_of_le hlt h.length_le)).trans (h.items j hj hlt)

theorem set : ItemsKept k i xs (xs.set i x) where
  length_le := Nat.le_of_eq List.length_set.symm
  length_eq _ := List.length_set
  items _ hj _ := List.getElem?_set_ne hj.symm

theorem append (hk : k.growable = true) : ItemsKept k i xs (xs ++ zs) where
  length_le := by rw [List.length_append]; omega
  length_eq h := by rw [hk] at h; cases h
  items _ _ hlt := List.getElem?_append_left hlt

end ItemsKept

namespace SlotsKept

variable {i : Nat} {xs ys zs : List Value} {x : Value}

theorem refl : SlotsKept i xs xs := ⟨rfl, fun _ _ => rfl⟩

theorem trans (h : SlotsKept i xs ys) (h' : SlotsKept i ys zs) : SlotsKept i xs zs :=
  ⟨h'.length_eq.trans h.length_eq, fun j hj => (h'.slots j hj).trans (h.slots j hj)⟩

theorem set : SlotsKept i xs (xs.set i x) :=
  ⟨List.length_set, fun _ hj => List.getElem?_set_ne hj.symm⟩

end SlotsKept

/-! ## Accesses through a step -/

namespace Step

variable {s : Schema} {st : Step} {u v w x : Value}

/-- `w` comes from `v` by asking for the place a step leads to, putting values there and storing
values in its slot. -/
inductive Accesses (s : Schema) (st : Step) : Value → Value → Prop
  | refl (v : Value) : Accesses s st v v
  | ask {v w : Value} {o : Offer} (ho : st.slotPlace v = .ok o) (h : Accesses s st o.left w) :
      Accesses s st v w
  | fill {v u w x : Value} {p : Place u} (hp : st.slotPlace v = .ok (.place u p))
      (h : Accesses s st (p.fill x) w) : Accesses s st v w
  | store {v w x : Value} (h : Accesses s st (st.store s v x).value w) : Accesses s st v w

/-- `w` is `v` with nothing changed but what a step leads to.  What that is for a property is up to
its accessor methods. -/
inductive Touches (s : Schema) : Step → Value → Value → Prop
  | field {f : Field} {path : String} {xs ys : List Value} (h : SlotsKept f.slot xs ys) :
      Touches s (.member (.field f)) (.record path xs) (.record path ys)
  | property {p : Property} {hidden : Option Field} {v w : Value}
      (h : (Step.member (.property p hidden)).Accesses s v w) :
      Touches s (.member (.property p hidden)) v w
  | indexed {m : Member} {i : Value} {label : String} {v w : Value}
      (h : (Step.indexed m i label).Accesses s v w) : Touches s (.indexed m i label) v w
  | item {i : Nat} {t u : Ty} {o : Option Member} {k : SeqKind} {xs ys : List Value}
      (h : ItemsKept k i xs ys) : Touches s (.element i t o) (.seq k u xs) (.seq k u ys)
  | entry {key : Value} {label : String} {t a b : Ty} {o : Option Member} {k : MapKind}
      {es es' : List (Value × Value)} (h : EntriesKept key es es') :
      Touches s (.entry key label t o) (.map k a b es) (.map k a b es')

namespace Accesses

theorem trans (h : st.Accesses s u v) (h' : st.Accesses s v w) : st.Accesses s u w := by
  induction h with
  | refl => exact h'
  | ask ho _ ih => exact .ask ho (ih h')
  | fill hp _ ih => exact .fill hp (ih h')
  | store _ ih => exact .store (ih h')

theorem of_write (y : Option Value) : st.Accesses s v (st.write s v y).value := by
  unfold write
  split
  · exact .store (.refl _)
  · exact .refl v

theorem of_asked (h : st.Asked v w) : st.Accesses s v w := by
  cases h with
  | unasked => exact .refl v
  | left ho =>
    obtain ⟨o', ho', rfl⟩ := slotPlace_of_ok ho
    rw [Offer.left_inner]
    exact .ask ho' (.refl _)

theorem of_place {p : Place u} (hp : st.place v = .ok (.place u p)) :
    st.Accesses s v (p.fill x) := by
  obtain ⟨q, hq, hinner⟩ := slotPlace_of_place hp
  rw [(Place.inner?_eq_some hinner).2]
  exact .fill hq (.refl _)

theorem slots {f : Field} {path : String} {xs : List Value}
    (h : (Step.member (.field f)).Accesses s (.record path xs) w) :
    ∃ ys, w = .record path ys ∧ SlotsKept f.slot xs ys := by
  generalize hv : Value.record path xs = v at h
  induction h generalizing xs with
  | refl => exact ⟨xs, hv.symm, .refl⟩
  | ask ho _ ih =>
    subst hv
    exact ih ((Member.leavesRecord_field f).place _ _ ho).symm
  | @fill v u w x p hp h ih =>
    subst hv
    obtain rfl := (Member.leavesRecord_field f).place _ _ hp
    have hfill := (Value.atSlot?_record (Offer.of_eq_place (Except.ok.inj hp))).2 x
    obtain ⟨ys, rfl, hys⟩ := ih hfill.symm
    exact ⟨ys, rfl, SlotsKept.set.trans hys⟩
  | @store v w x h ih =>
    subst hv
    have hstore : ∃ zs, ((Step.member (.field f)).store s (.record path xs) x).value =
        .record path zs ∧ SlotsKept f.slot xs zs := by
      refine Written.attempt_value (fun v => ∃ zs, v = .record path zs ∧ SlotsKept f.slot xs zs)
        ⟨xs, rfl, .refl⟩ fun w hw => ?_
      simp only [Member.write] at hw
      split at hw
      · next q hq =>
        split at hw
        · cases hw; exact ⟨_, (Value.atSlot?_record hq).2 x, .set⟩
        · cases hw
      · cases hw
    obtain ⟨zs, hzs, hkept⟩ := hstore
    obtain ⟨ys, rfl, hys⟩ := ih hzs.symm
    exact ⟨ys, rfl, hkept.trans hys⟩

theorem items {i : Nat} {t u : Ty} {o : Option Member} {k : SeqKind} {xs : List Value}
    (h : (Step.element i t o).Accesses s (.seq k u xs) w) :
    ∃ ys, w = .seq k u ys ∧ ItemsKept k i xs ys := by
  generalize hv : Value.seq k u xs = v at h
  induction h generalizing xs with
  | refl => exact ⟨xs, hv.symm, .refl⟩
  | ask ho _ ih =>
    subst hv
    exact ih (left_of_container (by simp) (by simp) ho).symm
  | @fill v u w x p hp h ih =>
    subst hv
    obtain rfl := left_of_container (by simp) (by simp) hp
    have hfill := (Value.atIndex?_seq (Offer.of_eq_place (Except.ok.inj hp))).2 x
    obtain ⟨ys, rfl, hys⟩ := ih hfill.symm
    exact ⟨ys, rfl, ItemsKept.set.trans hys⟩
  | @store v w x h ih =>
    subst hv
    have hstore : ∃ zs, ((Step.element i t o).store s (.seq k u xs) x).value = .seq k u zs ∧
        ItemsKept k i xs zs := by
      simp only [Step.store]
      split
      · next hk =>
        cases hw : (element i t o).writeItem s t xs i x with
        | mk zs r =>
          refine ⟨zs, rfl, ?_⟩
          obtain ⟨-, -, rfl⟩ | ⟨ds, -, ⟨-, -, rfl⟩ | ⟨-, rfl⟩⟩ := writeItem_spec hw
          · exact .set
          · rw [List.append_assoc]
            exact .append hk
          · exact .append hk
      · split
        · next hw =>
          obtain ⟨-, rfl⟩ := writeArrayItem_ok hw
          exact ⟨_, rfl, .set⟩
        · exact ⟨xs, rfl, .refl⟩
    obtain ⟨zs, hzs, hkept⟩ := hstore
    obtain ⟨ys, rfl, hys⟩ := ih hzs.symm
    exact ⟨ys, rfl, hkept.trans hys⟩

theorem entries {key : Value} {label : String} {t a b : Ty} {o : Option Member} {k : MapKind}
    {es : List (Value × Value)} (h : (Step.entry key label t o).Accesses s (.map k a b es) w) :
    ∃ es', w = .map k a b es' ∧ EntriesKept key es es' := by
  generalize hv : Value.map k a b es = v at h
  induction h generalizing es with
  | refl => exact ⟨es, hv.symm, fun _ _ => rfl⟩
  | ask ho _ ih =>
    subst hv
    exact ih (left_of_container (by simp) (by simp) ho).symm
  | @fill v u w x p hp h ih =>
    subst hv
    obtain rfl := left_of_container (by simp) (by simp) hp
    have hfill := (Value.atKey?_map (Offer.of_eq_place (Except.ok.inj hp))).2 x
    obtain ⟨es', rfl, hkept⟩ := ih hfill.symm
    exact ⟨es', rfl, fun other ho =>
      (hkept other ho).trans (Entries.get?_replace_of_ne ho x es)⟩
  | @store v w x h ih =>
    subst hv
    have hstore : ∃ zs, ((Step.entry key label t o).store s (.map k a b es) x).value =
        .map k a b zs ∧ EntriesKept key es zs := by
      simp only [Step.store]
      split
      · refine ⟨_, rfl, fun other ho => ?_⟩
        rw [Entries.get?_insert, if_neg ho]
      · exact ⟨es, rfl, fun _ _ => rfl⟩
    obtain ⟨zs, hzs, hkept⟩ := hstore
    obtain ⟨es', rfl, hes'⟩ := ih hzs.symm
    exact ⟨es', rfl, fun other ho => (hes' other ho).trans (hkept other ho)⟩

/-- Accesses through a step touch nothing else of a typed value. -/
theorem touches {t : Ty} (hst : st.Fits s t) (hv : HasType s v t) (h : st.Accesses s v w) :
    st.Touches s v w := by
  cases hst with
  | @member m _ hm =>
    cases m with
    | property p hidden => exact .property h
    | field f =>
      obtain ⟨path, d, rfl, hd, hmade⟩ := hm.madeOf
      cases hv with
      | record =>
        obtain ⟨ys, rfl, hys⟩ := h.slots
        exact .field hys
  | indexed => exact .indexed h
  | element =>
    cases hv with
    | seq =>
      obtain ⟨ys, rfl, hys⟩ := h.items
      exact .item hys
  | entry =>
    cases hv with
    | map =>
      obtain ⟨es', rfl, hes'⟩ := h.entries
      exact .entry hes'

end Accesses

end Step

/-! ## The frame of a walk -/

namespace Evaluator

variable {ev : Evaluator} {payload : Payload} {site : Site} {a b : Atom} {rest : List Atom}
  {st : Step} {v w : Value} {t : Ty}

/-- The first step that atoms resolve to.  It takes two atoms for a member with an index. -/
def first? (ev : Evaluator) : Site → List Atom → Option Step
  | _, [] => none
  | site, a :: rest =>
    match ev.resolve site a with
    | .ok (.step s) => some s
    | .ok (.site next) => ev.first? next rest
    | .error _ => none

theorem accesses_fillIn : st.Accesses ev.schema v (ev.fillIn st b v).value := by
  unfold fillIn
  split
  · exact .refl v
  · next hp => exact .of_asked (.left hp)
  · next hp =>
    have hasked : st.Accesses ev.schema v _ := .of_asked (.left hp)
    split
    · exact hasked
    · exact hasked.trans (.of_write _)

theorem accesses_lengthen : st.Accesses ev.schema v (ev.lengthen st b v).value := by
  obtain ⟨w, hw, h⟩ | ⟨w, f, hw, h, -⟩ | ⟨w, p, left, longer, n, hp, -, h⟩ :=
    ev.lengthen_spec st b v
  · rw [h]; exact .of_asked hw
  · rw [h]; exact .of_asked hw
  · rw [h]; exact (Step.Accesses.of_place hp).trans (.of_write _)

theorem accesses_approach : st.Accesses ev.schema v (ev.approach st b v).value :=
  Written.andThen_value (st.Accesses ev.schema v) accesses_fillIn fun _ h =>
    h.trans accesses_lengthen

/-- A walk changes a value only through its first step. -/
theorem accesses_write (hres : ev.resolve site a = .ok (.step st)) :
    st.Accesses ev.schema v (ev.write payload v site (a :: rest)).value := by
  cases rest with
  | nil =>
    rw [write_last hres, deliver_eq]
    split
    · exact .of_write _
    · exact .refl v
  | cons b rest =>
    rw [write_step hres]
    refine Written.andThen_value (st.Accesses ev.schema v) accesses_approach fun v' h => ?_
    unfold descend
    split
    · exact h
    · next hp => exact h.trans (.of_asked (.left hp))
    · next hp => exact h.trans (.of_place hp)

/-- A write touches nothing but what the first step of its path leads to. -/
theorem touches_write (hev : ev.Typed) (payload : Payload) (atoms : List Atom) :
    ∀ {site : Site}, HasType ev.schema v t → site.Fits ev.schema t →
      (ev.write payload v site atoms).value = v ∨
        ∃ st, ev.first? site atoms = some st ∧
          st.Touches ev.schema v (ev.write payload v site atoms).value := by
  induction atoms with
  | nil => intro site _ _; rw [write]; exact .inl rfl
  | cons a rest ih =>
    intro site hv hsite
    cases hres : ev.resolve site a with
    | error f => rw [write_error hres]; exact .inl rfl
    | ok r =>
      cases r with
      | site next =>
        rw [write_site hres, first?, hres]
        exact ih hv (fits_site hev hsite hres)
      | step st =>
        refine .inr ⟨st, by rw [first?, hres], ?_⟩
        exact (accesses_write hres).touches (fits_step hev hsite hres) hv

end Evaluator

end ObjectPath
