import ObjectPath.Proofs.Delivery
import ObjectPath.Proofs.PutGet
import ObjectPath.Proofs.Resolution

/-!
# Sequences in place of their elements

A slot takes values of its own type and of the type behind its optional layer (`Ty.Takes`), and a
sequence of such a type is stored whole.  Any other sequence is opened once: without elements it is
null, with one it is that element, and with more it is refused (`Ty.prepare_nil`,
`Ty.prepare_single`, `Ty.prepare_several`).

A write looks at its payload at its last step only, so what holds of the preparation for a slot
holds of whole writes (`Evaluator.set_agrees_of_prepare`, `Evaluator.relaxes`).
-/

namespace ObjectPath

/-! ## Preparation -/

namespace Ty

/-- A slot takes values of a type as they are: it is of the type, or an option of it. -/
def Takes (slot t : Ty) : Prop := slot = t ∨ slot = .option t

variable {slot item : Ty} {k : SeqKind} {label : String} {v x : Value} {xs : List Value}

theorem takes_of_fit (h : slot.fit v = .ok x) : slot.Takes v.typeOf := by
  rcases Ty.fit_ok h with ⟨ht, -⟩ | ⟨ht, -⟩
  · exact .inl ht.symm
  · exact .inr ht

theorem fit_of_not_takes (h : ¬ slot.Takes v.typeOf) : slot.fit v = .error v := by
  cases hfit : slot.fit v with
  | ok x => exact absurd (takes_of_fit hfit) h
  | error x => rw [(Ty.fit_error hfit).1]

/-- What is taken as it is fills the slot, and is seen in it. -/
theorem exists_prepare_of_takes (hv : v.unwrapped = some v) (h : slot.Takes v.typeOf)
    (label : String) :
    ∃ x, slot.prepare label (some v) = .ok x ∧ x.typeOf = slot ∧ x.unwrapped = some v := by
  rcases h with rfl | rfl
  · exact ⟨v, Ty.prepare_of_fit label (if_pos rfl), rfl, hv⟩
  · exact ⟨.present v, Ty.prepare_inner label rfl, rfl, rfl⟩

/-- A sequence without elements is null. -/
theorem prepare_nil (h : ¬ slot.Takes (.seq k item)) (label : String) :
    slot.prepare label (some (.seq k item [])) = slot.prepare label none := by
  simp only [prepare, fit_of_not_takes (v := .seq k item []) h]

/-- A sequence with one element is like the element.  A second sequence inside the first is not
opened. -/
theorem prepare_single (h : ¬ slot.Takes (.seq k item)) (hx : ∀ k' item', x.typeOf ≠ .seq k' item')
    (label : String) :
    slot.prepare label (some (.seq k item [x])) = slot.prepare label (some x) := by
  simp only [prepare, fit_of_not_takes (v := .seq k item [x]) h]
  cases hfit : slot.fit x with
  | ok z => rfl
  | error z =>
    obtain rfl := (Ty.fit_error hfit).1
    cases z with
    | seq k' item' ys => exact absurd rfl (hx k' item')
    | leaf | absent | present | map | record => rfl

/-- A sequence with several elements is refused with their number. -/
theorem prepare_several (h : ¬ slot.Takes (.seq k item)) (hxs : 2 ≤ xs.length) (label : String) :
    slot.prepare label (some (.seq k item xs)) = .error (.arity label xs.length) := by
  simp only [prepare, fit_of_not_takes (v := .seq k item xs) h]
  cases xs with
  | nil => simp at hxs
  | cons x xs =>
    cases xs with
    | nil => simp at hxs
    | cons => rfl

end Ty

/-! ## Writes -/

namespace Evaluator

variable {ev : Evaluator} {source : String} {root w : Value} {s : Step} {fill : Value → Value}
  {y y' : Option Value} {atoms : List Atom}

theorem deliver_of_prepare (h : s.type.prepare s.label y = s.type.prepare s.label y') (w : Value) :
    ev.deliver (.value y) s w = ev.deliver (.value y') s w := by
  simp only [deliver, Step.write, h]

theorem resolved_of_terminal (hparse : parse source = .ok atoms)
    (h : ev.terminal (start root) atoms = .ok s) : ev.resolved source root.typeOf = .ok s := by
  simp only [resolved, hparse, bind, Except.bind]
  exact blame_ok.2 h

/-- Values that are prepared alike for the slot an expression resolves to are set alike. -/
theorem set_agrees_of_prepare (hev : ev.Typed) (hroot : HasType ev.schema root root.typeOf)
    (h : ∀ s, ev.resolved source root.typeOf = .ok s →
      s.type.prepare s.label y = s.type.prepare s.label y') :
    (ev.set source (.value y) root).Agrees (ev.set source (.value y') root) := by
  cases hparse : parse source with
  | error f =>
    rw [set_of_parse_error hparse, set_of_parse_error hparse]
    exact .refl _
  | ok atoms =>
    rcases stops_or_comesTo ev atoms root (start root) with ⟨w, f, hstop⟩ | ⟨s, w, fill, hcomes⟩
    · exact ((set_agrees_write hparse ev _ root).trans (hstop _)).trans
        ((set_agrees_write hparse ev _ root).trans (hstop _)).symm
    · have hs := resolved_of_terminal hparse (hcomes.fits hev hroot (fits_start root)).1
      have hleft := ComesAlong.set_agrees ⟨atoms, hparse, hcomes⟩ (.value y)
      rw [deliver_of_prepare (h s hs)] at hleft
      exact hleft.trans (ComesAlong.set_agrees ⟨atoms, hparse, hcomes⟩ (.value y')).symm

/-- How sequences are set at an expression: opened once if the slot at its end does not take them,
and whole if it does. -/
structure Relaxes (ev : Evaluator) (source : String) (root : Value) : Prop where
  /-- One element is set like itself, with the same result and the same root behind, unless it is a
  sequence too. -/
  single : ∀ k item x,
    (∀ s, ev.resolved source root.typeOf = .ok s → ¬ s.type.Takes (.seq k item)) →
      (∀ k' item', x.typeOf ≠ .seq k' item') →
        (ev.set source (.value (some (.seq k item [x]))) root).Agrees
          (ev.set source (.value (some x)) root)
  /-- No element is set like null. -/
  empty : ∀ k item,
    (∀ s, ev.resolved source root.typeOf = .ok s → ¬ s.type.Takes (.seq k item)) →
      (ev.set source (.value (some (.seq k item []))) root).Agrees
        (ev.set source (.value none) root)
  /-- Several elements are refused with their number where the walk comes to its last step, and the
  value there is left as it is. -/
  several : ∀ k item xs s w fill, ev.ComesAlong source root s w fill →
    ¬ s.type.Takes (.seq k item) → 2 ≤ xs.length →
      (ev.set source (.value (some (.seq k item xs))) root).Agrees
        (.failed (fill w) (.arity s.label xs.length))
  /-- A sequence that the slot takes is stored with all its elements. -/
  whole : ∀ k item xs s w fill, ev.ComesAlong source root s w fill → s.type.Takes (.seq k item) →
    ∃ x, x.typeOf = s.type ∧ x.unwrapped = some (.seq k item xs) ∧
      (ev.set source (.value (some (.seq k item xs))) root).Agrees
        ((s.store ev.schema w x).within fill)
  /-- Where members share their slots, what was stored whole is read whole. -/
  read : ∀ k item xs s, ev.schema.SharesSlots →
    HasType ev.schema (.seq k item xs) (.seq k item) → ev.resolved source root.typeOf = .ok s →
      s.type.Takes (.seq k item) →
        (ev.set source (.value (some (.seq k item xs))) root).result = .ok () →
          ev.get source (ev.set source (.value (some (.seq k item xs))) root).value =
            .ok (some (.seq k item xs))

/-- What is stored whole is read whole. -/
theorem get_set_of_takes (hev : ev.Typed) (hlaw : ev.schema.SharesSlots)
    (hroot : HasType ev.schema root root.typeOf) {v : Value} (hv : HasType ev.schema v v.typeOf)
    (hshown : v.unwrapped = some v) (hs : ev.resolved source root.typeOf = .ok s)
    (htakes : s.type.Takes v.typeOf) (h : (ev.set source (.value (some v)) root).result = .ok ()) :
    ev.get source (ev.set source (.value (some v)) root).value = .ok (some v) := by
  cases hparse : parse source with
  | error f => rw [set_of_parse_error hparse] at h; cases h
  | ok atoms =>
    have hpay : (Payload.value (some v)).Typed ev.schema := hv
    rw [(set_of_parse hparse ev _ root).2] at h
    rw [(set_of_parse hparse ev _ root).1]
    obtain ⟨s', y, hs', hy, hread⟩ := read_write hev hlaw hpay hroot (fits_start root) h
    cases (resolved_of_terminal hparse hs').symm.trans hs
    cases hy
    obtain ⟨x, hx, -, hxshown⟩ := Ty.exists_prepare_of_takes hshown htakes s.label
    rw [← Ty.unwrapped_prepare hx, hxshown] at hread
    refine get_eq (s := s) hparse ?_
    rw [start_write hev hpay hroot atoms]
    exact hread

/-- Setting a sequence that a slot does not take is setting what it is opened to. -/
theorem relaxes (hev : ev.Typed) (hroot : HasType ev.schema root root.typeOf) (source : String) :
    ev.Relaxes source root where
  single k item x hnot hx := set_agrees_of_prepare hev hroot fun s hs =>
    Ty.prepare_single (hnot s hs) hx s.label
  empty k item hnot := set_agrees_of_prepare hev hroot fun s hs => Ty.prepare_nil (hnot s hs) s.label
  several k item xs s w fill hcomes hnot hxs := by
    have h := hcomes.set_agrees (.value (some (.seq k item xs)))
    rw [deliver, Step.write, Ty.prepare_several hnot hxs] at h
    exact h
  whole k item xs s w fill hcomes htakes := by
    obtain ⟨x, hx, hxtype, hshown⟩ :=
      Ty.exists_prepare_of_takes (v := .seq k item xs) rfl htakes s.label
    have h := hcomes.set_agrees (.value (some (.seq k item xs)))
    rw [deliver, Step.write_eq_store hx] at h
    exact ⟨x, hxtype, hshown, h⟩
  read k item xs s hlaw hv hs htakes h := get_set_of_takes hev hlaw hroot hv rfl hs htakes h

set_option maxRecDepth 10000 in
/-- The quantity of a line on a shelf takes a list with one number, not one with two. -/
theorem relaxes_stocked :
    Shelf.evaluator.Typed ∧ HasType Shelf.evaluator.schema Shelf.stocked Shelf.stocked.typeOf ∧
      (Shelf.evaluator.set "bin['a b'][2].qty"
        (.value (some (.seq .vec (.int .u32) [.int .u32 7]))) Shelf.stocked).result = .ok () ∧
      (Shelf.evaluator.set "bin['a b'][2].qty"
        (.value (some (.seq .vec (.int .u32) [.int .u32 7, .int .u32 8]))) Shelf.stocked).result =
          .error (.arity "qty" 2) ∧
      Shelf.evaluator.Relaxes "bin['a b'][2].qty" Shelf.stocked :=
  ⟨Shelf.typed, Shelf.hasType_stocked, rfl, rfl, relaxes Shelf.typed Shelf.hasType_stocked _⟩

end Evaluator

end ObjectPath
