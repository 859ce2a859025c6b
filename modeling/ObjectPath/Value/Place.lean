import ObjectPath.Value.Entries

/-!
# Places

A place inside a value is what stands there together with the way to put something else there.
Putting back what stands there changes nothing; that is all that is known of a place in general.
The places of a record are its slots, those of a sequence its items, and those of a map its values.
-/

namespace ObjectPath

/-- A place inside `root`: the value that stands there, and `root` with another value there. -/
structure Place (root : Value) where
  value : Value
  fill : Value → Value
  fill_value : fill value = root

namespace Value

/-- The value in an optional slot; every other value is its own. -/
def unwrapped : Value → Option Value
  | absent _ => none
  | present v => some v
  | v => some v

/-- The place of a slot of a record. -/
def atSlot? (i : Nat) : (v : Value) → Option (Place v)
  | .record p xs =>
    match h : xs[i]? with
    | some x => some ⟨x, fun y => .record p (xs.set i y), by
        obtain ⟨hi, rfl⟩ := List.getElem?_eq_some_iff.1 h
        simp⟩
    | none => none
  | _ => none

/-- The place of an item of a sequence. -/
def atIndex? (i : Nat) : (v : Value) → Option (Place v)
  | .seq k t xs =>
    match h : xs[i]? with
    | some x => some ⟨x, fun y => .seq k t (xs.set i y), by
        obtain ⟨hi, rfl⟩ := List.getElem?_eq_some_iff.1 h
        simp⟩
    | none => none
  | _ => none

/-- The place of the value under a key of a map. -/
def atKey? (key : Value) : (v : Value) → Option (Place v)
  | .map k s t es =>
    match h : Entries.get? key es with
    | some x => some ⟨x, fun y => .map k s t (Entries.replace key y es), by
        rw [Entries.replace_get? h]⟩
    | none => none
  | _ => none

end Value

namespace Place

variable {root : Value}

/-- A place inside what stands at a place. -/
def compose (p : Place root) (q : Place p.value) : Place root :=
  ⟨q.value, fun v => p.fill (q.fill v), by rw [q.fill_value, p.fill_value]⟩

/-- The place behind an optional slot: none if the slot is null. -/
def inner? (p : Place root) : Option (Place root) :=
  match h : p.value with
  | .absent _ => none
  | .present v => some ⟨v, fun w => p.fill (.present w), by rw [← h, p.fill_value]⟩
  | _ => some p

end Place

/-- What is offered to a write: the value as it is left behind, and a place in it, if there is
one. -/
inductive Offer
  | nothing (left : Value)
  | place (left : Value) (p : Place left)

namespace Offer

/-- What is offered without a change. -/
def of {v : Value} : Option (Place v) → Offer
  | none => nothing v
  | some p => place v p

/-- The value that is left behind. -/
def left : Offer → Value
  | nothing v => v
  | place v _ => v

/-- What is offered behind an optional slot: nothing if the slot is null. -/
def inner : Offer → Offer
  | nothing v => nothing v
  | place _ p => of p.inner?

end Offer

end ObjectPath
