import ObjectPath.Walk.Step
import ObjectPath.Walk.Written
import ObjectPath.Convert.Fit

/-!
# Storing through a step

`Step.write` stores a value in the slot a step leads to.  A growable sequence is padded with default
items up to the index; an array is never made longer here.  `Step.create` makes the value that a
missing slot needs so that the next atom can lead further, and `Value.resized` the longer array that
takes the place of one that is too short.
-/

namespace ObjectPath

/-- The number of items of a sequence that has an item at `index`.  Indices and lengths are numbers
of 64 bits. -/
def requiredLength (index : Nat) (label : String) : Except Fault Nat :=
  if index + 1 < UInt64.size then .ok (index + 1)
  else .error (.malformedPath (.indexTooLarge index label))

namespace Value

/-- Appends an item; an item of another type is handed back. -/
def push (item : Ty) (items : List Value) (v : Value) : Except Value (List Value) :=
  if v.typeOf = item then .ok (items ++ [v]) else .error v

/-- The array with `length` items: cut, or filled up with default items.  What is left of the array
itself is the first component; it is empty, unless default items are needed and there are none. -/
def resized (schema : Schema) (item : Ty) (items : List Value) (length : Nat) :
    List Value × Option (List Value) :=
  match schema.default? item with
  | some d =>
    ([], some (items.take length ++ List.replicate (length - items.length) d))
  | none => if items.length < length then (items, none) else ([], some (items.take length))

end Value

namespace Step

/-- Appends `count` default items to a list, one after the other. -/
def pad (s : Step) (schema : Schema) (item : Ty) : Nat → List Value → List Value × Except Fault Unit
  | 0, items => (items, .ok ())
  | count + 1, items =>
    match schema.default? item with
    | none => (items, .error (.instantiation item))
    | some d =>
      match Value.push item items d with
      | .ok items => s.pad schema item count items
      | .error d => (items, .error (.typeMismatch s.label s.type (.value d.typeOf)))

/-- Stores a value at an index of a growable sequence. -/
def writeItem (s : Step) (schema : Schema) (item : Ty) (items : List Value) (index : Nat)
    (v : Value) : List Value × Except Fault Unit :=
  let mismatch : Fault := .typeMismatch s.label s.type (.value v.typeOf)
  match items[index]? with
  | some old =>
    if v.typeOf = old.typeOf then (items.set index v, .ok ()) else (items, .error mismatch)
  | none =>
    match requiredLength index s.label with
    | .error f => (items, .error f)
    | .ok _ =>
      match s.pad schema item (index - items.length) items with
      | (items, .error f) => (items, .error f)
      | (items, .ok ()) =>
        match Value.push item items v with
        | .ok items => (items, .ok ())
        | .error _ => (items, .error mismatch)

/-- Stores a value at an index of an array. -/
def writeArrayItem (s : Step) (items : List Value) (index : Nat) (v : Value) :
    Except Fault (List Value) :=
  match items[index]? with
  | some old =>
    if v.typeOf = old.typeOf then .ok (items.set index v)
    else .error (.typeMismatch s.label s.type (.value v.typeOf))
  | none => .error (.malformedPath (.outOfBounds index s.label))

/-- Stores a value of the type of the slot in the slot a step leads to. -/
def store (s : Step) (schema : Schema) (v x : Value) : Written :=
  match s with
  | member m => .attempt v (m.write v x)
  | indexed m i _ => .attempt v (m.writeAt s.label v i x)
  | element index item _ =>
    match v with
    | .seq k t items =>
      if k.growable then
        let (items, result) := s.writeItem schema item items index x
        ⟨.seq k t items, [], result⟩
      else
        match s.writeArrayItem items index x with
        | .ok items => .done (.seq k t items)
        | .error f => .failed v f
    | v => .failed v s.wrongContainer
  | entry key _ _ _ =>
    match v with
    | .map k t u entries =>
      if key.typeOf = t ∧ x.typeOf = u then .done (.map k t u (Entries.insert k key x entries))
      else .failed v (.typeMismatch s.label s.type (.value x.typeOf))
    | v => .failed v s.wrongContainer

/-- Stores a value, or null for `none`, in the slot a step leads to. -/
def write (s : Step) (schema : Schema) (v : Value) (x : Option Value) : Written :=
  match s.type.prepare s.label x with
  | .ok x => s.store schema v x
  | .error f => .failed v f

/-- The value to create in a missing slot.  An array is made as long as the atom that leads into it
needs. -/
def create (s : Step) (schema : Schema) (next : Atom) : Except Fault Value :=
  let plain (t : Ty) : Except Fault Value :=
    match schema.default? t with
    | some v => .ok v
    | none => .error (.instantiation t)
  match s.type.declared with
  | .seq k item =>
    if k.growable then plain (.seq k item)
    else
      match next.index? with
      | none => .error (.missingIndex s.label)
      | some index =>
        match requiredLength index s.label with
        | .error f => .error f
        | .ok length =>
          match schema.default? item with
          | none => .error (.instantiation item)
          | some d =>
            match Value.collect k item (List.replicate length d) with
            | .ok v => .ok v
            | .error _ => .error (.instantiation (.seq k item))
  | t => plain t

end Step

end ObjectPath
