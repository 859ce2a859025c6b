import ObjectPath.Fault
import ObjectPath.Value

/-!
# Fitting values into slots

A slot takes a value of its own type, and an optional slot also one of its inner type.  A write is
more lenient: it takes null for an optional slot, and a sequence in place of its only element.
-/

namespace ObjectPath

namespace Ty

/-- The value that stands for null in a slot of the type. -/
def null? : Ty → Option Value
  | option t => some (.absent t)
  | _ => none

/-- Fits a value into a slot of type `target`: as it is, or as the content of an optional slot.  A
value that does not fit is handed back. -/
def fit (target : Ty) (v : Value) : Except Value Value :=
  if v.typeOf = target then .ok v
  else
    match target with
    | option t => if v.typeOf = t then .ok (.present v) else .error v
    | _ => .error v

/-- The value of type `target` for null. -/
def prepareNull (target : Ty) (member : String) : Except Fault Value :=
  match target.null? with
  | some v => .ok v
  | none => .error (.typeMismatch member target .null)

/-- The value of type `target` for a value handed to a write.  `none` is null.  A sequence that does
not fit itself is null when it is empty and its element when it has only one. -/
def prepare (target : Ty) (member : String) : Option Value → Except Fault Value
  | none => target.prepareNull member
  | some v =>
    match target.fit v with
    | .ok v => .ok v
    | .error v =>
      match v with
      | .seq _ _ [] => target.prepareNull member
      | .seq _ _ [x] =>
        match target.fit x with
        | .ok x => .ok x
        | .error x => .error (.typeMismatch member target (.value x.typeOf))
      | .seq _ _ xs => .error (.arity member xs.length)
      | v => .error (.typeMismatch member target (.value v.typeOf))

end Ty

namespace Value

/-- The first item that is not of a type. -/
def stranger? (item : Ty) (items : List Value) : Option Value :=
  items.find? fun v => v.typeOf ≠ item

/-- The sequence of some items; the first item of another type is handed back. -/
def collect (kind : SeqKind) (item : Ty) (items : List Value) : Except Value Value :=
  match stranger? item items with
  | some v => .error v
  | none => .ok (.seq kind item items)

/-- A value as the content of an optional slot; a value of another type is handed back. -/
def wrap (inner : Ty) (v : Value) : Except Value Value :=
  if v.typeOf = inner then .ok (.present v) else .error v

end Value

end ObjectPath
