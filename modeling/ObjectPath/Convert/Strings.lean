import ObjectPath.Convert.Registry
import ObjectPath.Convert.Fit

/-!
# Converting strings for a slot

The converter for a slot is the override of its member, if there is one, and the registered one
otherwise; texts need none.  A blank string is null in an optional slot, and a sequence takes one
string for each element.
-/

namespace ObjectPath.Registry

/-- Converts a string to a value of type `t`, which is not optional. -/
def convert (r : Registry) (override : Option Converter) (t : Ty) (raw : String) :
    Except Fault Value :=
  let run (c : Converter) : Except Fault Value :=
    match c.parse t raw with
    | .error e => .error (.conversion t raw (.refused e))
    | .ok v =>
      match t.fit v with
      | .ok v => .ok v
      | .error v => .error (.conversion t raw (.produced v.typeOf))
  match override with
  | some c => run c
  | none =>
    if t = .text then .ok (.text raw)
    else
      match r.get? t with
      | some c => run c
      | none => .error (.noConverter t)

/-- Converts a string to a value of a type.  For an optional type a blank string is null. -/
def parse (r : Registry) (override : Option Converter) (raw : String) : Ty → Except Fault Value
  | .option t =>
    if Text.allBlank raw then .ok (.absent t)
    else
      match r.parse override raw t with
      | .error e => .error e
      | .ok v =>
        match v.wrap t with
        | .ok v => .ok v
        | .error v => .error (.typeMismatch raw t (.value v.typeOf))
  | t => r.convert override t raw

/-- Converts strings one by one; the first failure ends it. -/
def parseItems (r : Registry) (override : Option Converter) (item : Ty) :
    List String → Except Fault (List Value)
  | [] => .ok []
  | s :: raw =>
    match r.parse override s item with
    | .error e => .error e
    | .ok v =>
      match r.parseItems override item raw with
      | .error e => .error e
      | .ok vs => .ok (v :: vs)

/-- Converts the strings bound to a member of type `target`; `none` is null. -/
def parseStrings (r : Registry) (override : Option Converter) (target : Ty) (member : String)
    (raw : List String) : Except Fault (Option Value) :=
  match target.declared with
  | .seq kind item =>
    match r.parseItems override item raw with
    | .error e => .error e
    | .ok items =>
      match Value.collect kind item items with
      | .ok v => .ok (some v)
      | .error v => .error (.typeMismatch member item (.value v.typeOf))
  | _ =>
    match raw with
    | [] => .ok none
    | [s] =>
      match r.parse override s target with
      | .error e => .error e
      | .ok v => .ok (some v)
    | raw => .error (.arity member raw.length)

/-- The text of a value. -/
def format (r : Registry) (override : Option Converter) (v : Value) : Except Fault String :=
  let run (c : Converter) : Except Fault String :=
    match c.format v with
    | .ok s => .ok s
    | .error e => .error (.conversion v.typeOf v.shown (.refused e))
  match override with
  | some c => run c
  | none =>
    match v with
    | .leaf (.text s) => .ok s
    | v =>
      match r.get? v.typeOf with
      | some c => run c
      | none => .error (.noConverter v.typeOf)

end ObjectPath.Registry
