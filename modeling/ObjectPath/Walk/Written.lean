import ObjectPath.Fault
import ObjectPath.Value

/-!
# Outcomes of writes

A write gives the value it leaves behind, what it did on the way, and whether it succeeded.  A
failed write leaves a value behind too, with what was done before the failure.
-/

namespace ObjectPath

/-- What an evaluation tells about its way. -/
inductive Event
  /-- A value is about to be stored. -/
  | setting
  /-- Some strings are about to be converted and stored. -/
  | settingStrings (count : Nat)
  /-- A read met a null. -/
  | null (label : String)
  /-- A missing value was created. -/
  | created (type : Ty) (label : String)
  /-- An array was made longer. -/
  | grew (label : String) (length : Nat)
deriving DecidableEq, Repr

/-- The wording of an event of the evaluation of an expression. -/
def Event.message (expression : String) : Event → String
  | .setting => "setting `" ++ expression ++ "`"
  | .settingStrings n => "setting `" ++ expression ++ "` from " ++ toString n ++ " string(s)"
  | .null l => "`" ++ expression ++ "`: `" ++ l ++ "` is null"
  | .created t l => "`" ++ expression ++ "`: created `" ++ t.path ++ "` for `" ++ l ++ "`"
  | .grew l n => "`" ++ expression ++ "`: grew `" ++ l ++ "` to " ++ toString n ++ " elements"

/-- The outcome of a write. -/
structure Written where
  value : Value
  events : List Event
  result : Except Fault Unit

namespace Written

/-- Success that leaves a value behind. -/
def done (v : Value) : Written := ⟨v, [], .ok ()⟩

/-- Failure that leaves a value behind. -/
def failed (v : Value) (f : Fault) : Written := ⟨v, [], .error f⟩

/-- The outcome of an attempt on `v`; failure leaves `v` as it was. -/
def attempt (v : Value) : Except Fault Value → Written
  | .ok w => done w
  | .error f => failed v f

/-- An outcome with an event in front. -/
def after (e : Event) (w : Written) : Written := ⟨w.value, e :: w.events, w.result⟩

/-- Goes on with what is left behind, unless the write failed. -/
def andThen (w : Written) (next : Value → Written) : Written :=
  match w.result with
  | .ok () =>
    let w' := next w.value
    ⟨w'.value, w.events ++ w'.events, w'.result⟩
  | .error f => ⟨w.value, w.events, .error f⟩

/-- The outcome seen from outside: what is left behind is put in its place. -/
def within (fill : Value → Value) (w : Written) : Written := ⟨fill w.value, w.events, w.result⟩

end Written

end ObjectPath
