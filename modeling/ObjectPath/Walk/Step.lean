import ObjectPath.Member
import ObjectPath.Schema

/-!
# Steps

A step leads from a value to one inside it: a member of a record, a member at an index, an element
of a sequence, or an entry of a map.  Reading a step sees through an optional slot: it gives the
value in the slot, or none for null.
-/

namespace ObjectPath

/-- A step of a path.  Indices and keys are converted already; `label` is how they were written.
`origin` is the member that holds the sequence or the map. -/
inductive Step
  | member (m : Member)
  | indexed (m : Member) (index : Value) (label : String)
  | element (index : Nat) (item : Ty) (origin : Option Member)
  | entry (key : Value) (label : String) (value : Ty) (origin : Option Member)

namespace Step

/-- The declared type of the slot a step leads to; it may be optional. -/
def type : Step → Ty
  | member m | indexed m _ _ => m.type
  | element _ t _ => t
  | entry _ _ t _ => t

/-- The member a step belongs to. -/
def origin : Step → Option Member
  | member m | indexed m _ _ => some m
  | element _ _ o | entry _ _ _ o => o

/-- A tag of the member a step belongs to. -/
def tag? (s : Step) (k : TagKind) : Option Tag := s.origin.bind (·.tag? k)

/-- The converter that overrides the registered one for a step. -/
def override? (s : Step) : Option Converter := (s.tag? .convert).bind (·.converter?)

/-- The name of a step in messages. -/
def label (s : Step) : String :=
  let holder := (s.origin.map (·.name)).getD ""
  match s with
  | member m => m.name
  | indexed _ _ l | entry _ l _ _ => holder ++ "[" ++ l ++ "]"
  | element i _ _ => holder ++ "[" ++ toString i ++ "]"

/-- The fault of a step on a value of another shape. -/
def wrongContainer (s : Step) : Fault := .malformedPath (.wrongContainer s.label)

/-- The content of the slot a step leads to. -/
def slot (s : Step) (v : Value) : Except Fault (Option Value) :=
  match s with
  | member m => m.read v
  | indexed m i _ => m.readAt v i
  | element i _ _ =>
    match v with
    | .seq _ _ items => .ok items[i]?
    | _ => .error s.wrongContainer
  | entry k _ _ _ =>
    match v with
    | .map _ _ _ entries => .ok (Entries.get? k entries)
    | _ => .error s.wrongContainer

/-- The value a step leads to; none for null. -/
def read (s : Step) (v : Value) : Except Fault (Option Value) :=
  match s.slot v with
  | .ok content => .ok (content.bind (·.unwrapped))
  | .error f => .error f

/-- The place of the slot a step leads to. -/
def slotPlace (s : Step) (v : Value) : Except Fault Offer :=
  match s with
  | member m => m.place v
  | indexed m i _ => m.placeAt v i
  | element i _ _ =>
    match v with
    | .seq k t items => .ok (.of (Value.atIndex? i (.seq k t items)))
    | _ => .error s.wrongContainer
  | entry key _ _ _ =>
    match v with
    | .map k t u entries => .ok (.of (Value.atKey? key (.map k t u entries)))
    | _ => .error s.wrongContainer

/-- The place of the value a step leads to; none for null. -/
def place (s : Step) (v : Value) : Except Fault Offer :=
  match s.slotPlace v with
  | .ok o => .ok o.inner
  | .error f => .error f

end Step

end ObjectPath
