import ObjectPath.Walk.Store
import ObjectPath.Convert.Strings

/-!
# Evaluation

An evaluator knows the schema of an object graph and the converters for its leaves.  It resolves the
atoms of an expression one after the other: each atom is looked up where the walk stands, and gives
a step, or, for a member that takes an index, asks for the next atom.

A read stops at the first null.  A write creates the missing values on its way and makes arrays
longer that are too short for the next index.  `terminal` resolves an expression from the declared
types alone.
-/

namespace ObjectPath

/-- What an evaluation needs to know: the declared types and the converters. -/
structure Evaluator where
  schema : Schema
  converters : Registry

/-- Where the next atom is looked up. -/
inductive Site
  /-- In a value of a type, which the member `origin` holds. -/
  | value (type : Ty) (origin : Option Member)
  /-- As the index of a member. -/
  | index (m : Member) (type : Ty)

/-- The fault of a path that ends where a further atom is needed. -/
def Site.unfinished : Site → Fault
  | .value _ _ => .malformedPath .nothingLeft
  | .index m _ => .malformedPath (.noIndex m.name)

/-- What an atom resolves to. -/
inductive Resolved
  | step (s : Step)
  | site (s : Site)

/-- What a read finds. -/
inductive Reading
  | null (label : String)
  | found (value : Value) (step : Step)

/-- What a write stores at the end of its path. -/
inductive Payload
  /-- A value, or null. -/
  | value (v : Option Value)
  /-- Strings, to be converted for the slot. -/
  | strings (raw : List String)

namespace Evaluator

/-! ## Resolution -/

/-- Resolves an atom. -/
def resolve (ev : Evaluator) (site : Site) (a : Atom) : Except Fault Resolved :=
  match site with
  | .index m t =>
    match ev.converters.parse none a.text t with
    | .ok index => .ok (.step (.indexed m index a.text))
    | .error f => .error f
  | .value t origin =>
    match t with
    | .record _ =>
      match (ev.schema.metadata? t).bind (·.member? a.text) with
      | none => .error (.noSuchMember a.text t)
      | some m =>
        match m.index? with
        | some index => .ok (.site (.index m index))
        | none => .ok (.step (.member m))
    | .seq _ item =>
      match a.index? with
      | some i => .ok (.step (.element i item origin))
      | none => .error (.malformedPath (.notAnIndex a))
    | .map _ key value =>
      match ev.converters.parse none a.text key with
      | .ok k => .ok (.step (.entry k a.text value origin))
      | .error f => .error f
    | .option _ | .leaf _ => .error (.noSuchMember a.text t)

/-- The last step of a path, resolved from declared types alone.  A member that takes an index may
end the path without one. -/
def terminal (ev : Evaluator) : Site → List Atom → Except Fault Step
  | .value t o, [] => .error (Site.value t o).unfinished
  | .index m _, [] => .ok (.member m)
  | site, a :: rest =>
    match ev.resolve site a with
    | .error f => .error f
    | .ok (.site next) => ev.terminal next rest
    | .ok (.step s) =>
      if rest.isEmpty then .ok s else ev.terminal (.value s.type.declared s.origin) rest

/-! ## Reading -/

/-- Follows a path from a value, and stops at the first null. -/
def read (ev : Evaluator) (v : Value) : Site → List Atom → Except Fault Reading
  | site, [] => .error site.unfinished
  | site, a :: rest =>
    match ev.resolve site a with
    | .error f => .error f
    | .ok (.site next) => ev.read v next rest
    | .ok (.step s) =>
      match s.read v with
      | .error f => .error f
      | .ok none => .ok (.null s.label)
      | .ok (some w) =>
        if rest.isEmpty then .ok (.found w s) else ev.read w (.value w.typeOf s.origin) rest

/-! ## Writing -/

/-- Stores a payload in the slot a step leads to. -/
def deliver (ev : Evaluator) (payload : Payload) (s : Step) (v : Value) : Written :=
  match payload with
  | .value x => s.write ev.schema v x
  | .strings raw =>
    match ev.converters.parseStrings s.override? s.type s.label raw with
    | .ok x => s.write ev.schema v x
    | .error f => .failed v f

/-- Creates the value a step leads to if it is missing. -/
def fillIn (ev : Evaluator) (s : Step) (next : Atom) (v : Value) : Written :=
  match s.place v with
  | .error f => .failed v f
  | .ok (.place v _) => .done v
  | .ok (.nothing v) =>
    match s.create ev.schema next with
    | .error f => .failed v f
    | .ok x => (s.write ev.schema v (some x)).after (.created x.typeOf s.label)

/-- Replaces the array a step leads to by a longer one if the next atom needs it.  The longer array
is stored like any other value; the items move into it before. -/
def lengthen (ev : Evaluator) (s : Step) (next : Atom) (v : Value) : Written :=
  match next.index? with
  | none => .done v
  | some index =>
    match s.place v with
    | .error f => .failed v f
    | .ok (.nothing v) => .done v
    | .ok (.place v p) =>
      match p.value with
      | .seq .boxed item items =>
        if index < items.length then .done v
        else
          match requiredLength index s.label with
          | .error f => .failed v f
          | .ok length =>
            match Value.resized ev.schema item items length with
            | (_, none) => .done v
            | (left, some longer) =>
              (s.write ev.schema (p.fill (.seq .boxed item left))
                (some (.seq .boxed item longer))).after (.grew s.label length)
      | _ => .done v

/-- Follows a path from a value and stores a payload at its end. -/
def write (ev : Evaluator) (payload : Payload) (v : Value) : Site → List Atom → Written
  | site, [] => .failed v site.unfinished
  | site, a :: rest =>
    match ev.resolve site a with
    | .error f => .failed v f
    | .ok (.site next) => ev.write payload v next rest
    | .ok (.step s) =>
      match rest.head? with
      | none => ev.deliver payload s v
      | some next =>
        ((ev.fillIn s next v).andThen (ev.lengthen s next)).andThen fun v =>
          match s.place v with
          | .error f => .failed v f
          | .ok (.nothing v) => .failed v (.malformedPath (.stillNull s.label))
          | .ok (.place _ p) =>
            (ev.write payload p.value (.value p.value.typeOf s.origin) rest).within p.fill

/-! ## Expressions -/

/-- Where an evaluation of a value starts. -/
def start (v : Value) : Site := .value v.typeOf none

/-- A failed evaluation of an expression. -/
def blame (source : String) {α : Type} : Except Fault α → Except EvalError α
  | .ok a => .ok a
  | .error f => .error ⟨source, f⟩

/-- The atoms of an expression. -/
def parse (source : String) : Except Fault (List Atom) :=
  match Expression.atoms source with
  | .ok atoms => .ok atoms
  | .error e => .error (.badSyntax e)

/-- Reads what an expression addresses. -/
def reading (ev : Evaluator) (source : String) (root : Value) : Except EvalError Reading :=
  blame source do ev.read root (start root) (← parse source)

/-- The value an expression addresses; none for null. -/
def get (ev : Evaluator) (source : String) (root : Value) : Except EvalError (Option Value) := do
  match ← ev.reading source root with
  | .null _ => return none
  | .found v _ => return some v

/-- The value an expression addresses, which must be of a type. -/
def getValue (ev : Evaluator) (source : String) (t : Ty) (root : Value) :
    Except EvalError (Option Value) := do
  match ← ev.reading source root with
  | .null _ => return none
  | .found v s =>
    if v.typeOf = t then return some v
    else .error ⟨source, .typeMismatch s.label t (.value v.typeOf)⟩

/-- The text of the value an expression addresses. -/
def getString (ev : Evaluator) (source : String) (root : Value) :
    Except EvalError (Option String) := do
  match ← ev.reading source root with
  | .null _ => return none
  | .found v s => some <$> blame source (ev.converters.format s.override? v)

/-- The tag of the member an expression ends at. -/
def getTag (ev : Evaluator) (source : String) (k : TagKind) (root : Value) :
    Except EvalError (Option Tag) :=
  blame source do return (← ev.terminal (start root) (← parse source)).tag? k

/-- Stores a payload at an expression.  A text that is no expression changes nothing. -/
def set (ev : Evaluator) (source : String) (payload : Payload) (root : Value) : Written :=
  match parse source with
  | .error f => .failed root f
  | .ok atoms =>
    (ev.write payload root (start root) atoms).after
      (match payload with
        | .value _ => .setting
        | .strings raw => .settingStrings raw.length)

end Evaluator

end ObjectPath
