import ObjectPath.Walk.Store

/-!
# Operations on containers

The operations that sequences, maps and optional slots offer by themselves, without a path.  An
operation that takes a value takes one of exactly the type that is declared; any other value is
handed back, and nothing changes.
-/

namespace ObjectPath

/-- What is selected inside a container. -/
inductive Selector
  /-- The item of a sequence at an index. -/
  | index (i : Nat)
  /-- The value of a map under a key. -/
  | key (k : Value)
  /-- The value in an optional slot. -/
  | content
deriving DecidableEq, Repr

/-- An operation on a container. -/
inductive Operation
  /-- Looks up what is selected. -/
  | get (s : Selector)
  /-- Replaces what is selected. -/
  | put (s : Selector) (v : Value)
  /-- Appends an item to a growable sequence. -/
  | push (v : Value)
  /-- Stores a value under a key of a map. -/
  | insert (k v : Value)
  /-- Moves the items out of a sequence. -/
  | drain
  /-- Moves the items of an array into one of another length. -/
  | resized (length : Nat)
  /-- Replaces the whole value. -/
  | set (v : Value)
deriving DecidableEq, Repr

/-- The answer of an operation. -/
inductive Answer
  /-- Values of this shape do not have the operation. -/
  | wrongKind (k : Kind)
  /-- There is nothing there. -/
  | nothing
  | value (v : Value)
  | items (vs : List Value)
  | accepted
  /-- The value that was handed back. -/
  | rejected (v : Value)
deriving DecidableEq, Repr

namespace Value

/-- The number of items or entries of a sequence or map. -/
def length? : Value → Option Nat
  | seq _ _ items => some items.length
  | map _ _ _ entries => some entries.length
  | _ => none

/-- The place of the content of an optional slot. -/
def content? : (v : Value) → Option (Place v)
  | present v => some ⟨v, present, rfl⟩
  | _ => none

/-- The place that is selected, if it is there; `none` if values of this shape have no such
places. -/
def select (v : Value) : Selector → Option (Option (Place v))
  | .index i =>
    match v with
    | .seq k t items => some (atIndex? i (.seq k t items))
    | _ => none
  | .key key =>
    match v with
    | .map k t u entries => some (atKey? key (.map k t u entries))
    | _ => none
  | .content =>
    match v with
    | .absent t => some (content? (.absent t))
    | .present w => some (content? (.present w))
    | _ => none

end Value

namespace Operation

/-- Applies an operation: the container it leaves behind, and the answer. -/
def apply (schema : Schema) (op : Operation) (c : Value) : Value × Answer :=
  match op with
  | get s =>
    match c.select s with
    | none => (c, .wrongKind c.typeOf.kind)
    | some none => (c, .nothing)
    | some (some p) => (c, .value p.value)
  | put s v =>
    match c.select s with
    | none => (c, .wrongKind c.typeOf.kind)
    | some none => (c, .nothing)
    | some (some p) => if v.typeOf = p.value.typeOf then (p.fill v, .accepted) else (c, .rejected v)
  | push v =>
    match c with
    | .seq k item items =>
      if k.growable then
        match Value.push item items v with
        | .ok items => (.seq k item items, .accepted)
        | .error v => (.seq k item items, .rejected v)
      else (.seq k item items, .wrongKind .array)
    | c => (c, .wrongKind c.typeOf.kind)
  | insert key v =>
    match c with
    | .map k t u entries =>
      if key.typeOf = t ∧ v.typeOf = u then
        (.map k t u (Entries.insert k key v entries), .accepted)
      else (.map k t u entries, .rejected v)
    | c => (c, .wrongKind c.typeOf.kind)
  | drain =>
    match c with
    | .seq k item items => (.seq k item [], .items items)
    | c => (c, .wrongKind c.typeOf.kind)
  | resized length =>
    match c with
    | .seq .boxed item items =>
      match Value.resized schema item items length with
      | (left, some longer) => (.seq .boxed item left, .value (.seq .boxed item longer))
      | (left, none) => (.seq .boxed item left, .nothing)
    | c => (c, .wrongKind c.typeOf.kind)
  | set v => if v.typeOf = c.typeOf then (v, .accepted) else (c, .rejected v)

/-- Applies operations one after the other. -/
def run (schema : Schema) (c : Value) : List Operation → Value × List Answer
  | [] => (c, [])
  | op :: ops =>
    let (c, a) := op.apply schema c
    let (c, as) := run schema c ops
    (c, a :: as)

end Operation

end ObjectPath
