import ObjectPath.Ty

/-!
# Values

The values of an object graph.  A value carries enough of its type to tell it (`Value.typeOf`): an
empty sequence its item type, a null slot its inner type.  Equality of values is decidable.
-/

namespace ObjectPath

/-- A leaf value.  A floating point number is its bit pattern, a value of a named leaf type a
number. -/
inductive Leaf
  | bool (b : Bool)
  | char (c : Char)
  | text (s : String)
  | int (t : IntTy) (n : Int)
  | float (t : FloatTy) (pattern : Nat)
  | named (path : String) (n : Nat)
deriving DecidableEq, Repr, Inhabited

/-- The type of a leaf value. -/
def Leaf.type : Leaf → LeafTy
  | .bool _ => .bool
  | .char _ => .char
  | .text _ => .text
  | .int t _ => .int t
  | .float t _ => .float t
  | .named p _ => .named p

/-- A value: a leaf, a null or filled optional slot, a sequence, a map with its entries in the order
they are listed, or a record with its slots in the order of their declaration. -/
inductive Value
  | leaf (l : Leaf)
  | absent (inner : Ty)
  | present (v : Value)
  | seq (kind : SeqKind) (item : Ty) (items : List Value)
  | map (kind : MapKind) (key value : Ty) (entries : List (Value × Value))
  | record (path : String) (slots : List Value)
deriving Repr, Inhabited

namespace Value

/-- A Boolean. -/
abbrev bool (b : Bool) : Value := .leaf (.bool b)

/-- A character. -/
abbrev char (c : Char) : Value := .leaf (.char c)

/-- A text. -/
abbrev text (s : String) : Value := .leaf (.text s)

/-- An integer. -/
abbrev int (t : IntTy) (n : Int) : Value := .leaf (.int t n)

/-- A floating point number. -/
abbrev float (t : FloatTy) (pattern : Nat) : Value := .leaf (.float t pattern)

/-- The type of a value. -/
def typeOf : Value → Ty
  | leaf l => .leaf l.type
  | absent t => .option t
  | present v => .option v.typeOf
  | seq k t _ => .seq k t
  | map k s t _ => .map k s t
  | record p _ => .record p

/-! ## Equality -/

mutual

/-- Whether two values are equal. -/
def same : Value → Value → Bool
  | leaf a, leaf b => decide (a = b)
  | absent s, absent t => decide (s = t)
  | present v, present w => v.same w
  | seq k s xs, seq l t ys => decide (k = l) && decide (s = t) && sameItems xs ys
  | map k s t xs, map l u v ys =>
    decide (k = l) && decide (s = u) && decide (t = v) && sameEntries xs ys
  | record p xs, record q ys => decide (p = q) && sameItems xs ys
  | _, _ => false

/-- Whether two lists of values are equal. -/
def sameItems : List Value → List Value → Bool
  | [], [] => true
  | v :: xs, w :: ys => v.same w && sameItems xs ys
  | _, _ => false

/-- Whether two lists of entries are equal. -/
def sameEntries : List (Value × Value) → List (Value × Value) → Bool
  | [], [] => true
  | (k, v) :: xs, (l, w) :: ys => k.same l && v.same w && sameEntries xs ys
  | _, _ => false

end

mutual

theorem same_iff_eq : ∀ v w : Value, v.same w = true ↔ v = w
  | leaf a, w => by cases w <;> simp [same]
  | absent s, w => by cases w <;> simp [same]
  | present v, w => by cases w <;> simp [same, same_iff_eq v]
  | seq k s xs, w => by cases w <;> simp [same, sameItems_iff_eq xs, and_assoc]
  | map k s t xs, w => by cases w <;> simp [same, sameEntries_iff_eq xs, and_assoc]
  | record p xs, w => by cases w <;> simp [same, sameItems_iff_eq xs]

theorem sameItems_iff_eq : ∀ xs ys : List Value, sameItems xs ys = true ↔ xs = ys
  | [], ys => by cases ys <;> simp [sameItems]
  | v :: xs, ys => by cases ys <;> simp [sameItems, same_iff_eq v, sameItems_iff_eq xs]

theorem sameEntries_iff_eq : ∀ xs ys : List (Value × Value), sameEntries xs ys = true ↔ xs = ys
  | [], ys => by cases ys <;> simp [sameEntries]
  | (k, v) :: xs, ys => by
    cases ys <;>
      simp [sameEntries, same_iff_eq k, same_iff_eq v, sameEntries_iff_eq xs, Prod.ext_iff]

end

instance : DecidableEq Value := fun v w => decidable_of_iff (v.same w = true) (same_iff_eq v w)

/-! ## Order of keys -/

mutual

/-- The numbers by which keys are ordered.  Keys of one type are compared by the first number in
which they differ, and no such list begins another one. -/
def rank : Value → List Int
  | leaf (.bool b) => [if b then 1 else 0]
  | leaf (.char c) => [c.toNat]
  | leaf (.text s) => s.toList.map (fun c => (c.toNat : Int) + 1) ++ [0]
  | leaf (.int _ n) => [n]
  | leaf (.float _ n) => [n]
  | leaf (.named _ n) => [n]
  | absent _ => [0]
  | present v => 1 :: v.rank
  | seq _ _ xs => rankItems xs
  | map _ _ _ xs => rankEntries xs
  | record _ xs => rankItems xs

/-- The numbers of a list of values: each value is announced, and so is the end. -/
def rankItems : List Value → List Int
  | [] => [0]
  | v :: xs => 1 :: v.rank ++ rankItems xs

/-- The numbers of a list of entries. -/
def rankEntries : List (Value × Value) → List Int
  | [] => [0]
  | (k, v) :: xs => 1 :: k.rank ++ v.rank ++ rankEntries xs

end

/-- Whether the first key is listed before the second. -/
def precedes (v w : Value) : Bool := decide (v.rank < w.rank)

/-! ## Shown values -/

mutual

/-- The text that shows a value without its contents: sequences and optional slots are opened, maps
tell their size. -/
def shown : Value → String
  | leaf l => "Reflect(" ++ Ty.path (.leaf l.type) ++ ")"
  | absent _ => "None"
  | present v => "Some(" ++ v.shown ++ ")"
  | seq _ _ xs => "[" ++ shownItems xs ++ "]"
  | map k s t xs => (Ty.map k s t).path ++ "(len = " ++ toString xs.length ++ ")"
  | record p _ => "Reflect(" ++ p ++ ")"

/-- The texts that show the items of a sequence, with commas between them. -/
def shownItems : List Value → String
  | [] => ""
  | [v] => v.shown
  | v :: w :: xs => v.shown ++ ", " ++ shownItems (w :: xs)

end

end Value

end ObjectPath
