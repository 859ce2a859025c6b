/-!
# Integers of fixed width

`IntTy` names the integer types a leaf may have, `IntTy.read` reads a decimal text of one, and
`IntTy.write` writes it.  A text has an optional sign, where `-` belongs to the signed types only,
and at least one ASCII digit.  It is read from left to right and the first problem is reported: a
digit that leaves the range before a later character that is no digit.
-/

namespace ObjectPath

/-- The integer types: the width in bits, or `size` for the width of an index. -/
inductive IntTy
  | i8 | i16 | i32 | i64 | i128 | isize
  | u8 | u16 | u32 | u64 | u128 | usize
deriving DecidableEq, Repr, Inhabited

/-- Why a text is not an integer of the wanted type. -/
inductive IntegerFault
  | empty
  | invalidDigit
  | tooLarge
  | tooSmall
deriving DecidableEq, Repr, Inhabited

/-- The wording of an integer fault. -/
def IntegerFault.message : IntegerFault → String
  | .empty => "cannot parse integer from empty string"
  | .invalidDigit => "invalid digit found in string"
  | .tooLarge => "number too large to fit in target type"
  | .tooSmall => "number too small to fit in target type"

namespace IntTy

/-- The name of an integer type. -/
def name : IntTy → String
  | i8 => "i8" | i16 => "i16" | i32 => "i32" | i64 => "i64" | i128 => "i128" | isize => "isize"
  | u8 => "u8" | u16 => "u16" | u32 => "u32" | u64 => "u64" | u128 => "u128" | usize => "usize"

/-- Whether negative numbers belong to the type. -/
def signed : IntTy → Bool
  | i8 | i16 | i32 | i64 | i128 | isize => true
  | u8 | u16 | u32 | u64 | u128 | usize => false

/-- The width in bits. -/
def bits : IntTy → Nat
  | i8 | u8 => 8
  | i16 | u16 => 16
  | i32 | u32 => 32
  | i64 | u64 | isize | usize => 64
  | i128 | u128 => 128

/-- The least number of the type. -/
def least (t : IntTy) : Int := if t.signed then -(Nat.pow 2 (t.bits - 1) : Int) else 0

/-- The greatest number of the type. -/
def greatest (t : IntTy) : Int :=
  (Nat.pow 2 (if t.signed then t.bits - 1 else t.bits) : Int) - 1

/-- The numbers of the type. -/
def Holds (t : IntTy) (n : Int) : Prop := t.least ≤ n ∧ n ≤ t.greatest

instance (t : IntTy) (n : Int) : Decidable (t.Holds n) :=
  inferInstanceAs (Decidable (t.least ≤ n ∧ n ≤ t.greatest))

/-! ## Reading -/

/-- The value of an ASCII digit. -/
def digit? (c : Char) : Option Nat := if c.isDigit then some (c.toNat - '0'.toNat) else none

/-- Reads the digits `cs` behind a number `n` that has been read so far, away from zero. -/
def readDigits (t : IntTy) (negative : Bool) (n : Int) : List Char → Except IntegerFault Int
  | [] => .ok n
  | c :: cs =>
    match digit? c with
    | none => .error .invalidDigit
    | some d =>
      let m := if negative then n * 10 - d else n * 10 + d
      if t.greatest < m then .error .tooLarge
      else if m < t.least then .error .tooSmall
      else readDigits t negative m cs

/-- Reads a decimal text of the type. -/
def readChars (t : IntTy) : List Char → Except IntegerFault Int
  | [] => .error .empty
  | '+' :: [] => .error .invalidDigit
  | '-' :: [] => .error .invalidDigit
  | '+' :: cs => readDigits t false 0 cs
  | '-' :: cs => if t.signed then readDigits t true 0 cs else .error .invalidDigit
  | cs => readDigits t false 0 cs

/-- Reads a decimal text of the type. -/
def read (t : IntTy) (s : String) : Except IntegerFault Int := t.readChars s.toList

/-! ## Writing -/

/-- The decimal text of a number: `-` for a negative one, then its digits without leading zeros. -/
def writeChars : Int → List Char
  | .ofNat n => Nat.toDigits 10 n
  | .negSucc n => '-' :: Nat.toDigits 10 (n + 1)

/-- The decimal text of a number. -/
def write (n : Int) : String := String.ofList (writeChars n)

end IntTy

end ObjectPath
