import ObjectPath.Number.Binary

/-!
# Reading decimal numbers

A decimal text has an optional sign and either one of the words `inf`, `infinity` and `nan` in any
letter case, or digits with an optional point and an optional exponent.  There is a digit on some
side of the point and behind the exponent mark.  The number read is the nearest of the format.
-/

namespace ObjectPath

/-- Why a text is not a floating point number. -/
inductive FloatFault
  | empty
  | invalid
deriving DecidableEq, Repr

/-- The wording of a floating point fault. -/
def FloatFault.message : FloatFault → String
  | .empty => "cannot parse float from empty string"
  | .invalid => "invalid float literal"

/-- The decimal `digits * 10 ^ exponent`. -/
structure Decimal where
  digits : Nat
  exponent : Int
deriving DecidableEq, Repr

namespace Decimal

/-- The exponent behind an exponent mark: an optional sign and at least one digit. -/
def readExponent (cs : List Char) : Option Int :=
  let digits (cs : List Char) : Option Nat :=
    if !cs.isEmpty && cs.all Char.isDigit then some (Nat.ofDigitChars 10 cs 0) else none
  match cs with
  | '+' :: cs => (digits cs).map Int.ofNat
  | '-' :: cs => (digits cs).map fun n => -(n : Int)
  | cs => (digits cs).map Int.ofNat

/-- Reads an unsigned decimal with an optional point and an optional exponent. -/
def read (cs : List Char) : Option Decimal :=
  let whole := cs.takeWhile Char.isDigit
  let rest := cs.dropWhile Char.isDigit
  let (places, rest) : List Char × List Char :=
    match rest with
    | '.' :: rest => (rest.takeWhile Char.isDigit, rest.dropWhile Char.isDigit)
    | rest => ([], rest)
  if whole.isEmpty && places.isEmpty then none
  else
    let mantissa := Nat.ofDigitChars 10 (whole ++ places) 0
    match rest with
    | [] => some ⟨mantissa, -places.length⟩
    | c :: rest =>
      if c == 'e' || c == 'E' then
        (readExponent rest).map fun e => ⟨mantissa, e - places.length⟩
      else none

/-- The pattern nearest to a decimal.  A decimal far beyond the range of the format is not written
out as a fraction. -/
def nearest (d : Decimal) (t : FloatTy) : Nat :=
  let magnitude : Int := d.exponent + (Nat.toDigits 10 d.digits).length
  if d.digits = 0 then 0
  else if 400 < magnitude then t.infinity
  else if magnitude < -400 then 0
  else
    let (den, num) := FloatTy.scaled 10 1 d.digits d.exponent
    t.nearest num den

end Decimal

namespace FloatTy

/-- The pattern of a word that stands for no finite number. -/
def readWord (t : FloatTy) (cs : List Char) : Option Nat :=
  let word := String.ofList (cs.map Char.toLower)
  if word = "inf" ∨ word = "infinity" then some t.infinity
  else if word = "nan" then some t.nan
  else none

/-- Reads a decimal text as a pattern of the format. -/
def readChars (t : FloatTy) (cs : List Char) : Except FloatFault Nat :=
  let unsigned (negative : Bool) (cs : List Char) : Except FloatFault Nat :=
    match Decimal.read cs with
    | some d => .ok (t.signed negative (d.nearest t))
    | none =>
      match t.readWord cs with
      | some pattern => .ok (t.signed negative pattern)
      | none => .error .invalid
  match cs with
  | [] => .error .empty
  | '+' :: cs => unsigned false cs
  | '-' :: cs => unsigned true cs
  | cs => unsigned false cs

/-- Reads a decimal text as a pattern of the format. -/
def read (t : FloatTy) (s : String) : Except FloatFault Nat := t.readChars s.toList

end FloatTy

end ObjectPath
