/-!
# Binary floating point numbers

`FloatTy` names the two interchange formats with 32 and 64 bits.  A number is kept as its bit
pattern.  `FloatTy.decode` reads a pattern as a sign and `m * 2 ^ q`, and `FloatTy.nearest` gives
the pattern nearest to a positive fraction, where a tie goes to the even pattern and a fraction
beyond the greatest number to infinity.
-/

namespace ObjectPath

/-- The binary interchange formats. -/
inductive FloatTy
  | single
  | double
deriving DecidableEq, Repr, Inhabited

/-- What a bit pattern stands for; a finite number is `m * 2 ^ q`, negated if `negative`. -/
inductive Decoded
  | nan
  | infinite (negative : Bool)
  | finite (negative : Bool) (m : Nat) (q : Int)
deriving DecidableEq, Repr, Inhabited

namespace FloatTy

/-- The name of a format. -/
def name : FloatTy → String
  | single => "f32"
  | double => "f64"

/-- The number of binary digits of a normal number. -/
def precision : FloatTy → Nat
  | single => 24
  | double => 53

/-- The width of the exponent field. -/
def exponentBits : FloatTy → Nat
  | single => 8
  | double => 11

/-- The width of a pattern. -/
def bits (t : FloatTy) : Nat := t.precision + t.exponentBits

/-- The exponent of the least positive number. -/
def leastExponent (t : FloatTy) : Int := 3 - (Nat.pow 2 (t.exponentBits - 1) : Int) - t.precision

/-- The pattern of infinity. -/
def infinity (t : FloatTy) : Nat :=
  (Nat.pow 2 t.exponentBits - 1) * Nat.pow 2 (t.precision - 1)

/-- The pattern that stands for no number. -/
def nan (t : FloatTy) : Nat := t.infinity + Nat.pow 2 (t.precision - 2)

/-- The pattern with the sign bit set if `negative`. -/
def signed (t : FloatTy) (negative : Bool) (pattern : Nat) : Nat :=
  if negative then pattern + Nat.pow 2 (t.bits - 1) else pattern

/-- What a pattern stands for. -/
def decode (t : FloatTy) (pattern : Nat) : Decoded :=
  let negative := pattern / Nat.pow 2 (t.bits - 1) % 2 == 1
  let field := pattern / Nat.pow 2 (t.precision - 1) % Nat.pow 2 t.exponentBits
  let fraction := pattern % Nat.pow 2 (t.precision - 1)
  if field = Nat.pow 2 t.exponentBits - 1 then
    if fraction = 0 then .infinite negative else .nan
  else if field = 0 then .finite negative fraction t.leastExponent
  else .finite negative (fraction + Nat.pow 2 (t.precision - 1)) (t.leastExponent + field - 1)

/-! ## Rounding -/

/-- The fraction `num / den` divided by `base ^ e`. -/
def scaled (base num den : Nat) (e : Int) : Nat × Nat :=
  match e with
  | .ofNat k => (num, den * Nat.pow base k)
  | .negSucc k => (num * Nat.pow base (k + 1), den)

/-- The integer nearest to `num / den`; a tie goes to the even one. -/
def roundEven (num den : Nat) : Nat :=
  let r := num % den
  let n := num / den
  if den < 2 * r ∨ (2 * r = den ∧ n % 2 = 1) then n + 1 else n

/-- The exponent `e` with `2 ^ e ≤ num / den < 2 ^ (e + 1)`. -/
def floorLog (num den : Nat) : Int :=
  let e : Int := num.log2 - den.log2
  let (n, d) := scaled 2 num den e
  if d ≤ n then e else e - 1

/-- The pattern nearest to `num / den`. -/
def nearest (t : FloatTy) (num den : Nat) : Nat :=
  if num = 0 then 0
  else
    let q := max (floorLog num den + 1 - t.precision) t.leastExponent
    let (n, d) := scaled 2 num den q
    min t.infinity ((q - t.leastExponent).toNat * Nat.pow 2 (t.precision - 1) + roundEven n d)

end FloatTy

end ObjectPath
