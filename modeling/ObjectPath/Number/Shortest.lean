import ObjectPath.Number.Binary

/-!
# Shortest decimal text

The decimal text of a floating point number has the fewest digits that are read back as the same
number; of two such numbers with equally many digits the nearer one is taken, and the greater one on
a tie.  The text is positional: it never has an exponent, and a whole number has no point.
-/

namespace ObjectPath.FloatTy

/-- The numbers that are read back as one number: those between `low / den` and `high / den`, the
ends included if `closed`.  The number itself is `mid / den`. -/
structure Interval where
  low : Nat
  mid : Nat
  high : Nat
  den : Nat
  closed : Bool

/-- The numbers that are read back as `m * 2 ^ q`: up to half way to the neighbours.  The neighbour
below a power of two is half as far away as the one above. -/
def interval (t : FloatTy) (m : Nat) (q : Int) : Interval :=
  let gap := if m = Nat.pow 2 (t.precision - 1) then 1 else 2
  let (unit, den) := scaled 2 1 1 (2 - q)
  ⟨(4 * m - gap) * unit, 4 * m * unit, (4 * m + 2) * unit, den, m % 2 == 0⟩

/-- The number of the grid of multiples of `10 ^ e` that is chosen, if one lies in the interval. -/
def Interval.onGrid (i : Interval) (e : Int) : Option Nat :=
  let (num, den) := scaled 10 i.mid i.den e
  let (low, _) := scaled 10 i.low i.den e
  let (high, _) := scaled 10 i.high i.den e
  let n := num / den
  let down := if i.closed then low ≤ n * den else low < n * den
  let up := if i.closed then (n + 1) * den ≤ high else (n + 1) * den < high
  if up ∧ (¬ down ∨ den ≤ 2 * (num % den)) then some (n + 1)
  else if down then some n
  else none

/-- The coarsest of the grids from `10 ^ e` on downwards that has a number in the interval, with
that number; at most `fuel` grids are tried. -/
def Interval.coarsest (i : Interval) (e : Int) : Nat → Nat × Int
  | 0 => (i.mid / i.den, 0)
  | fuel + 1 =>
    match i.onGrid e with
    | some n => (n, e)
    | none => i.coarsest (e - 1) fuel

/-- An exponent `e` with `m * 2 ^ q < 10 ^ e` or hardly above: where the search for a grid
starts. -/
def startExponent (m : Nat) (q : Int) : Int := ((m.log2 : Int) + q + 1) * 30103 / 100000 + 1

/-- The digits and the exponent of the shortest decimal that is read back as `m * 2 ^ q`. -/
def shortest (t : FloatTy) (m : Nat) (q : Int) : Nat × Int :=
  (t.interval m q).coarsest (startExponent m q) (t.precision + 2)

/-- The positional text of `n * 10 ^ e`. -/
def positional (n : Nat) (e : Int) : List Char :=
  let digits := Nat.toDigits 10 n
  match e with
  | .ofNat k => digits ++ List.replicate k '0'
  | .negSucc k =>
    let places := k + 1
    if places < digits.length then
      digits.take (digits.length - places) ++ '.' :: digits.drop (digits.length - places)
    else ['0', '.'] ++ List.replicate (places - digits.length) '0' ++ digits

/-- The text of the number with the given pattern. -/
def writeChars (t : FloatTy) (pattern : Nat) : List Char :=
  let sign (negative : Bool) : List Char := if negative then ['-'] else []
  match t.decode pattern with
  | .nan => ['N', 'a', 'N']
  | .infinite negative => sign negative ++ ['i', 'n', 'f']
  | .finite negative 0 _ => sign negative ++ ['0']
  | .finite negative m q =>
    let (n, e) := t.shortest m q
    sign negative ++ positional n e

/-- The text of the number with the given pattern. -/
def write (t : FloatTy) (pattern : Nat) : String := String.ofList (t.writeChars pattern)

end ObjectPath.FloatTy
