/-!
# Double-precision numbers

A double is a signed multiple `m · 2^e` of a power of two with `m` below `2^53` and `e` from `-1074`
to `971`, an infinity, or not a number.  Each finite value has one pair `(m, e)`, the canonical one,
and both signs of zero are kept apart.

All arithmetic is exact until one rounding step:

* `ofRatio` rounds a quotient of naturals to the nearest double, a half going to the even neighbour;
  reading a decimal, converting an integer and subtracting all end in it;
* `units` gives a finite double as an exact integer number of the least positive double `2^-1074`,
  so order and difference are those of integers.
-/

namespace TokenWalk

/-- The pair `(m, e)` names `m · 2^e` canonically: `m` fills its 53 bits unless `e` is least. -/
def Double.Canonical (m : Nat) (e : Int) : Prop :=
  m < Nat.pow 2 53 ∧ -1074 ≤ e ∧ e ≤ 971 ∧ (Nat.pow 2 52 ≤ m ∨ e = -1074)

instance (m : Nat) (e : Int) : Decidable (Double.Canonical m e) :=
  inferInstanceAs (Decidable (_ ∧ _))

/-- A double-precision number. -/
inductive Double where
  /-- The value `± mantissa · 2 ^ exponent`. -/
  | finite (negative : Bool) (mantissa : Nat) (exponent : Int)
      (canonical : Double.Canonical mantissa exponent)
  /-- Positive or negative infinity. -/
  | infinite (negative : Bool)
  /-- Not a number. -/
  | nan
  deriving DecidableEq

namespace Double

/-! ## Rounding -/

/-- The natural number nearest to `num / den`; a half goes to the even neighbour. -/
def roundDiv (num den : Nat) : Nat :=
  let q := num / den
  let twice := 2 * (num % den)
  if twice < den || (twice == den && q % 2 == 0) then q else q + 1

/-- The quotient `num / den / 2 ^ e` as a pair of naturals. -/
def scaled (num den : Nat) (e : Int) : Nat × Nat :=
  if 0 ≤ e then (num, den * Nat.pow 2 e.toNat) else (num * Nat.pow 2 (-e).toNat, den)

/-- The exponent at which `num / den` has 53 bits before the point, or the least one. -/
def exponentFor (num den : Nat) : Int :=
  -- `num / den` lies strictly between `2 ^ (d - 1)` and `2 ^ (d + 1)` for the difference `d`.
  let low : Int := num.log2 - den.log2 - 53
  let (n, d) := scaled num den low
  let e := if n / d < Nat.pow 2 53 then low else low + 1
  if e < -1074 then -1074 else e

/-- The double `± m · 2 ^ e` of a canonical pair; past the largest exponent it is an infinity. -/
def pack (negative : Bool) (m : Nat) (e : Int) : Double :=
  if h : Canonical m e then .finite negative m e h else .infinite negative

/-- Zero with a sign. -/
def zero (negative : Bool) : Double :=
  .finite negative 0 (-1074) (by decide)

/-- The double nearest to `± num / den`. -/
def ofRatio (negative : Bool) (num den : Nat) : Double :=
  if num == 0 then zero negative
  else
    let e := exponentFor num den
    let (n, d) := scaled num den e
    let m := roundDiv n d
    if m == Nat.pow 2 53 then pack negative (Nat.pow 2 52) (e + 1) else pack negative m e

/-- The double nearest to `± digits · 10 ^ exponent`. -/
def ofDecimal (negative : Bool) (digits : Nat) (exponent : Int) : Double :=
  -- Past these bounds the value is beyond all doubles or below half of the least one, and the power
  -- of ten need not be formed.
  if digits == 0 || exponent < -(400 + (digits.log2 : Int)) then zero negative
  else if 400 < exponent then .infinite negative
  else if 0 ≤ exponent then ofRatio negative (digits * Nat.pow 10 exponent.toNat) 1
  else ofRatio negative digits (Nat.pow 10 (-exponent).toNat)

/-- The double nearest to an integer, an infinity when it is past the largest one. -/
def ofInt (n : Int) : Double :=
  ofRatio (n < 0) n.natAbs 1

/-! ## Exact value -/

/-- Gives a magnitude its sign. -/
def signed (negative : Bool) (n : Nat) : Int :=
  if negative then -(n : Int) else n

/-- The value `± m · 2 ^ e` in units of `2 ^ -1074`. -/
def units (negative : Bool) (m : Nat) (e : Int) : Int :=
  signed negative (m * Nat.pow 2 (e + 1074).toNat)

/-- Neither an infinity nor not a number. -/
def isFinite : Double → Bool
  | .finite .. => true
  | _ => false

/-- The integer part, towards zero. -/
def truncate? : Double → Option Int
  | .finite negative m e _ =>
      some (signed negative
        (if 0 ≤ e then m * Nat.pow 2 e.toNat else m / Nat.pow 2 (-e).toNat))
  | _ => none

/-- Finite with no fractional part. -/
def isIntegral : Double → Bool
  | .finite _ m e _ => 0 ≤ e || m % Nat.pow 2 (-e).toNat == 0
  | _ => false

/-! ## Order and difference -/

/-- The order of the values; not a number is below nothing and above nothing. -/
def lt : Double → Double → Bool
  | .nan, _ => false
  | _, .nan => false
  | .infinite a, .infinite b => a && !b
  | .infinite a, .finite .. => a
  | .finite .., .infinite b => !b
  | .finite a m e _, .finite b n f _ => units a m e < units b n f

/-- Below or equal; false as soon as one side is not a number. -/
def le (x y : Double) : Bool :=
  x != .nan && y != .nan && !lt y x

/-- The magnitude. -/
def abs : Double → Double
  | .finite _ m e h => .finite false m e h
  | .infinite _ => .infinite false
  | .nan => .nan

/-- The rounded difference. -/
def sub : Double → Double → Double
  | .nan, _ => .nan
  | _, .nan => .nan
  | .infinite a, .infinite b => if a == b then .nan else .infinite a
  | .infinite a, .finite .. => .infinite a
  | .finite .., .infinite b => .infinite !b
  | .finite a m e _, .finite b n f _ =>
      let difference := units a m e - units b n f
      ofRatio (difference < 0) difference.natAbs (Nat.pow 2 1074)

end Double

end TokenWalk
