import TokenWalk.Number.Double

/-!
# Writing doubles

A double is written with the fewest digits that read back to it, the nearest such digits if there
are several, and the even one of two equally near.

* `Shortest.decimal` finds those digits: reals round to a double exactly when they lie between the
  midpoints to its neighbours, so each decimal grid is tried from the coarsest on, at its two points
  around the value, until one of them lies there.
* `Double.text` lays the digits out: with a point while the exponent is from `-4` to `15`, with an
  explicit exponent otherwise.
-/

namespace TokenWalk

namespace Shortest

/-- The reals that round to the double `m · 2 ^ e`, over the common denominator `den`: those between
`low` and `high` around `value`, the ends included when `closed`. -/
structure Interval where
  low : Nat
  value : Nat
  high : Nat
  den : Nat
  closed : Bool

/-- The interval of the positive double `m · 2 ^ e`. -/
def interval (m : Nat) (e : Int) : Interval :=
  -- In quarters of `2 ^ e`, the neighbours' midpoints are two away, but one away below a power of
  -- two, where the doubles lie twice as dense.
  let below := if m == Nat.pow 2 52 && e != -1074 then 1 else 2
  let (factor, den) := if 2 ≤ e then (Nat.pow 2 (e - 2).toNat, 1) else (1, Nat.pow 2 (2 - e).toNat)
  { low := (4 * m - below) * factor, value := 4 * m * factor, high := (4 * m + 2) * factor
    den, closed := m % 2 == 0 }

/-- The point `k · 10 ^ grid` is in the interval. -/
def Interval.contains (i : Interval) (k : Nat) (grid : Int) : Bool :=
  let (point, unit) :=
    if 0 ≤ grid then (k * Nat.pow 10 grid.toNat * i.den, 1)
    else (k * i.den, Nat.pow 10 (-grid).toNat)
  if i.closed then i.low * unit ≤ point && point ≤ i.high * unit
  else i.low * unit < point && point < i.high * unit

/-- The exponent of the greatest power of ten up to `num / den`. -/
def decimalExponent (num den : Nat) : Int :=
  let atLeast (k : Int) : Bool :=
    if 0 ≤ k then Nat.pow 10 k.toNat * den ≤ num else den ≤ num * Nat.pow 10 (-k).toNat
  -- A binary digit is 0.30103 decimal ones; the estimate is off by one at most.
  let guess := Int.fdiv (((num.log2 : Int) - den.log2) * 30103) 100000
  if !atLeast guess then guess - 1
  else if atLeast (guess + 1) then guess + 1
  else guess

/-- The value's neighbour on the grid of multiples of `10 ^ grid` that lies in the interval, the
nearer one if both do. -/
def Interval.pick? (i : Interval) (grid : Int) : Option Nat :=
  let (num, den) :=
    if 0 ≤ grid then (i.value, i.den * Nat.pow 10 grid.toNat)
    else (i.value * Nat.pow 10 (-grid).toNat, i.den)
  let below := num / den
  match i.contains below grid, i.contains (below + 1) grid with
  | true, true => some (Double.roundDiv num den)
  | true, false => some below
  | false, true => some (below + 1)
  | false, false => none

/-- The fewest digits that read back to `m · 2 ^ e`, as `k · 10 ^ grid`. -/
def decimal (m : Nat) (e : Int) : Nat × Int :=
  let i := interval m e
  let top := decimalExponent i.value i.den
  -- Seventeen digits always suffice.
  ((List.range 17).findSome? fun (count : Nat) =>
      let grid := top - count
      (i.pick? grid).map (·, grid)).getD (0, 0)

end Shortest

namespace Double

/-- The decimal `k · 10 ^ grid` written out, the trailing zeros of `k` dropped. -/
def layout (k : Nat) (grid : Int) : String :=
  let all := Nat.toDigits 10 k
  let point : Int := all.length + grid
  let digits := (all.reverse.dropWhile (· == '0')).reverse
  let count : Int := digits.length
  let body : List Char :=
    if -4 < point && point ≤ 0 then
      '0' :: '.' :: List.replicate (-point).toNat '0' ++ digits
    else if 0 < point && point < count then
      digits.take point.toNat ++ '.' :: digits.drop point.toNat
    else if 0 < point && point ≤ 16 then
      digits ++ List.replicate (point - count).toNat '0' ++ ['.', '0']
    else
      let exponent := point - 1
      let power := Nat.toDigits 10 exponent.natAbs
      let mantissa :=
        match digits with
        | d :: d' :: ds => d :: '.' :: d' :: ds
        | _ => digits
      mantissa ++ 'e' :: (if exponent < 0 then '-' else '+') ::
        (List.replicate (2 - power.length) '0' ++ power)
  String.ofList body

/-- The text of a double. -/
def text : Double → String
  | .nan => "nan"
  | .infinite negative => if negative then "-inf" else "inf"
  | .finite negative m e _ =>
      let body :=
        if m == 0 then "0.0"
        else
          let (k, grid) := Shortest.decimal m e
          layout k grid
      if negative then "-" ++ body else body

end Double

end TokenWalk
