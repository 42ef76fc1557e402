import TokenWalk.Fault

/-!
# Arithmetic

Arithmetic is that of signed 64-bit integers: doubles give their integer part and results wrap
around.  Division goes towards zero, the remainder takes the sign of the divisor.

Faults leave their place open; the caller knows which token they belong to.
-/

namespace TokenWalk

/-- The least signed 64-bit integer. -/
def minInt : Int := -0x8000000000000000

/-- The greatest signed 64-bit integer. -/
def maxInt : Int := 0x7FFFFFFFFFFFFFFF

/-- The signed 64-bit integer with the same remainder modulo `2 ^ 64`. -/
def wrap (n : Int) : Int :=
  (n - minInt) % 0x10000000000000000 + minInt

theorem minInt_le_wrap (n : Int) : minInt ≤ wrap n := by
  unfold wrap minInt
  omega

theorem wrap_le_maxInt (n : Int) : wrap n ≤ maxInt := by
  unfold wrap minInt maxInt
  omega

/-- An integer in the signed 64-bit range stays as it is. -/
theorem wrap_of_mem {n : Int} (low : minInt ≤ n) (high : n ≤ maxInt) : wrap n = n := by
  unfold wrap
  unfold minInt at low ⊢
  unfold maxInt at high
  omega

/-- A fault whose place is open. -/
def refuse {α : Type} (cause : Cause) : Except Stop α :=
  .error (.fault { cause })

/-- The integer that a number stands for under an operator: an integer itself, of a double its
wrapped integer part. -/
def Number.operand (op : Operator) : Number → Except Stop Int
  | .int n => .ok n
  | .double x =>
      match x.truncate? with
      | some n => .ok (wrap n)
      | none => refuse (.nonFinite op x)

/-- The quotient of the magnitudes, negated if the signs differ. -/
def quotient (left right : Int) : Int :=
  let magnitude : Int := (left.natAbs / right.natAbs : Nat)
  if decide (left < 0) != decide (right < 0) then -magnitude else magnitude

/-- This is division towards zero. -/
theorem quotient_eq_tdiv (left right : Int) : quotient left right = left.tdiv right := by
  have hnat (k : Nat) : decide (Int.ofNat k < 0) = false := by simp
  have hneg (k : Nat) : decide (Int.negSucc k < 0) = true := by simp
  unfold quotient
  cases left with
  | ofNat m =>
    cases right with
    | ofNat n =>
      rw [hnat, hnat]
      rfl
    | negSucc n =>
      rw [hnat, hneg]
      rfl
  | negSucc m =>
    cases right with
    | ofNat n =>
      rw [hneg, hnat]
      rfl
    | negSucc n =>
      rw [hneg, hneg]
      rfl

/-- The exact result of an arithmetic operator. -/
def Arithmetic.compute (left right : Int) : Arithmetic → Except Stop Int
  | .add => .ok (left + right)
  | .sub => .ok (left - right)
  | .mul => .ok (left * right)
  | .div => if right == 0 then refuse .divisionByZero else .ok (quotient left right)
  | .mod => if right == 0 then refuse .moduloByZero else .ok (left.fmod right)

/-- Applies an operator as arithmetic.  The operands' types are checked first, then their values
from left to right, then the operator. -/
def Value.apply (left : Value) (op : Operator) (right : Value) : Except Stop Int :=
  match left.number?, right.number? with
  | some a, some b => do
      let l ← a.operand op
      let r ← b.operand op
      match op with
      | .arithmetic op => return wrap (← op.compute l r)
      | .comparison op => .error (.abort (.notArithmetic op))
  | _, _ => refuse (.invalidOperands op left.type right.type)

end TokenWalk
