import TokenWalk.Value.Arithmetic

/-!
# Comparison

Integral numbers compare exactly.  As soon as one side has a fraction, both are taken as doubles,
and numbers less than `1e-10` apart count as equal.  Texts can only be equal or not.
-/

namespace TokenWalk

namespace Number

/-- The exact integer of a number without a fraction. -/
def integral? : Number → Option Int
  | .int n => some n
  | .double x => if x.isIntegral then x.truncate? else none

/-- A number as a double. -/
def toDouble : Number → Except Stop Double
  | .int n =>
      let x := Double.ofInt n
      if x.isFinite then .ok x else .error (.abort .doubleOverflow)
  | .double x => .ok x

/-- Doubles closer than this count as equal. -/
def tolerance : Double :=
  Double.ofDecimal false 1 (-10)

/-- How two numbers stand to each other. -/
structure Relation where
  equal : Bool
  below : Bool
  above : Bool
  atMost : Bool
  atLeast : Bool

/-- The relation between two integers. -/
def Relation.ofInts (l r : Int) : Relation :=
  ⟨l == r, l < r, r < l, l ≤ r, r ≤ l⟩

/-- The relation between two doubles. -/
def Relation.ofDoubles (l r : Double) : Relation :=
  ⟨(l.sub r).abs.lt tolerance, l.lt r, r.lt l, l.le r, r.le l⟩

/-- What a comparison makes of a relation. -/
def Relation.holds (relation : Relation) : Comparison → Bool
  | .eq => relation.equal
  | .ne => !relation.equal
  | .lt => relation.below
  | .gt => relation.above
  | .le => relation.atMost
  | .ge => relation.atLeast

/-- The relation between two numbers. -/
def relation (a b : Number) : Except Stop Relation :=
  match a.integral?, b.integral? with
  | some l, some r => .ok (.ofInts l r)
  | _, _ => do return .ofDoubles (← a.toDouble) (← b.toDouble)

end Number

namespace Value

/-- Applies an operator to two numbers as a comparison; the operator is looked at last. -/
def compareNumbers (a : Number) (op : Operator) (b : Number) : Except Stop Bool := do
  let relation ← a.relation b
  match op with
  | .comparison op => return relation.holds op
  | .arithmetic op => .error (.abort (.notComparison op))

/-- Applies an operator as a comparison. -/
def compare (left : Value) (op : Operator) (right : Value) : Except Stop Bool :=
  match left, op, right with
  | .str l, .comparison .eq, .str r => .ok (l == r)
  | .str l, .comparison .ne, .str r => .ok (l != r)
  | _, _, _ =>
      match left.number?, right.number? with
      | some a, some b => compareNumbers a op b
      | _, _ => refuse (.incomparable op left.type right.type)

end Value

end TokenWalk
