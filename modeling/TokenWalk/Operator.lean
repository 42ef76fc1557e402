/-!
# Operators

The binary operators of the language in their two families: arithmetic makes a number of two
numbers, a comparison makes a decision.
-/

namespace TokenWalk

/-- The arithmetic operators. -/
inductive Arithmetic where
  | add
  | sub
  | mul
  | div
  | mod
  deriving DecidableEq, Repr

/-- The comparison operators. -/
inductive Comparison where
  | eq
  | ne
  | gt
  | lt
  | ge
  | le
  deriving DecidableEq, Repr

/-- A binary operator. -/
inductive Operator where
  | arithmetic (op : Arithmetic)
  | comparison (op : Comparison)
  deriving DecidableEq, Repr

/-- The way an arithmetic operator is written. -/
def Arithmetic.symbol : Arithmetic → String
  | .add => "+"
  | .sub => "-"
  | .mul => "*"
  | .div => "/"
  | .mod => "%"

/-- The arithmetic operator a text writes. -/
def Arithmetic.ofSymbol? : String → Option Arithmetic
  | "+" => some .add
  | "-" => some .sub
  | "*" => some .mul
  | "/" => some .div
  | "%" => some .mod
  | _ => none

@[simp] theorem Arithmetic.ofSymbol?_symbol (op : Arithmetic) : ofSymbol? op.symbol = some op := by
  cases op <;> rfl

/-- The way a comparison is written. -/
def Comparison.symbol : Comparison → String
  | .eq => "=="
  | .ne => "!="
  | .gt => ">"
  | .lt => "<"
  | .ge => ">="
  | .le => "<="

/-- The comparison a text writes. -/
def Comparison.ofSymbol? : String → Option Comparison
  | "==" => some .eq
  | "!=" => some .ne
  | ">" => some .gt
  | "<" => some .lt
  | ">=" => some .ge
  | "<=" => some .le
  | _ => none

@[simp] theorem Comparison.ofSymbol?_symbol (op : Comparison) : ofSymbol? op.symbol = some op := by
  cases op <;> rfl

/-- The way an operator is written. -/
def Operator.symbol : Operator → String
  | .arithmetic op => op.symbol
  | .comparison op => op.symbol

/-- The operator a text writes. -/
def Operator.ofSymbol? (text : String) : Option Operator :=
  ((Arithmetic.ofSymbol? text).map .arithmetic).or ((Comparison.ofSymbol? text).map .comparison)

/-- Every operator is read back from the way it is written. -/
@[simp] theorem Operator.ofSymbol?_symbol (op : Operator) : ofSymbol? op.symbol = some op := by
  cases op with
  | arithmetic op => cases op <;> rfl
  | comparison op => cases op <;> rfl

end TokenWalk
