import TokenWalk.Cursor
import TokenWalk.Scopes
import TokenWalk.Value.Comparison

/-!
# Expressions and conditions

An expression is a row of terms joined by arithmetic operators, applied from left to right as they
are read; there is no precedence.  A comparison operator ends it.  A condition is two expressions
around a comparison.

Evaluating reads the scopes and moves the cursor; it changes nothing else.
-/

namespace TokenWalk

/-- The value of an integer literal.  An exponent makes it a double. -/
def integerLiteral (text : String) : Except Stop Value :=
  if text.toList.any fun c => c == 'e' || c == 'E' then
    match Numeral.readDouble text with
    | .ok x => .ok (.float x)
    | .error defect => .error (.abort (.numeral defect))
  else
    match Numeral.readInteger text with
    | .ok n => if minInt ≤ n && n ≤ maxInt then .ok (.int n) else refuse (.literalOutOfRange text)
    | .error defect => .error (.abort (.numeral defect))

/-- The value of a literal with a point. -/
def floatLiteral (text : String) : Except Stop Value :=
  match Numeral.readDouble text with
  | .ok x => .ok (.float x)
  | .error defect => .error (.abort (.numeral defect))

/-- The value a token stands for, if it is a term: a literal or a variable. -/
def Token.value? (scopes : Scopes) (t : Token) : Option (Except Stop Value) :=
  match t.kind with
  | .integer => some (integerLiteral t.text)
  | .float => some (floatLiteral t.text)
  | .string => some (.ok (.str t.text))
  | .identifier =>
      some (match scopes.lookup t.text with
        | some value => .ok value
        | none => refuse (.undefinedVariable t.text))
  | _ => none

namespace Reading

/-- A result whose fault points at a token. -/
def ofExcept {α : Type} (token : Token) : Except Stop α → Reading α
  | .ok a => pure a
  | .error stop => throw (stop.locate (some token.place.line) (some token.place.column))

/-- Evaluates a term.  The token is taken before its value is looked up. -/
def term (scopes : Scopes) : Reading Value := do
  let token ← current
  match token.value? scopes with
  | some value? =>
      let _ ← advance
      ofExcept token value?
  | none => fail token (.unexpectedToken .value token)

/-- The token is an operator that does not end an expression. -/
def joins (t : Token) : Bool :=
  t.kind == .operator && (Comparison.ofSymbol? t.text).isNone

/-- Goes on with an expression whose terms so far have the value `left`, by one operator for each of
`bound` at most. -/
def operations (scopes : Scopes) : (bound : List Token) → (left : Value) → Reading Value
  | [], left => return left
  | _ :: bound, left => do
      let token ← current
      if joins token then
        let _ ← advance
        match Arithmetic.ofSymbol? token.text with
        | none => fail token (.unknownOperator token.text)
        | some op =>
            let right ← term scopes
            let n ← ofExcept token (left.apply (.arithmetic op) right)
            operations scopes bound (.int n)
      else return left

/-- Evaluates an expression.  Every operator takes a token, so the tokens left are bound enough. -/
def expression (scopes : Scopes) : Reading Value := do
  let first ← term scopes
  operations scopes (← get).rest first

/-- Evaluates a condition. -/
def condition (scopes : Scopes) : Reading Bool := do
  let left ← expression scopes
  let token ← current
  match token.kind, Comparison.ofSymbol? token.text with
  | .operator, some op =>
      let _ ← advance
      let right ← expression scopes
      ofExcept token (left.compare (.comparison op) right)
  | _, _ => fail token (.unexpectedToken .comparison token)

end Reading

end TokenWalk
