import TokenWalk.Number.Numeral
import TokenWalk.Operator
import TokenWalk.Token
import TokenWalk.Value

/-!
# Faults

What can stop a script.  A `Fault` is the script's own: it has a cause, the place it points at and
the file.  An `Abort` is a failure of the host's services, such as a number text that cannot be
read; it is never reported as a fault.  A `Stop` is either of them.

The wording of faults is in one place: `Cause.text` for the cause, `located` for the place.
-/

namespace TokenWalk

/-- What was expected in place of a token. -/
inductive Expectation where
  /-- Any token of the kind. -/
  | kind (kind : Kind)
  /-- The token with the text. -/
  | text (text : String)
  /-- A literal or a variable. -/
  | value
  /-- A comparison operator. -/
  | comparison
  deriving DecidableEq, Repr

/-- The words for an expectation. -/
def Expectation.words : Expectation → String
  | .kind k => k.name
  | .text t => "'" ++ t ++ "'"
  | .value => "a value"
  | .comparison => "comparison operator"

/-- The causes of faults. -/
inductive Cause where
  | unexpectedCharacter (c : Char)
  | unterminatedString
  | unterminatedComment
  | unknownEscape (c : Char)
  /-- The keyword starts no statement. -/
  | unhandledKeyword (keyword : String)
  | undefinedVariable (name : String)
  | redeclared (name : String)
  | unexpectedToken (expected : Expectation) (found : Token)
  /-- The operator is neither arithmetic nor a comparison. -/
  | unknownOperator (symbol : String)
  | divisionByZero
  | moduloByZero
  | nonFinite (op : Operator) (x : Double)
  | literalOutOfRange (text : String)
  /-- An operand of the operator is not a number. -/
  | invalidOperands (op : Operator) (left right : ValueType)
  /-- The two types have no such comparison. -/
  | incomparable (op : Operator) (left right : ValueType)
  /-- A loop ran more often than the cap allows. -/
  | loopLimit (cap : Int)
  | unclosedBlock
  | nestingTooDeep
  deriving DecidableEq

/-- The families of causes, by which a report names a fault. -/
inductive Family where
  | lexical
  | unhandledKeyword
  | undefinedVariable
  | redeclaration
  | unexpectedToken
  | arithmetic
  | operandType
  | loopLimit
  | unclosedBlock
  | nestingTooDeep
  deriving DecidableEq, Repr

/-- The name of a family in reports. -/
def Family.name : Family → String
  | .lexical => "LexError"
  | .unhandledKeyword => "UnhandledKeywordError"
  | .undefinedVariable => "UndefinedVariableError"
  | .redeclaration => "RedeclarationError"
  | .unexpectedToken => "UnexpectedTokenError"
  | .arithmetic => "ScriptArithmeticError"
  | .operandType => "OperandTypeError"
  | .loopLimit => "LoopLimitExceeded"
  | .unclosedBlock => "UnclosedBlockError"
  | .nestingTooDeep => "NestingTooDeepError"

namespace Cause

/-- The family of a cause. -/
def family : Cause → Family
  | .unexpectedCharacter _ => .lexical
  | .unterminatedString => .lexical
  | .unterminatedComment => .lexical
  | .unknownEscape _ => .lexical
  | .unhandledKeyword _ => .unhandledKeyword
  | .undefinedVariable _ => .undefinedVariable
  | .redeclared _ => .redeclaration
  | .unexpectedToken _ _ => .unexpectedToken
  | .unknownOperator _ => .unexpectedToken
  | .divisionByZero => .arithmetic
  | .moduloByZero => .arithmetic
  | .nonFinite _ _ => .arithmetic
  | .literalOutOfRange _ => .arithmetic
  | .invalidOperands _ _ _ => .operandType
  | .incomparable _ _ _ => .operandType
  | .loopLimit _ => .loopLimit
  | .unclosedBlock => .unclosedBlock
  | .nestingTooDeep => .nestingTooDeep

/-- The words for a cause. -/
def text : Cause → String
  | .unexpectedCharacter c => "Unexpected character: " ++ c.toString
  | .unterminatedString => "Unterminated string literal"
  | .unterminatedComment => "Unterminated multi-line comment"
  | .unknownEscape c => "Unexpected escape sequence: \\" ++ c.toString
  | .unhandledKeyword keyword => "Unhandled keyword '" ++ keyword ++ "'"
  | .undefinedVariable name => "Undefined variable '" ++ name ++ "'"
  | .redeclared name => "Variable '" ++ name ++ "' already declared in current scope"
  | .unexpectedToken expected found =>
      "Expected " ++ expected.words ++ " but found " ++ found.describe
  | .unknownOperator symbol => "Unknown operator: " ++ symbol
  | .divisionByZero => "Division by zero"
  | .moduloByZero => "Modulo by zero"
  | .nonFinite op x => "Cannot apply '" ++ op.symbol ++ "' to non-finite value " ++ x.text
  | .literalOutOfRange text => "Integer literal out of range: " ++ text
  | .invalidOperands op left right =>
      "Invalid operands for operator " ++ op.symbol ++ ": " ++ left.name ++ " and " ++ right.name
  | .incomparable op left right =>
      "Cannot compare " ++ left.name ++ " and " ++ right.name ++ " with '" ++ op.symbol ++ "'"
  | .loopLimit cap => "Maximum loop iteration count (" ++ toString cap ++ ") exceeded"
  | .unclosedBlock => "Unclosed block"
  | .nestingTooDeep => "Blocks nested too deeply"

end Cause

/-- A text followed by the place it speaks of, as far as that is known.  A column is told only
together with its line. -/
def located (text : String) (line column : Option Int) (file : Option String) : String :=
  let place :=
    match line, column with
    | some l, some c => " on line " ++ toString l ++ ", column " ++ toString c
    | some l, none => " on line " ++ toString l
    | none, _ => ""
  text ++ place ++ (file.map (" in " ++ ·)).getD ""

/-- A fault of a script. -/
structure Fault where
  cause : Cause
  line : Option Int := none
  column : Option Int := none
  file : Option String := none
  deriving DecidableEq

namespace Fault

/-- A fault at a place of a source text whose file is not known yet. -/
def ofPlace (place : Place) (cause : Cause) : Fault :=
  { cause, line := some place.line, column := some place.column }

/-- Fills in the file, unless it is known already. -/
def inFile (f : Fault) (file : String) : Fault :=
  { f with file := f.file.or (some file) }

/-- The words for a fault, its place included. -/
def message (f : Fault) : String :=
  located f.cause.text f.line f.column f.file

/-- The line by which a fault is reported. -/
def report (f : Fault) : String :=
  f.cause.family.name ++ ": " ++ f.message

end Fault

/-- A failure that is not the script's. -/
inductive Abort where
  /-- A number text cannot be read, or a number not be written. -/
  | numeral (defect : Numeral.Defect)
  /-- A name to be updated is bound nowhere. -/
  | unbound (name : String)
  /-- A comparison was applied as arithmetic. -/
  | notArithmetic (op : Comparison)
  /-- An arithmetic operator was applied as a comparison. -/
  | notComparison (op : Arithmetic)
  /-- An integer is past the largest double. -/
  | doubleOverflow
  deriving DecidableEq

/-- The words for an abort. -/
def Abort.message : Abort → String
  | .numeral defect => defect.message
  | .unbound name => Text.quoted name
  | .notArithmetic op => "Not an arithmetic operator: " ++ op.symbol
  | .notComparison op => "Not a comparison operator: " ++ op.symbol
  | .doubleOverflow => "int too large to convert to float"

/-- Why a run stops before its end. -/
inductive Stop where
  | fault (f : Fault)
  | abort (a : Abort)
  deriving DecidableEq

/-- Why a loop past its cap stops.  The words of the fault tell the cap; a cap too long for that
aborts the run. -/
def Stop.overrun (place : Place) (cap : Int) : Stop :=
  match Numeral.writeInteger cap with
  | .ok _ => .fault (.ofPlace place (.loopLimit cap))
  | .error defect => .abort (.numeral defect)

theorem Stop.overrun_of_short {cap : Int} (h : Numeral.digitCount cap ≤ Numeral.maxDigits)
    (place : Place) : overrun place cap = .fault (.ofPlace place (.loopLimit cap)) := by
  rw [overrun, Numeral.writeInteger, if_neg (Nat.not_lt.mpr h)]

theorem Stop.overrun_of_long {cap : Int} (h : Numeral.maxDigits < Numeral.digitCount cap)
    (place : Place) : overrun place cap = .abort (.numeral .tooLong) := by
  rw [overrun, Numeral.writeInteger, if_pos h]

/-- Points a fault at a place; an abort has none. -/
def Stop.locate (line column : Option Int) : Stop → Stop
  | .fault f => .fault { f with line, column }
  | .abort a => .abort a

end TokenWalk
