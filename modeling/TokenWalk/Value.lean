import TokenWalk.Number.Shortest
import TokenWalk.Text.Quoted

/-!
# Values

What a variable can hold.  Scripts make integers, doubles and texts; a host can also bind truth
values and the empty value, which no operator takes.
-/

namespace TokenWalk

/-- A number: an integer of any size or a double. -/
inductive Number where
  | int (n : Int)
  | double (x : Double)
  deriving DecidableEq

/-- A value of the language. -/
inductive Value where
  | int (n : Int)
  | float (x : Double)
  | str (s : String)
  | bool (b : Bool)
  | nothing
  deriving DecidableEq

/-- The types of values. -/
inductive ValueType where
  | int
  | float
  | str
  | bool
  | nothing
  deriving DecidableEq, Repr

/-- The name of a type in messages. -/
def ValueType.name : ValueType → String
  | .int => "int"
  | .float => "float"
  | .str => "str"
  | .bool => "bool"
  | .nothing => "NoneType"

namespace Value

/-- The type of a value. -/
def type : Value → ValueType
  | .int _ => .int
  | .float _ => .float
  | .str _ => .str
  | .bool _ => .bool
  | .nothing => .nothing

/-- The number a value is; a truth value is none. -/
def number? : Value → Option Number
  | .int n => some (.int n)
  | .float x => some (.double x)
  | _ => none

/-- Integers and doubles are numbers. -/
def isNumeric (v : Value) : Bool :=
  v.number?.isSome

/-- The text that printing a value writes. -/
def text : Value → String
  | .int n => toString n
  | .float x => x.text
  | .str s => s
  | .bool b => if b then "True" else "False"
  | .nothing => "None"

/-- The text of a value inside a message: as printed, but texts are quoted. -/
def quoted : Value → String
  | .str s => Text.quoted s
  | v => v.text

end Value

end TokenWalk
