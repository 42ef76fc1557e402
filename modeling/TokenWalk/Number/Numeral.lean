import TokenWalk.Number.Double
import TokenWalk.Text.Blank
import TokenWalk.Text.Quoted

/-!
# Numerals

Reading numbers from text.  Blanks may surround a numeral, digits of every decimal script count,
and a single low line may stand between two digits.

* `Numeral.readInteger`: an optional sign and digits, at most 4300 of them;
* `Numeral.writeInteger`: the other way round, with the same bound;
* `Numeral.readDouble`: an optional sign, then digits with an optional point and exponent, or the
  words for infinity and not a number.
-/

namespace TokenWalk

namespace Numeral

open Text

/-- Why a text is no number, or a number has no text. -/
inductive Defect where
  /-- The text is no integer. -/
  | notInteger (text : String)
  /-- The integer has more digits than are read. -/
  | tooManyDigits (count : Nat)
  /-- The integer has more digits than are written. -/
  | tooLong
  /-- The text is no decimal number. -/
  | notDecimal (text : String)
  deriving DecidableEq, Repr

/-- The most digits an integer is read and written with. -/
def maxDigits : Nat := 4300

/-- The words for a defect; a text that is no integer is shown up to 200 characters. -/
def Defect.message : Defect → String
  | .notInteger text =>
      "invalid literal for int() with base 10: " ++ String.ofList ((quoted text).toList.take 200)
  | .tooManyDigits count =>
      "Exceeds the limit (" ++ toString maxDigits ++ " digits) for integer string conversion: " ++
        "value has " ++ toString count ++
        " digits; use sys.set_int_max_str_digits() to increase the limit"
  | .tooLong =>
      "Exceeds the limit (" ++ toString maxDigits ++ " digits) for integer string conversion; " ++
        "use sys.set_int_max_str_digits() to increase the limit"
  | .notDecimal text => "could not convert string to float: " ++ quoted text

/-- The blanks that may surround a numeral: all but the information separators. -/
def isPadding (c : Char) : Bool :=
  isBlank c && !(0x1C ≤ c.toNat && c.toNat ≤ 0x1F)

/-- Splits off an optional sign; the first part tells whether it is a minus. -/
def takeSign : List Char → Bool × List Char
  | '-' :: cs => (true, cs)
  | '+' :: cs => (false, cs)
  | cs => (false, cs)

/-- The number written by the digits among `cs`. -/
def ofDigits (cs : List Char) : Nat :=
  (cs.filterMap digitValue?).foldl (fun n d => 10 * n + d) 0

/-- Drops the low lines between digits; none if one stands elsewhere.  The flag says whether a digit
stands just before. -/
def ungroup (afterDigit : Bool) : List Char → Option (List Char)
  | [] => some []
  | c :: cs =>
      if c == '_' then
        if afterDigit && (cs.head?.any isDigit) then ungroup false cs else none
      else (ungroup (isDigit c) cs).map (c :: ·)

/-- The integer a text writes. -/
def readInteger (text : String) : Except Defect Int :=
  let (negative, cs) := takeSign (text.toList.dropWhile isPadding)
  let inNumber (c : Char) : Bool := isDigit c || c == '_'
  match ungroup false (cs.takeWhile inNumber) with
  | none | some [] => .error (.notInteger text)
  | some digits =>
      -- The length is checked before what follows the digits is looked at.
      if maxDigits < digits.length then .error (.tooManyDigits digits.length)
      else if !(cs.dropWhile inNumber).all isPadding then .error (.notInteger text)
      else .ok (Double.signed negative (ofDigits digits))

/-- How many digits the text of an integer has. -/
def digitCount (n : Int) : Nat :=
  (Nat.toDigits 10 n.natAbs).length

theorem lt_digitCount_negSucc {k : Nat} (hk : 0 < k) : k < digitCount (.negSucc (Nat.pow 10 k)) := by
  have hdigits : (Nat.toDigits 10 (Nat.pow 10 k).succ).length ≤ k ↔ (Nat.pow 10 k).succ < 10 ^ k :=
    Nat.length_toDigits_le_iff (by decide) hk
  have hlong : ¬ (Nat.pow 10 k).succ < 10 ^ k := Nat.not_lt.mpr (Nat.le_succ _)
  exact Nat.not_le.mp (mt hdigits.mp hlong)

/-- The text of an integer. -/
def writeInteger (n : Int) : Except Defect String :=
  if maxDigits < digitCount n then .error .tooLong else .ok (toString n)

/-- The exponent part of a decimal: nothing, or the letter, an optional sign and digits. -/
def readExponent? : List Char → Option Int
  | [] => some 0
  | c :: cs =>
      let (negative, digits) := takeSign cs
      if (c == 'e' || c == 'E') && !digits.isEmpty && digits.all isDigit then
        some (Double.signed negative (ofDigits digits))
      else none

/-- An unsigned decimal: digits, an optional point with more digits, an optional exponent. -/
def readUnsigned? (negative : Bool) (cs : List Char) : Option Double :=
  let whole := cs.takeWhile isDigit
  let (fraction, rest) :=
    match cs.dropWhile isDigit with
    | '.' :: cs => (cs.takeWhile isDigit, cs.dropWhile isDigit)
    | cs => ([], cs)
  if whole.isEmpty && fraction.isEmpty then none
  else
    (readExponent? rest).map fun exponent =>
      Double.ofDecimal negative (ofDigits (whole ++ fraction)) (exponent - fraction.length)

/-- The double a text writes. -/
def readDouble (text : String) : Except Defect Double :=
  let value := (ungroup false (trimBy isPadding text.toList)).bind fun cs =>
    let (negative, cs) := takeSign cs
    let word := String.ofList (cs.map Char.toLower)
    if word == "inf" || word == "infinity" then some (.infinite negative)
    else if word == "nan" then some .nan
    else readUnsigned? negative cs
  match value with
  | some x => .ok x
  | none => .error (.notDecimal text)

end Numeral

end TokenWalk
