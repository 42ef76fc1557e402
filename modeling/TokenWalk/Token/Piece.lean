import TokenWalk.Fault
import TokenWalk.Text.Blank

/-!
# Pieces of a source text

A source text is cut from left to right into pieces, each by the first of thirteen rules that
applies.  The cut is described by *extents*: at a character `c` followed by `cs`, a rule that applies
says how many characters of `cs` its piece takes besides `c`.

* `Rule.extent?` gives the extent of each rule;
* `Rule.first` picks the rule of a piece;
* `Mark.past` keeps count of lines and their starts from piece to piece;
* `pieces` cuts a text, stopping after a piece that cannot be part of any program.
-/

namespace TokenWalk

open Text

/-- The lexical rules, in the order in which they are tried. -/
inductive Rule where
  | newline
  | blank
  | lineComment
  | blockComment
  /-- A block comment that never ends. -/
  | openComment
  | string
  /-- A string literal that never ends. -/
  | openString
  | float
  | integer
  | name
  | operator
  | punctuation
  /-- Any other character. -/
  | unmatched
  deriving DecidableEq, Repr

namespace Rule

/-- The rules in order. -/
def all : List Rule :=
  [.newline, .blank, .lineComment, .blockComment, .openComment, .string, .openString, .float,
    .integer, .name, .operator, .punctuation, .unmatched]

/-- The number of leading characters with property `p`. -/
def run (p : Char → Bool) (cs : List Char) : Nat :=
  (cs.takeWhile p).length

/-- A blank that does not end a line. -/
def isSpace (c : Char) : Bool :=
  isBlank c && c != '\n'

/-- The characters up to and including the first `*/`. -/
def commentEnd? : List Char → Option Nat
  | '*' :: '/' :: _ => some 2
  | _ :: cs => (commentEnd? cs).map (· + 1)
  | [] => none

/-- The characters up to and including the first quote that no backslash precedes; a backslash
protects the one character after it. -/
def stringEnd? (quote : Char) : List Char → Option Nat
  | [] => none
  | '\\' :: _ :: cs => (stringEnd? quote cs).map (· + 2)
  | c :: cs =>
      if c == quote then some 1
      else if c == '\\' then none
      else (stringEnd? quote cs).map (· + 1)

/-- The characters of an exponent: the letter, an optional sign and at least one digit.  Without
all of these there is none. -/
def exponent : List Char → Nat
  | e :: cs =>
      if e == 'e' || e == 'E' then
        match cs with
        | sign :: ds =>
            if sign == '+' || sign == '-' then
              if run isDigit ds == 0 then 0 else run isDigit ds + 2
            else if run isDigit cs == 0 then 0 else run isDigit cs + 1
        | [] => 0
      else 0
  | [] => 0

/-- A character that a name can begin with. -/
def startsName (c : Char) : Bool :=
  isWordStart c || c == '$'

/-- A character that a name can go on with. -/
def inName (c : Char) : Bool :=
  isWord c || c == '$'

/-- The operators of two characters. -/
def longOperators : List (Char × Char) :=
  [('=', '='), ('!', '='), ('<', '='), ('>', '='), ('&', '&'), ('|', '|'), ('+', '+'), ('-', '-'),
    ('+', '='), ('-', '='), ('*', '='), ('/', '=')]

/-- The operators of one character. -/
def shortOperators : List Char :=
  ['+', '-', '*', '/', '%', '=', '<', '>', '!', '&', '|', '^', '~']

/-- The punctuation characters. -/
def punctuationMarks : List Char :=
  ['(', ')', '{', '}', '[', ']', ';', ',', '.']

/-- How many characters of `cs` the rule takes after `c`, if it applies. -/
def extent? (c : Char) (cs : List Char) : Rule → Option Nat
  | .newline => if c == '\n' then some 0 else none
  | .blank => if isSpace c then some (run isSpace cs) else none
  | .lineComment =>
      match c, cs with
      | '/', '/' :: cs => some (run (· != '\n') cs + 1)
      | _, _ => none
  | .blockComment =>
      match c, cs with
      | '/', '*' :: cs => (commentEnd? cs).map (· + 1)
      | _, _ => none
  | .openComment =>
      match c, cs with
      | '/', '*' :: _ => some 1
      | _, _ => none
  | .string => if c == '"' || c == '\'' then stringEnd? c cs else none
  | .openString => if c == '"' || c == '\'' then some 0 else none
  | .float =>
      if isDigit c then
        match cs.dropWhile isDigit with
        | '.' :: cs' =>
            some (run isDigit cs + 1 + run isDigit cs' + exponent (cs'.dropWhile isDigit))
        | _ => none
      else none
  | .integer =>
      if isDigit c then some (run isDigit cs + exponent (cs.dropWhile isDigit)) else none
  | .name => if startsName c then some (run inName cs) else none
  | .operator =>
      if cs.head?.any fun c' => longOperators.contains (c, c') then some 1
      else if shortOperators.contains c then some 0
      else none
  | .punctuation => if punctuationMarks.contains c then some 0 else none
  | .unmatched => some 0

/-- The first rule that applies at `c` followed by `cs`, with its extent. -/
def first (c : Char) (cs : List Char) : Rule × Nat :=
  (all.findSome? fun rule => (rule.extent? c cs).map (rule, ·)).getD (.unmatched, 0)

/-- A piece by this rule makes the whole text fail. -/
def isFailure : Rule → Bool
  | .openComment => true
  | .openString => true
  | .unmatched => true
  | _ => false

end Rule

/-- The characters of a text up to and including its last line end. -/
def lastLineStart : List Char → Nat
  | [] => 0
  | c :: cs =>
      match lastLineStart cs with
      | 0 => if c == '\n' then 1 else 0
      | n + 1 => n + 2

theorem lastLineStart_le (cs : List Char) : lastLineStart cs ≤ cs.length := by
  induction cs with
  | nil => exact Nat.le_refl 0
  | cons c cs ih =>
    rw [lastLineStart, List.length_cons]
    split
    · split <;> omega
    · omega

/-- How far a text has been cut: the characters behind, the line that has been reached, and how many
characters stand before that line. -/
@[ext]
structure Mark where
  offset : Nat
  line : Nat
  lineStart : Nat
  lineStart_le : lineStart ≤ offset
  deriving DecidableEq, Repr

namespace Mark

/-- The mark at the start of a text. -/
abbrev start : Mark :=
  ⟨0, 1, 0, Nat.le_refl 0⟩

/-- The place of an offset on the line that has been reached. -/
def placeOf (m : Mark) (offset : Nat) : Place :=
  ⟨m.line, offset - m.lineStart + 1⟩

/-- The place that has been reached. -/
def place (m : Mark) : Place :=
  m.placeOf m.offset

/-- The mark behind a piece.  Blanks and line comments stay on their line, and other pieces are
looked through for line ends. -/
def past (m : Mark) (rule : Rule) (text : List Char) : Mark :=
  let stop := m.offset + text.length
  match rule with
  | .newline => ⟨stop, m.line + 1, stop, Nat.le_refl stop⟩
  | .blank | .lineComment => ⟨stop, m.line, m.lineStart, Nat.le_add_right_of_le m.lineStart_le⟩
  | _ =>
      let newlines := text.count '\n'
      if newlines = 0 then ⟨stop, m.line, m.lineStart, Nat.le_add_right_of_le m.lineStart_le⟩
      else
        ⟨stop, m.line + newlines, m.offset + lastLineStart text,
          Nat.add_le_add_left (lastLineStart_le text) m.offset⟩

/-- The place behind a text that has been cut up to the mark, found by looking through the rest of
it. -/
def endOf (m : Mark) (cs : List Char) : Place :=
  let newlines := (cs.drop m.offset).count '\n'
  if newlines = 0 then m.placeOf cs.length
  else ⟨m.line + newlines, cs.length - lastLineStart cs + 1⟩

end Mark

/-- A piece of a source text: the rule that cut it, its characters and the mark before them. -/
structure Piece where
  rule : Rule
  text : List Char
  start : Mark
  deriving DecidableEq, Repr

namespace Piece

/-- The place of the first character. -/
def place (p : Piece) : Place :=
  p.start.place

/-- The mark behind the last character. -/
def stop (p : Piece) : Mark :=
  p.start.past p.rule p.text

end Piece

/-- The pieces of a text from a mark on, up to the first failing one. -/
def pieces (mark : Mark) : List Char → List Piece
  | [] => []
  | c :: cs =>
      let (rule, extent) := Rule.first c cs
      let piece : Piece := ⟨rule, c :: cs.take extent, mark⟩
      if rule.isFailure then [piece]
      else piece :: pieces piece.stop (cs.drop extent)
  termination_by cs => cs.length
  decreasing_by simp only [List.length_cons, List.length_drop]; omega

end TokenWalk
