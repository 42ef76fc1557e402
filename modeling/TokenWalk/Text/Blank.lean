/-!
# Blanks and lines

The characters that only separate, and the ways a text is cut by them:

* `isBlank` and `trim` for space around a text;
* `isLineEnd` and `lines` for the lines of a text, with `\r\n` as one line end;
* `foldLineEnds` for texts read from a file, where every line ends in `\n` only.
-/

namespace TokenWalk.Text

/-- White space of every script, line ends and the four information separators included. -/
def isBlank (c : Char) : Bool :=
  let n := c.toNat
  (0x09 ≤ n && n ≤ 0x0D) || (0x1C ≤ n && n ≤ 0x20) || n == 0x85 || n == 0xA0 || n == 0x1680 ||
    (0x2000 ≤ n && n ≤ 0x200A) || n == 0x2028 || n == 0x2029 || n == 0x202F || n == 0x205F ||
    n == 0x3000

/-- Drops the characters with property `p` at both ends. -/
def trimBy (p : Char → Bool) (cs : List Char) : List Char :=
  ((cs.dropWhile p).reverse.dropWhile p).reverse

/-- Drops the blanks at both ends. -/
def trim (cs : List Char) : List Char :=
  trimBy isBlank cs

/-- The characters that end a line. -/
def isLineEnd (c : Char) : Bool :=
  let n := c.toNat
  (0x0A ≤ n && n ≤ 0x0D) || (0x1C ≤ n && n ≤ 0x1E) || n == 0x85 || n == 0x2028 || n == 0x2029

/-- The lines of a text without their ends.  A line end at the very end opens no further line. -/
def lines : List Char → List (List Char)
  | [] => []
  | '\r' :: '\n' :: cs => [] :: lines cs
  | c :: cs =>
      if isLineEnd c then [] :: lines cs
      else
        match lines cs with
        | [] => [[c]]
        | line :: rest => (c :: line) :: rest

/-- Writes every `\r\n` and every other `\r` as `\n`. -/
def foldLineEnds (cs : List Char) : List Char :=
  -- Each character is seen with the one before it: the `\n` of a pair goes, its `\r` stays as `\n`.
  (cs.zip (' ' :: cs)).filterMap fun (c, before) =>
    if c == '\n' && before == '\r' then none
    else some (if c == '\r' then '\n' else c)

end TokenWalk.Text
