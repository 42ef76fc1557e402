import TokenWalk.Text.Blank
import TokenWalk.Text.Word

/-!
# Fragments

In interactive use a program comes line by line.  `Fragment.isComplete` decides when the lines read
so far can be run: not while braces are unbalanced, nor while the last line that is not blank opens
a block.  The check looks at characters only, not at tokens.
-/

namespace TokenWalk.Fragment

open Text

/-- The last line of a text that is not blank, without the blanks around it. -/
def lastLine? (cs : List Char) : Option (List Char) :=
  ((lines cs).map trim |>.filter (!·.isEmpty)).getLast?

/-- The line begins with `word` as a whole word. -/
def beginsWith (word line : List Char) : Bool :=
  word.isPrefixOf line && !(line.drop word.length).head?.any isWord

/-- The line ends with `word` as a whole word. -/
def endsWith (word line : List Char) : Bool :=
  word.isSuffixOf line && !(line.take (line.length - word.length)).getLast?.any isWord

/-- The line ends in `else`. -/
def trailingElse (line : List Char) : Bool :=
  endsWith "else".toList line

/-- The keywords that a block follows. -/
def headers : List String :=
  ["if", "while", "else"]

/-- The line begins with a keyword that a block follows. -/
def blockHeader (line : List Char) : Bool :=
  headers.any fun word => beginsWith word.toList line

/-- The line leaves a block open: it ends with a brace or `else`, or it begins one and closes none. -/
def opensBlock (line : List Char) : Bool :=
  line.getLast? == some '{' || trailingElse line || (blockHeader line && !line.contains '}')

/-- The text can be run as it is. -/
def isComplete (source : String) : Bool :=
  let cs := source.toList
  cs.count '{' == cs.count '}' && !(lastLine? cs).any opensBlock

end TokenWalk.Fragment
