import TokenWalk.Token.Piece

/-!
# Tokens of a source text

`Token.ofSource` turns a text into its tokens, with one end-of-input token after the last, or into
the fault of its first bad piece.  Blanks and comments give no token.
-/

namespace TokenWalk

/-- The words that are no identifiers. -/
def keywords : List String :=
  ["var", "let", "if", "else", "while", "for", "print", "function", "return", "break", "continue",
    "true", "false"]

/-- The character that a backslash and `c` stand for in a string literal. -/
def escape? : Char → Option Char
  | 'n' => some '\n'
  | 't' => some '\t'
  | 'r' => some '\r'
  | 'b' => some '\x08'
  | 'f' => some '\x0c'
  | '\'' => some '\''
  | '"' => some '"'
  | '\\' => some '\\'
  | _ => none

/-- The text that the body of a string literal stands for, or the character of its first unknown
escape. -/
def unescape : List Char → Except Char (List Char)
  | [] => .ok []
  | '\\' :: c :: cs =>
      match escape? c with
      | none => .error c
      | some e => (unescape cs).map (e :: ·)
  | c :: cs => (unescape cs).map (c :: ·)

namespace Piece

/-- The token with the piece's own characters. -/
def plain (p : Piece) (kind : Kind) : Except Fault (Option Token) :=
  .ok (some ⟨kind, String.ofList p.text, p.place⟩)

/-- The token of a piece of a source text, none for blanks and comments.  A comment that never ends
is a fault at the end of the whole text. -/
def token? (source : List Char) (p : Piece) : Except Fault (Option Token) :=
  match p.rule with
  | .newline | .blank | .lineComment | .blockComment => .ok none
  | .openComment => .error (.ofPlace (p.start.endOf source) .unterminatedComment)
  | .openString => .error (.ofPlace p.place .unterminatedString)
  | .unmatched => .error (.ofPlace p.place (.unexpectedCharacter (p.text.headD ' ')))
  | .string =>
      match unescape p.text.tail.dropLast with
      | .ok text => .ok (some ⟨.string, String.ofList text, p.place⟩)
      | .error c => .error (.ofPlace p.place (.unknownEscape c))
  | .name => p.plain (if keywords.contains (String.ofList p.text) then .keyword else .identifier)
  | .float => p.plain .float
  | .integer => p.plain .integer
  | .operator => p.plain .operator
  | .punctuation => p.plain .punctuation

end Piece

namespace Token

/-- The tokens of a row of pieces of a source text, or the fault of the first bad one. -/
def ofPieces (source : List Char) : List Piece → Except Fault (List Token)
  | [] => .ok []
  | p :: ps => do
      match ← p.token? source with
      | none => ofPieces source ps
      | some token => return token :: (← ofPieces source ps)

/-- The tokens of a source text.  The end of input stands on the line that cutting has reached. -/
def ofSource (source : String) : Except Fault (List Token) := do
  let cs := source.toList
  let ps := pieces .start cs
  let mark := ps.getLast?.elim .start Piece.stop
  return (← ofPieces cs ps) ++ [endAt (mark.placeOf cs.length)]

end Token

end TokenWalk
