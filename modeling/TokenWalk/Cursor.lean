import TokenWalk.Fault

/-!
# Cursors

A cursor stands in a list of tokens: it holds the list and the tokens from where it stands, which
are always an end of the list.  Going back is using an earlier cursor again.

A reading is a step that can move the cursor and stop; a stop leaves the cursor where it is.  The
primitive readings are `current`, `advance` and `expect`; `skipBlock` passes over a block by counting
braces.
-/

namespace TokenWalk

/-- A place in a list of tokens. -/
structure Cursor where
  /-- The whole list. -/
  tokens : List Token
  /-- The tokens from the cursor on. -/
  rest : List Token
  rest_suffix : rest <:+ tokens

namespace Cursor

/-- The cursor before the first token. -/
def start (tokens : List Token) : Cursor :=
  ⟨tokens, tokens, List.suffix_refl tokens⟩

/-- The number of tokens before the cursor. -/
def position (c : Cursor) : Nat :=
  c.tokens.length - c.rest.length

/-- The end of input that stands after the last token, at its place. -/
def sentinel (c : Cursor) : Token :=
  .endAt (c.tokens.getLast?.elim {} Token.place)

/-- The token under the cursor. -/
def token (c : Cursor) : Token :=
  match c.rest with
  | t :: _ => t
  | [] => c.sentinel

/-- The cursor after the token under it; it does not go past the last token. -/
def next (c : Cursor) : Cursor :=
  ⟨c.tokens, c.rest.tail, (List.tail_suffix c.rest).trans c.rest_suffix⟩

@[simp] theorem rest_start (tokens : List Token) : (start tokens).rest = tokens := rfl

@[simp] theorem position_start (tokens : List Token) : (start tokens).position = 0 :=
  Nat.sub_self _

@[simp] theorem tokens_next (c : Cursor) : c.next.tokens = c.tokens := rfl

@[simp] theorem rest_next (c : Cursor) : c.next.rest = c.rest.tail := rfl

/-- Position and tokens left make up the whole list. -/
theorem position_add_length_rest (c : Cursor) :
    c.position + c.rest.length = c.tokens.length :=
  Nat.sub_add_cancel c.rest_suffix.length_le

/-- The cursor stands on the end of input. -/
def atEnd (c : Cursor) : Bool :=
  c.token.kind == .endOfInput

end Cursor

/-- A step that reads tokens. -/
abbrev Reading := EStateM Stop Cursor

namespace Reading

/-- Stops with a fault that points at a token. -/
def fail {α : Type} (token : Token) (cause : Cause) : Reading α :=
  throw (.fault (.ofPlace token.place cause))

/-- The token under the cursor. -/
def current : Reading Token := do
  return (← get).token

/-- Takes the token under the cursor. -/
def advance : Reading Token :=
  modifyGet fun c => (c.token, c.next)

/-- Takes the token under the cursor if it has the kind and, if one is given, the text. -/
def expect (kind : Kind) (text? : Option String) : Reading Token := do
  let token ← current
  if token.is kind text? then advance
  else fail token (.unexpectedToken (text?.elim (.kind kind) .text) token)

/-- Takes an opening brace. -/
def openBrace : Reading Unit :=
  discard (expect .punctuation (some "\x7b"))

/-- Takes a closing brace. -/
def closeBrace : Reading Unit :=
  discard (expect .punctuation (some "\x7d"))

/-- Passes over tokens until `depth` open blocks are closed, over one token for each of `bound` at
most. -/
def skipBlocks : (bound : List Token) → (depth : Nat) → Reading Unit
  | _, 0 => return
  | [], _ + 1 => do fail (← current) .unclosedBlock
  | _ :: bound, depth + 1 => do
      let token ← current
      if token.kind == .endOfInput then fail token .unclosedBlock
      else
        let _ ← advance
        if token.opensBlock then skipBlocks bound (depth + 2)
        else if token.closesBlock then skipBlocks bound depth
        else skipBlocks bound (depth + 1)

/-- Passes over a block whose opening brace is taken, its closing brace included.  Every token is
looked at once, so the tokens left are bound enough. -/
def skipBlock : Reading Unit := do
  skipBlocks (← get).rest 1

end Reading

end TokenWalk
