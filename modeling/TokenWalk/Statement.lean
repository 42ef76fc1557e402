import TokenWalk.Machine

/-!
# Statements

Statements are executed straight from the tokens.  A loop goes back to its condition and its body
by using their cursors again; a block that must not run is passed over by counting braces.

Blocks inside blocks are the only deep recursion, so everything below is defined over a given way to
run an inner block; `block` ties the knot, one level of nesting at a time.
-/

namespace TokenWalk

namespace Walk

/-- A declaration, which is `var` or `let`, a name, `=` and an expression: binds the name in the
innermost frame. -/
def declaration : Walk Unit := do
  let _ ← read .advance
  let name ← read (.expect .identifier none)
  let _ ← read (.expect .operator (some "="))
  let value ← expression
  match (← get).scopes.declare? name.text value with
  | none => read (.fail name (.redeclared name.text))
  | some scopes =>
      modify fun m => { m with scopes }
      note (.declared name.text value (scopes.depth - 1))

/-- An assignment, which is a name, `=` and an expression: gives the name another value.  The name
must be visible before the rest is read. -/
def assignment : Walk Unit := do
  let name ← read .current
  if !(← get).scopes.contains name.text then
    read (.fail name (.undefinedVariable name.text))
  let _ ← read .advance
  let _ ← read (.expect .operator (some "="))
  let value ← expression
  match (← get).scopes.update? name.text value with
  | none => throw (.abort (.unbound name.text))
  | some scopes =>
      modify fun m => { m with scopes }
      note (.updated name.text value)

/-- A `print` statement, with an expression in parentheses. -/
def printing : Walk Unit := do
  let _ ← read .advance
  let _ ← read (.expect .punctuation (some "("))
  let value ← expression
  let _ ← read (.expect .punctuation (some ")"))
  emit value

/-- The rounds of a loop while its condition holds; gives the number of rounds left.  The body
starts at one cursor and the condition at another, and `cap` is the most rounds there may be. -/
def rounds (block : Walk Unit) (cap : Int) (keyword : Token) (conditionStart bodyStart : Cursor) :
    (left : Nat) → (holds : Bool) → Walk Nat
  | left, false => return left
  | 0, true => throw (.overrun keyword.place cap)
  | left + 1, true => do
      inFrame do
        moveTo bodyStart
        block
      moveTo conditionStart
      let holds ← condition
      rounds block cap keyword conditionStart bodyStart left holds

/-- A loop, which is `while`, a condition and a block: each round has a frame of its own. -/
def loop (block : Walk Unit) (cap : Int) : Walk Unit := do
  let keyword ← read .advance
  let conditionStart := (← get).cursor
  let holds ← condition
  read .openBrace
  let bodyStart := (← get).cursor
  let left ← rounds block cap keyword conditionStart bodyStart cap.toNat holds
  note (.looped keyword.place.line (cap.toNat - left))
  moveTo bodyStart
  read .skipBlock

/-- Runs a block in a frame of its own and takes its closing brace. -/
def branch (block : Walk Unit) : Walk Unit :=
  inFrame do
    block
    read .closeBrace

/-- Takes `else` and an opening brace, if `else` is next, and goes on with the given step. -/
def alternative (body : Walk Unit) : Walk Unit := do
  if (← read .current).is .keyword (some "else") then
    let _ ← read .advance
    read .openBrace
    body

/-- A conditional, which is `if`, a condition, a block, and maybe `else` and another block: one of
them is run, the other is passed over. -/
def conditional (block : Walk Unit) : Walk Unit := do
  let keyword ← read .advance
  let holds ← condition
  read .openBrace
  note (.decided keyword.place.line holds)
  if holds then
    branch block
    alternative (read .skipBlock)
  else
    read .skipBlock
    alternative (branch block)

/-- The statement under the cursor; a token that starts none is passed over. -/
def statementWith (block : Walk Unit) (cap : Int) : Walk Unit := do
  let token ← read .current
  match token.kind with
  | .keyword =>
      match token.text with
      | "var" => declaration
      | "let" => declaration
      | "print" => printing
      | "while" => loop block cap
      | "if" => conditional block
      | _ => read (.fail token (.unhandledKeyword token.text))
  | .identifier => assignment
  | _ => do
      note (.skipped token)
      discard (read .advance)

/-- Statements up to a closing brace, which stays under the cursor, but one for each of `bound` at
most. -/
def untilBrace (statement : Walk Unit) : (bound : List Token) → Walk Unit
  | [] => do read (.fail (← read .current) .unclosedBlock)
  | _ :: bound => do
      let token ← read .current
      if token.closesBlock then return
      else if token.kind == .endOfInput then read (.fail token .unclosedBlock)
      else
        statement
        untilBrace statement bound

/-- Statements up to the end of input, but one for each of `bound` at most. -/
def untilEnd (statement : Walk Unit) : (bound : List Token) → Walk Unit
  | [] => return
  | _ :: bound => do
      if (← get).cursor.atEnd then return
      else
        statement
        untilEnd statement bound

/-- The statements of a block that may hold `nesting - 1` further levels of blocks.  Every statement
takes a token, so the tokens left are bound enough. -/
def block (cap : Int) : (nesting : Nat) → Walk Unit
  | 0 => do read (.fail (← read .current) .nestingTooDeep)
  | nesting + 1 => do
      untilBrace (statementWith (block cap nesting) cap) (← get).cursor.rest

/-- The statement under the cursor. -/
def statement (limits : Limits) : Walk Unit :=
  statementWith (block limits.iterations limits.nesting) limits.iterations

/-- All statements up to the end of input. -/
def statements (limits : Limits) : Walk Unit := do
  untilEnd (statement limits) (← get).cursor.rest

end Walk

end TokenWalk
