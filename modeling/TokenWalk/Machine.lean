import TokenWalk.Expression
import TokenWalk.Journal

/-!
# The machine

The state of a running script: the cursor over its tokens, the scopes, and what it has printed and
noted so far.  A walk is a step of the machine; when it stops, the machine stays as the stop found
it.
-/

namespace TokenWalk

/-- What outlives a script: the bindings, the printed values and the journal. -/
structure Session where
  scopes : Scopes := {}
  printed : Array Value := #[]
  journal : Array Entry := #[]

/-- A session with a script under way. -/
structure Machine extends Session where
  cursor : Cursor

/-- The host's stack of calls.  Blocks inside blocks are calls inside calls, so the calls that are
open besides decide how many blocks there is room for. -/
structure Host where
  /-- The most calls open at once. -/
  calls : Nat := 1000
  /-- The calls around the statements of a program, one fewer if it has been cut into tokens before
  it is run. -/
  around : (cut : Bool) → Nat := fun cut => if cut then 6 else 7
  /-- The calls that a block adds, one more in a conditional than in a loop: counted as the former. -/
  perBlock : Nat := 6
  /-- The calls for a statement that has no block, more of them if it writes to a log. -/
  inside : (debug : Bool) → Nat := fun debug => if debug then 14 else 8

/-- How many blocks can be open inside each other. -/
def Host.nesting (host : Host) (cut debug : Bool) : Nat :=
  (host.calls - (host.around cut + host.inside debug)) / host.perBlock

/-- The bounds a run keeps to. -/
structure Limits where
  /-- The most rounds of a loop. -/
  iterations : Int
  /-- The most blocks open inside each other: as many as the host's stack has room for. -/
  nesting : Nat := Host.nesting {} false false

/-- A step of the machine. -/
abbrev Walk := EStateM Stop Machine

namespace Walk

/-- A reading on the machine's cursor. -/
def read {α : Type} (reading : Reading α) : Walk α := fun m =>
  match reading m.cursor with
  | .ok a cursor => .ok a { m with cursor }
  | .error stop cursor => .error stop { m with cursor }

/-- A reading moves the cursor and leaves the session as it is. -/
theorem toSession_read {α : Type} (reading : Reading α) (m : Machine) :
    match read reading m with
    | .ok _ m' => m'.toSession = m.toSession
    | .error _ m' => m'.toSession = m.toSession := by
  unfold read
  cases reading m.cursor <;> rfl

/-- Adds an entry to the journal. -/
def note (entry : Entry) : Walk Unit :=
  modify fun m => { m with journal := m.journal.push entry }

/-- Prints a value. -/
def emit (value : Value) : Walk Unit :=
  modify fun m => { m with printed := m.printed.push value }

/-- Puts the cursor somewhere. -/
def moveTo (cursor : Cursor) : Walk Unit :=
  modify fun m => { m with cursor }

/-- Evaluates an expression with the machine's bindings. -/
def expression : Walk Value := do
  read (Reading.expression (← get).scopes)

/-- Evaluates a condition with the machine's bindings. -/
def condition : Walk Bool := do
  read (Reading.condition (← get).scopes)

/-- Runs a step in a frame of its own, which is removed however the step ends. -/
def inFrame (body : Walk Unit) : Walk Unit := fun m =>
  match body { m with scopes := m.scopes.push } with
  | .ok a m => .ok a { m with scopes := m.scopes.pop }
  | .error stop m => .error stop { m with scopes := m.scopes.pop }

end Walk

end TokenWalk
