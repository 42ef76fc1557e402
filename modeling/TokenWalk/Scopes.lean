import TokenWalk.Value

/-!
# Scopes

Bindings live in a stack of frames over the global frame, which is always there.  A frame holds only
the names declared in it.

* A declaration goes into the innermost frame and is refused if the name is visible at all, so no
  name is bound in two frames.
* An update writes into the frame that owns the name, so it outlives the block it happens in.
-/

namespace TokenWalk

/-- A frame: names with their values. -/
abbrev Frame := List (String × Value)

namespace Frame

/-- The value of a name in a frame. -/
def get? (frame : Frame) (name : String) : Option Value :=
  frame.lookup name

/-- The name is bound in the frame. -/
def has (frame : Frame) (name : String) : Bool :=
  (frame.get? name).isSome

/-- Gives a bound name another value. -/
def set (frame : Frame) (name : String) (value : Value) : Frame :=
  frame.map fun binding => if binding.1 == name then (name, value) else binding

/-- Binds a name, in place of an earlier binding if there is one. -/
def insert (frame : Frame) (name : String) (value : Value) : Frame :=
  if frame.has name then frame.set name value else (name, value) :: frame

/-- The frame with the given bindings, the later one of a name counting. -/
def ofList (bindings : List (String × Value)) : Frame :=
  bindings.foldl (fun frame binding => frame.insert binding.1 binding.2) []

/-- The bindings in the order of their names. -/
def sorted (frame : Frame) : List (String × Value) :=
  frame.mergeSort fun a b => !decide (b.1 < a.1)

end Frame

/-- The stack of frames: those of the open blocks, innermost first, over the global one. -/
structure Scopes where
  inner : List Frame := []
  globals : Frame := []
  deriving DecidableEq

namespace Scopes

/-- All frames, innermost first. -/
def frames (s : Scopes) : List Frame :=
  s.inner ++ [s.globals]

/-- The number of frames. -/
def depth (s : Scopes) : Nat :=
  s.inner.length + 1

/-- Enters a block. -/
def push (s : Scopes) : Scopes :=
  { s with inner := [] :: s.inner }

/-- Leaves a block; the global frame stays. -/
def pop (s : Scopes) : Scopes :=
  { s with inner := s.inner.tail }

/-- Leaves all blocks. -/
def reset (s : Scopes) : Scopes :=
  { s with inner := [] }

@[simp] theorem depth_push (s : Scopes) : s.push.depth = s.depth + 1 := rfl

@[simp] theorem pop_push (s : Scopes) : s.push.pop = s := rfl

@[simp] theorem depth_reset (s : Scopes) : s.reset.depth = 1 := rfl

@[simp] theorem globals_pop (s : Scopes) : s.pop.globals = s.globals := rfl

/-- The value of a visible name. -/
def lookup (s : Scopes) (name : String) : Option Value :=
  s.frames.findSome? (·.get? name)

/-- The name is bound in some frame. -/
def contains (s : Scopes) (name : String) : Bool :=
  s.frames.any (·.has name)

/-- Binds a name in the innermost frame, unless it is visible already. -/
def declare? (s : Scopes) (name : String) (value : Value) : Option Scopes :=
  if s.contains name then none
  else
    match s.inner with
    | [] => some { s with globals := (name, value) :: s.globals }
    | frame :: outer => some { s with inner := ((name, value) :: frame) :: outer }

/-- Gives a name another value in the innermost of the frames that bind it. -/
def updateFirst (name : String) (value : Value) : List Frame → List Frame
  | [] => []
  | frame :: outer =>
      if frame.has name then frame.set name value :: outer
      else frame :: updateFirst name value outer

/-- Gives a visible name another value in the frame that owns it. -/
def update? (s : Scopes) (name : String) (value : Value) : Option Scopes :=
  if s.inner.any (·.has name) then some { s with inner := updateFirst name value s.inner }
  else if s.globals.has name then some { s with globals := s.globals.set name value }
  else none

/-- The visible bindings as one frame; an inner binding hides an outer one. -/
def visible (s : Scopes) : Frame :=
  s.frames.flatten.foldl
    (fun seen binding => if seen.has binding.1 then seen else binding :: seen) []

end Scopes

end TokenWalk
