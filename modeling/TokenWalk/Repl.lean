import TokenWalk.Fragment
import TokenWalk.Transcript

/-!
# Interactive use

Lines are collected until they make a complete fragment, which is then run in one session for all.
Blank lines are dropped.  `exit` or `quit` ends it, but only between fragments.
-/

namespace TokenWalk

/-- What comes from the keyboard. -/
inductive Keystroke where
  | line (text : String)
  /-- The key that breaks off. -/
  | interrupt
  deriving DecidableEq, Repr

/-- An interactive session: the lines of the fragment under way, latest first. -/
structure Repl where
  session : Session := {}
  pending : List String := []

namespace Repl

/-- The name under which typed fragments run. -/
def file : String := "<stdin>"

/-- What is shown first. -/
def banner : String :=
  Transcript.unlines
    ["Swiftlet Language Interpreter - REPL", "Type `exit` or `quit` to leave."]

/-- The prompt for the next line. -/
def prompt (repl : Repl) : String :=
  if repl.pending.isEmpty then ">>> " else "... "

/-- What follows a line. -/
inductive Verdict where
  | goOn
  | leave
  | abort (a : Abort)
  deriving DecidableEq

/-- Takes one line. -/
def feed (limits : Limits) (line : String) (repl : Repl) : Repl × Verdict :=
  let word := String.ofList (Text.trim line.toList)
  if repl.pending.isEmpty && (word == "exit" || word == "quit") then (repl, .leave)
  else if word.isEmpty then (repl, .goOn)
  else
    let pending := line :: repl.pending
    let source := "\n".intercalate pending.reverse
    if !Fragment.isComplete source then ({ repl with pending }, .goOn)
    else
      match Session.run limits source file repl.session with
      | .ok _ session => ({ session, pending := [] }, .goOn)
      | .error a session => ({ session, pending }, .abort a)

/-- Takes keystrokes to their end and tells what was written after `written`. -/
def play (debug : Bool) (limits : Limits) :
    List Keystroke → Repl → (written : Transcript) → Transcript × Except Abort Repl
  | [], repl, written => (written ++ .say (repl.prompt ++ "\n"), .ok repl)
  | .interrupt :: _, repl, written =>
      (written ++ .say (repl.prompt ++ "\nInterrupted.\n"), .ok repl)
  | .line text :: keys, repl, written =>
      let (next, verdict) := repl.feed limits text
      let written := written ++ .say repl.prompt ++ .between debug repl.session next.session
      match verdict with
      | .goOn => play debug limits keys next written
      | .leave => (written, .ok next)
      | .abort a => (written, .error a)

end Repl

end TokenWalk
