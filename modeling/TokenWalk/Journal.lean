import TokenWalk.Fault

/-!
# The journal

What a run notes besides its output: its steps, for a reader who follows them, and the faults it
reports.  Entries are kept as data and written out only on request: a fault always, the steps in a
debugging run.
-/

namespace TokenWalk

/-- An entry of the journal. -/
inductive Entry where
  /-- A name was bound in the frame `level` steps above the global one. -/
  | declared (name : String) (value : Value) (level : Nat)
  /-- A name got another value. -/
  | updated (name : String) (value : Value)
  /-- A run began at a token. -/
  | started (file : String) (position : Nat)
  /-- A token that starts no statement was passed over. -/
  | skipped (token : Token)
  /-- The condition of a conditional was evaluated. -/
  | decided (line : Nat) (holds : Bool)
  /-- A loop came to its end. -/
  | looped (line : Nat) (iterations : Nat)
  /-- A fault was reported. -/
  | reported (fault : Fault)
  deriving DecidableEq

namespace Entry

/-- The fault that an entry reports. -/
def fault? : Entry → Option Fault
  | .reported fault => some fault
  | _ => none

/-- The entry as a debugging run logs it. -/
def logLine : Entry → String
  | .declared name value level =>
      "DEBUG swiftlet.scope: Declared variable " ++ name ++ " = " ++ value.quoted ++
        " at depth " ++ toString level
  | .updated name value =>
      "DEBUG swiftlet.scope: Updated variable " ++ name ++ " = " ++ value.quoted
  | .started file position =>
      "DEBUG swiftlet.interpreter.interpreter: Executing " ++ file ++ " from token " ++
        toString position
  | .skipped token =>
      "DEBUG swiftlet.interpreter.statements: Skipping " ++ token.describe ++ " on line " ++
        toString token.place.line
  | .decided line holds =>
      "DEBUG swiftlet.interpreter.statements: Condition on line " ++ toString line ++ " is " ++
        (if holds then "True" else "False")
  | .looped line iterations =>
      "DEBUG swiftlet.interpreter.statements: Loop on line " ++ toString line ++
        " finished after " ++ toString iterations ++ " iterations"
  | .reported fault => "INFO swiftlet.session: " ++ fault.report

/-- The lines an entry writes to the error channel. -/
def lines (debug : Bool) (entry : Entry) : List String :=
  (if debug then [entry.logLine] else []) ++ (entry.fault?.map Fault.report).toList

end Entry

end TokenWalk
