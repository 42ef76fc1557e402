import TokenWalk.Statement
import TokenWalk.Token.Source

/-!
# Sessions

A session runs one fragment of program text after the other.  A fault stops its fragment, is
reported once and is the fragment's result; the bindings made before it stay.  An abort is not
reported and ends the call.  Either way only the global frame is left.
-/

namespace TokenWalk

namespace Machine

/-- Runs the statements from the cursor to the end of input or the first stop. -/
def execute (limits : Limits) (file : String) : EStateM Abort Machine (Option Fault) := fun m =>
  let m := { m with journal := m.journal.push (.started file m.cursor.position) }
  match Walk.statements limits m with
  | .ok _ m => .ok none { m with scopes := m.scopes.reset }
  | .error (.fault fault) m =>
      let fault := fault.inFile file
      .ok (some fault)
        { m with scopes := m.scopes.reset, journal := m.journal.push (.reported fault) }
  | .error (.abort abort) m => .error abort { m with scopes := m.scopes.reset }

end Machine

namespace Session

/-- A script about to run in the session. -/
def load (session : Session) (tokens : List Token) : Machine :=
  { session with cursor := .start tokens }

/-- Reports a fault. -/
def report (fault : Fault) (session : Session) : Session :=
  { session with journal := session.journal.push (.reported fault) }

/-- Prints a value. -/
def emit (value : Value) (session : Session) : Session :=
  { session with printed := session.printed.push value }

/-- Runs a fragment given as tokens. -/
def runTokens (limits : Limits) (tokens : List Token) (file : String) :
    EStateM Abort Session (Option Fault) := fun session =>
  match Machine.execute limits file (session.load tokens) with
  | .ok result m => .ok result m.toSession
  | .error abort m => .error abort m.toSession

/-- The tokens of a fragment.  If there are none because of a fault, it is reported. -/
def tokenize (source file : String) (session : Session) : Except Fault (List Token) × Session :=
  match Token.ofSource source with
  | .ok tokens => (.ok tokens, session)
  | .error fault =>
      let fault := fault.inFile file
      (.error fault, session.report fault)

/-- Runs a fragment.  If it has no tokens because of a fault, nothing of it runs. -/
def run (limits : Limits) (source file : String) : EStateM Abort Session (Option Fault) :=
  fun session =>
    match Token.ofSource source with
    | .error fault =>
        let fault := fault.inFile file
        .ok (some fault) (session.report fault)
    | .ok tokens => runTokens limits tokens file session

end Session

end TokenWalk
