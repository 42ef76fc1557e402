import TokenWalk.Repl
import TokenWalk.Settings
import TokenWalk.Text.Utf8

/-!
# The command line

The command takes a script to run, optionally with a dump of its tokens, or no argument for
interactive use.  `Command.run` is the whole program as a function of its arguments, its
environment, the files it can read and the keys it gets, and of the host's stack.
-/

namespace TokenWalk

/-- What the arguments ask for. -/
inductive Command where
  | interactive
  | help
  | script (name : String) (showTokens : Bool)
  /-- The arguments make no sense. -/
  | misuse
  deriving DecidableEq, Repr

/-- What a file name leads to. -/
inductive File where
  | contents (bytes : List UInt8)
  | directory
  | missing
  deriving DecidableEq, Repr

/-- Why a command breaks down. -/
inductive Failure where
  | settings (defect : Settings.Defect)
  | missingFile (name : String)
  | notAFile (name : String)
  | encoding (defect : Text.Utf8.Defect)
  | abort (a : Abort)
  deriving DecidableEq

/-- The words for a failure. -/
def Failure.message : Failure → String
  | .settings defect => defect.message
  | .missingFile name => "[Errno 2] No such file or directory: " ++ Text.quoted name
  | .notAFile name => "[Errno 21] Is a directory: " ++ Text.quoted name
  | .encoding defect => defect.message
  | .abort a => a.message

namespace Command

/-- Reads the arguments. -/
def ofArgs : List String → Command
  | [] => .interactive
  | [arg] =>
      if arg == "-h" || arg == "--help" then .help
      else if arg.startsWith "-" then .misuse
      else .script arg false
  | [option, name] => if option == "--tokens" then .script name true else .misuse
  | _ => .misuse

/-- How to use the command. -/
def usage : String :=
  Transcript.unlines
    ["",
      "Swiftlet Language Interpreter",
      "",
      "Usage:",
      "    swl [--tokens] <script.swl>",
      "",
      "Arguments:",
      "    <script.swl>",
      "        Path to a Swiftlet source file to execute.",
      "",
      "Example:",
      "    swl sum.swl",
      "",
      "Or run with no arguments to enter interactive mode (REPL).",
      "",
      "Options:",
      "    --tokens",
      "        Print the token list before running the script.",
      "    -h, --help",
      "        Show this help message and exit.",
      "",
      "Environment:",
      "    SWIFTLET_DEBUG           enable debug logging and token dumps",
      "    SWIFTLET_MAX_ITERATIONS  loop iteration cap (default 10000)"]

/-- The limits of a program that is run as a text, or `cut` into tokens before. -/
def limits (host : Host) (settings : Settings) (cut : Bool) : Limits :=
  { iterations := settings.maxIterations, nesting := host.nesting cut settings.debug }

/-- The dump of a token list. -/
def dump (tokens : List Token) : String :=
  Transcript.unlines (["", "Tokens:", ""] ++ tokens.map Token.dump ++ [" "])

/-- The text of a file, with every line ended by `\n`. -/
def sourceOf (name : String) : File → Except Failure String
  | .missing => .error (.missingFile name)
  | .directory => .error (.notAFile name)
  | .contents bytes =>
      match Text.Utf8.decode bytes with
      | .ok cs => .ok (String.ofList (Text.foldLineEnds cs))
      | .error defect => .error (.encoding defect)

/-- The exit code of a script: whether it ended in a fault. -/
def exitCode : Option Fault → Nat
  | none => 0
  | some _ => 1

/-- What a finished run of a session wrote, and its exit code. -/
def conclude (debug : Bool) :
    EStateM.Result Abort Session (Option Fault) → Transcript × Except Failure Nat
  | .ok fault session => (.between debug {} session, .ok (exitCode fault))
  | .error a session => (.between debug {} session, .error (.abort a))

/-- Runs a script.  With a token dump the script is cut into tokens first, and nothing is dumped if
that fails. -/
def runScript (host : Host) (settings : Settings) (showTokens : Bool) (name source : String) :
    Transcript × Except Failure Nat :=
  if showTokens || settings.debug then
    match Session.tokenize source name {} with
    | (.error _, session) => (.between settings.debug {} session, .ok 1)
    | (.ok tokens, session) =>
        let (written, result) := conclude settings.debug
          (Session.runTokens (limits host settings true) tokens name session)
        (.say (dump tokens) ++ written, result)
  else conclude settings.debug (Session.run (limits host settings false) source name {})

/-- Runs interactively on given keystrokes. -/
def runRepl (host : Host) (settings : Settings) (keys : List Keystroke) :
    Transcript × Except Failure Nat :=
  match Repl.play settings.debug (limits host settings false) keys {} (.say Repl.banner) with
  | (written, .ok _) => (written, .ok 0)
  | (written, .error a) => (written, .error (.abort a))

/-- The whole program. -/
def run (args : List String) (environment : String → Option String) (files : String → File)
    (keys : List Keystroke) (host : Host := {}) : Transcript × Except Failure Nat :=
  match Settings.ofEnvironment environment with
  | .error defect => ({}, .error (.settings defect))
  | .ok settings =>
      match ofArgs args with
      | .interactive => runRepl host settings keys
      | .help => (.say usage, .ok 0)
      | .misuse => (.say usage, .ok 1)
      | .script name showTokens =>
          match sourceOf name (files name) with
          | .error failure => ({}, .error failure)
          | .ok source => runScript host settings showTokens name source

end Command

end TokenWalk
