import TokenWalk.Command

/-!
# The program

Reads the environment, the script and the keyboard, and writes what the command says.
-/

namespace TokenWalk

/-- Writes both channels. -/
def Transcript.write (t : Transcript) : IO Unit := do
  IO.print t.out
  (← IO.getStdout).flush
  IO.eprint t.err

/-- Tells why the program breaks down. -/
def breakDown (failure : Failure) : IO UInt32 := do
  IO.eprintln failure.message
  return 1

/-- What a file name leads to on this machine. -/
def readFile (name : String) : IO File := do
  try
    return .contents (← IO.FS.readBinFile name).toList
  catch
    | .noFileOrDirectory .. => return .missing
    | .inappropriateType .. => return .directory
    | e => throw e

/-- Takes lines from the keyboard until the end of input. -/
partial def interact (settings : Settings) (repl : Repl) : IO UInt32 := do
  Transcript.write (.say repl.prompt)
  let line ← (← IO.getStdin).getLine
  if line.isEmpty then
    IO.println ""
    return 0
  let text := if line.endsWith "\n" then String.ofList line.toList.dropLast else line
  let (next, verdict) := repl.feed (Command.limits {} settings false) text
  (Transcript.between settings.debug repl.session next.session).write
  match verdict with
  | .goOn => interact settings next
  | .leave => return 0
  | .abort a => breakDown (.abort a)

end TokenWalk

open TokenWalk in
/-- Runs the command with this machine's arguments, environment, files and keyboard. -/
def main (args : List String) : IO UInt32 := do
  let names := ["SWIFTLET_MAX_ITERATIONS", "SWIFTLET_DEBUG"]
  let values ← names.mapM fun name => IO.getEnv name
  let environment (name : String) : Option String := ((names.zip values).lookup name).join
  let file ←
    match Command.ofArgs args with
    | .script name _ => readFile name
    | _ => pure .missing
  match Command.ofArgs args, Settings.ofEnvironment environment with
  | .interactive, .ok settings =>
      IO.print Repl.banner
      interact settings {}
  | _, _ =>
      let (written, result) := Command.run args environment (fun _ => file) []
      written.write
      match result with
      | .ok code => return code.toUInt32
      | .error failure => breakDown failure
