import TokenWalk.Number.Numeral

/-!
# Settings

What the environment can set: debugging, and the cap on the rounds of a loop.
-/

namespace TokenWalk

/-- The settings of a run. -/
structure Settings where
  debug : Bool := false
  maxIterations : Int := 10000
  deriving DecidableEq, Repr

namespace Settings

/-- Why the environment gives no settings. -/
inductive Defect where
  /-- The cap is no integer. -/
  | numeral (defect : Numeral.Defect)
  /-- The cap is below one. -/
  | notPositive (text : String)
  deriving DecidableEq, Repr

/-- The words for a defect. -/
def Defect.message : Defect → String
  | .numeral defect => defect.message
  | .notPositive text =>
      "SWIFTLET_MAX_ITERATIONS must be a positive integer, got " ++ Text.quoted text

/-- The cap that a text sets; blanks alone set none. -/
def capOf (text : String) : Except Defect (Option Int) :=
  let trimmed := String.ofList (Text.trim text.toList)
  if trimmed.isEmpty then .ok none
  else
    match Numeral.readInteger trimmed with
    | .error defect => .error (.numeral defect)
    | .ok n => if n < 1 then .error (.notPositive trimmed) else .ok (some n)

/-- The settings that an environment makes. -/
def ofEnvironment (environment : String → Option String) : Except Defect Settings := do
  let cap ← capOf ((environment "SWIFTLET_MAX_ITERATIONS").getD "")
  let debug := (environment "SWIFTLET_DEBUG").any (!·.isEmpty)
  return { debug, maxIterations := cap.getD ({} : Settings).maxIterations }

end Settings

end TokenWalk
