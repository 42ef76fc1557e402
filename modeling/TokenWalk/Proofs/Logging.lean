import TokenWalk.Command
import TokenWalk.Proofs.Composition
import TokenWalk.Proofs.Containment
import TokenWalk.Proofs.WiderLimits

/-!
# Logs and dumps only observe

A script can be run with a dump of its tokens and with a log of its steps.  Neither changes what it
does: the dump comes before the output, and the log records stand between the faults reported on the
error channel (`Command.run_logged`).

* A dump needs the tokens before the run.  Cutting a text into tokens and running it as a text each
  handle lexical faults themselves, and do so in the same way (`Session.run_eq_tokenize`).
* A session keeps its log with the rest of its state, so it is a fact about every statement that
  nothing reads the log back.  `Session.quiet` drops the log records of a session.  Two runs that
  differ in their log go in lockstep, and dropping the records before a run makes no difference
  after it (`Session.observe_run_quiet`, `Session.quiet_run_quiet`).
* Both take up room on the host's stack, so a script with deep blocks can be stopped in one run and
  not in the other.  Runs with room enough are the same, however much there is of it
  (`Session.run_eq_of_not_crowded`).
-/

namespace TokenWalk

/-! ## Log records are never read back -/

namespace Session

variable {limits : Limits} {tokens : List Token} {source file : String} {s t : Session}
  {r r' : EStateM.Result Abort Session (Option Fault)}

/-- The session without its log records; only the faults reported stay in the journal. -/
def quiet (s : Session) : Session :=
  { s with journal := (s.reports.map Entry.reported).toArray }

@[simp]
theorem reports_quiet (s : Session) : s.quiet.reports = s.reports := by
  simp [reports, quiet, List.filterMap_map, Function.comp_def, Entry.fault?]

theorem quiet_congr (hscopes : s.scopes = t.scopes) (hprinted : s.printed = t.printed)
    (hreports : s.reports = t.reports) : s.quiet = t.quiet := by
  unfold quiet
  rw [hscopes, hprinted, hreports]

/-- The fault that a run reports, by its result. -/
def reported : Except Abort (Option Fault) → List Fault
  | .ok fault => fault.toList
  | .error _ => []

/-- A run reports its result and nothing else. -/
theorem reports_of_ends (h : Ends limits tokens file s r) :
    (final r).reports = s.reports ++ reported (observe id r).result := by
  have hreports := (kept_reports tokens).outcome limits file s
  cases h with
  | done h | abort h =>
    rw [h] at hreports
    exact hreports.trans (List.append_nil _).symm
  | @fault fault m h =>
    rw [h] at hreports
    have hpush := m.toSession.reports_push (.reported (fault.inFile file))
    exact hpush.trans (congrArg (· ++ _) hreports)

/-- What a run of tokens shows depends on the bindings and the values printed before it. -/
theorem observe_runTokens_congr (limits : Limits) (tokens : List Token) (file : String)
    (hscopes : s.scopes = t.scopes) (hprinted : s.printed = t.printed) :
    observe id (runTokens limits tokens file s) = observe id (runTokens limits tokens file t) := by
  have hmachines : Pairing.same.Machines ((s.load tokens).started file)
      ((t.load tokens).started file) :=
    ⟨Pairing.cursors_same rfl rfl, hscopes, hprinted⟩
  have hwalked := Pairing.walked_untilEnd (.inl rfl) id limits hmachines (Nat.le_refl _)
    (Nat.le_refl _)
  rw [observe_runTokens, observe_runTokens]
  refine observe_execute_eq (Answers.mono hwalked ?_ ?_)
  · intro _ n _ n' h
    exact ⟨h.2.printed, h.2.scopes⟩
  · intro e n e' n' h
    exact ⟨h.1, h.2.printed, h.2.scopes⟩

theorem printed_observe (r : EStateM.Result Abort Session (Option Fault)) :
    (observe id r).printed = (final r).printed := by
  cases r <;> rfl

theorem globals_observe (r : EStateM.Result Abort Session (Option Fault)) :
    (observe id r).globals = (final r).scopes.globals := by
  cases r <;> rfl

/-- What is seen of two runs, and what was reported before them, tells whether they leave sessions
that differ in their log only. -/
theorem quiet_final_eq (hs : Ends limits tokens file s r) (ht : Ends limits tokens file t r')
    (hobserve : observe id r = observe id r') (hreports : s.reports = t.reports) :
    (final r).quiet = (final r').quiet := by
  refine quiet_congr ?_ ?_ ?_
  · have hglobals : (final r).scopes.globals = (final r').scopes.globals := by
      rw [← globals_observe, hobserve, globals_observe]
    exact congrArg₂ Scopes.mk ((inner_of_ends hs).trans (inner_of_ends ht).symm) hglobals
  · rw [← printed_observe, hobserve, printed_observe]
  · rw [reports_of_ends hs, reports_of_ends ht, hobserve, hreports]

theorem observe_run_quiet (limits : Limits) (source file : String) (s : Session) :
    observe id (run limits source file s.quiet) = observe id (run limits source file s) := by
  cases htokens : Token.ofSource source with
  | ok tokens =>
    rw [run_of_ok htokens, run_of_ok htokens]
    exact observe_runTokens_congr limits tokens file rfl rfl
  | error fault =>
    rw [run_of_error htokens, run_of_error htokens]
    rfl

theorem quiet_run_quiet (limits : Limits) (source file : String) (s : Session) :
    (final (run limits source file s.quiet)).quiet = (final (run limits source file s)).quiet := by
  cases htokens : Token.ofSource source with
  | ok tokens =>
    rw [run_of_ok htokens, run_of_ok htokens]
    exact quiet_final_eq (ends_runTokens ..) (ends_runTokens ..)
      (observe_runTokens_congr limits tokens file rfl rfl) s.reports_quiet
  | error fault =>
    rw [run_of_error htokens, run_of_error htokens]
    refine quiet_congr rfl rfl ?_
    exact (reports_push ..).trans (.trans (by rw [reports_quiet]) (reports_push ..).symm)

/-! ## Ways to run a text -/

/-- A text is run like its tokens, and like them it is not run if there are none. -/
theorem run_eq_tokenize (limits : Limits) (source file : String) (s : Session) :
    run limits source file s =
      match tokenize source file s with
      | (.ok tokens, t) => runTokens limits tokens file t
      | (.error fault, t) => .ok (some fault) t := by
  unfold run tokenize
  cases Token.ofSource source with
  | ok tokens => rfl
  | error fault => rfl

/-- The run is stopped because the host has no room for another block. -/
def Crowded : EStateM.Result Abort Session (Option Fault) → Prop
  | .ok fault? _ => fault?.map (·.cause.family) = some .nestingTooDeep
  | .error _ _ => False

instance (r : EStateM.Result Abort Session (Option Fault)) : Decidable (Crowded r) :=
  match r with
  | .ok fault? _ => inferInstanceAs (Decidable (fault?.map (·.cause.family) = _))
  | .error _ _ => inferInstanceAs (Decidable False)

theorem run_eq_of_le {cap : Int} {nesting nesting' : Nat} (hle : nesting ≤ nesting')
    (h : ¬ Crowded (run ⟨cap, nesting⟩ source file s)) :
    run ⟨cap, nesting'⟩ source file s = run ⟨cap, nesting⟩ source file s := by
  cases htokens : Token.ofSource source with
  | error fault => rw [run_of_error htokens, run_of_error htokens]
  | ok tokens =>
    rw [run_of_ok htokens] at h ⊢
    rw [run_of_ok htokens]
    rcases Machine.execute_of_nesting_le hle cap file (s.load tokens) with
      heq | ⟨fault, n, hfault, hfamily⟩
    · rw [runTokens, runTokens, heq]
    · rw [runTokens, hfault] at h
      exact absurd (congrArg some hfamily) h

/-- Two runs that have room enough are the same, however much each has. -/
theorem run_eq_of_not_crowded {cap : Int} {nesting nesting' : Nat}
    (h : ¬ Crowded (run ⟨cap, nesting⟩ source file s))
    (h' : ¬ Crowded (run ⟨cap, nesting'⟩ source file s)) :
    run ⟨cap, nesting'⟩ source file s = run ⟨cap, nesting⟩ source file s := by
  rcases Nat.le_total nesting nesting' with hle | hle
  · exact run_eq_of_le hle h
  · exact (run_eq_of_le hle h').symm

end Session

/-! ## The lines of a log -/

/-- The lines of the reports are among those of the log, in order. -/
theorem Entry.lines_sublist (entries : List Entry) :
    (entries.flatMap (lines false)).Sublist (entries.flatMap (lines true)) := by
  induction entries with
  | nil => exact .slnil
  | cons entry entries ih =>
    rw [List.flatMap_cons, List.flatMap_cons]
    exact .append (List.sublist_append_right ..) ih

/-! ## Scripts -/

namespace Command

open Transcript (unlines)

variable {name source : String} {settings : Settings} {environment : String → Option String}
  {files : String → File}

/-- The environment with another value of the variable that turns debugging on. -/
def withDebug (value? : Option String) (environment : String → Option String) :
    String → Option String :=
  fun key => if key = "SWIFTLET_DEBUG" then value? else environment key

/-- The value turns debugging on. -/
def debugs (value? : Option String) : Bool :=
  value?.any (!·.isEmpty)

theorem ofEnvironment_withDebug (value? : Option String)
    (h : Settings.ofEnvironment environment = .ok settings) :
    Settings.ofEnvironment (withDebug value? environment) =
      .ok { settings with debug := debugs value? } := by
  have hcap : withDebug value? environment "SWIFTLET_MAX_ITERATIONS" =
      environment "SWIFTLET_MAX_ITERATIONS" :=
    if_neg (by decide)
  have hdebug : withDebug value? environment "SWIFTLET_DEBUG" = value? := if_pos rfl
  obtain ⟨cap, hcapOf, hcapped⟩ := except_bind_ok_iff.mp h
  cases hcapped
  rw [Settings.ofEnvironment, hcap, hdebug, hcapOf]
  rfl

/-- The dump of the tokens of a text, if it has tokens. -/
def dumpOf (source : String) : String :=
  match Token.ofSource source with
  | .ok tokens => dump tokens
  | .error _ => ""

/-- What a script comes to, by how it ends. -/
def resultOf : EStateM.Result Abort Session (Option Fault) → Except Failure Nat
  | .ok fault _ => .ok (exitCode fault)
  | .error a _ => .error (.abort a)

theorem conclude_eq (debug : Bool) (r : EStateM.Result Abort Session (Option Fault)) :
    conclude debug r = (.between debug {} (final r), resultOf r) := by
  cases r <;> rfl

/-- The run that a script comes to, with the room that is left beside a dump and a log. -/
def scripted (host : Host) (settings : Settings) (showTokens : Bool) (name source : String) :
    EStateM.Result Abort Session (Option Fault) :=
  Session.run (limits host settings (showTokens || settings.debug)) source name {}

/-- With and without a dump, a script is run as a text. -/
theorem runScript_eq (host : Host) (settings : Settings) (showTokens : Bool)
    (name source : String) :
    runScript host settings showTokens name source =
      (.say (if showTokens || settings.debug then dumpOf source else "") ++
          .between settings.debug {} (final (scripted host settings showTokens name source)),
        resultOf (scripted host settings showTokens name source)) := by
  unfold runScript scripted dumpOf
  cases showTokens || settings.debug with
  | true =>
    rw [if_pos rfl, if_pos rfl, Session.run_eq_tokenize, Session.tokenize]
    cases Token.ofSource source with
    | ok tokens => simp only [conclude_eq]
    | error fault =>
      simp only [Transcript.say_append, String.empty_append, resultOf, exitCode, final]
  | false => simp [conclude_eq, Transcript.say_append]

/-- The arguments that ask for a script. -/
def scriptArgs (showTokens : Bool) (name : String) : List String :=
  if showTokens then ["--tokens", name] else [name]

theorem ofArgs_scriptArgs (showTokens : Bool) (hname : name.startsWith "-" = false) :
    ofArgs (scriptArgs showTokens name) = .script name showTokens := by
  cases showTokens with
  | true => rfl
  | false =>
    have hhelp : (name == "-h" || name == "--help") = false := by
      rw [Bool.or_eq_false_iff, beq_eq_false_iff_ne, beq_eq_false_iff_ne]
      constructor
      · rintro rfl
        revert hname
        decide +kernel
      · rintro rfl
        revert hname
        decide +kernel
    simp [scriptArgs, ofArgs, hhelp, hname]

/-- What the whole program writes for a script that it can read, by how the script ends. -/
theorem run_scriptArgs (host : Host) (keys : List Keystroke) (hname : name.startsWith "-" = false)
    (hsettings : Settings.ofEnvironment environment = .ok settings)
    (hsource : sourceOf name (files name) = .ok source) (showTokens : Bool)
    (value? : Option String) :
    let r := scripted host { settings with debug := debugs value? } showTokens name source
    run (scriptArgs showTokens name) (withDebug value? environment) files keys host =
      (⟨(if showTokens || debugs value? then dumpOf source else "") ++
          unlines ((final r).printed.toList.map Value.text),
        unlines ((final r).journal.toList.flatMap (Entry.lines (debugs value?)))⟩,
        resultOf r) := by
  simp only [run, ofEnvironment_withDebug value? hsettings, ofArgs_scriptArgs showTokens hname,
    hsource]
  rw [runScript_eq, Transcript.say_append, Transcript.between_new]

/-- An environment that caps loops. -/
def capped : String → Option String :=
  fun key => if key = "SWIFTLET_MAX_ITERATIONS" then some "5" else none

/-- A script that goes past the cap. -/
def endless : String :=
  "while 0 < 1 \x7b print(1) \x7d"

/-- Wherever it is looked for, the script is there. -/
def holding (script : String) : String → File :=
  fun _ => .contents script.toUTF8.toList

/-- A script with a block inside another. -/
def nested : String :=
  "if 1 < 2 \x7b if 1 < 2 \x7b \x7d \x7d"

end Command

end TokenWalk
