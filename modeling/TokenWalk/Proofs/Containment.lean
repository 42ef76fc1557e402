import TokenWalk.Proofs.Holdings
import TokenWalk.Proofs.Literals

/-!
# Errors are contained

However a fragment fails, its run ends in one of three ways: quietly, with one fault that is
reported once and names the file, or with an abort that is not reported.  The last one happens only
if the run evaluates an integer literal of more digits than are read, or if a loop goes past a cap
of more digits than are written.

Of the partial operations, arithmetic and comparisons abort on no value that scripts can make:
integers stay in 64 bits, all of which a double can approximate (`Double.isFinite_ofInt`).
-/

namespace TokenWalk

open Text (isDigit)

variable {tokens : List Token} {source file : String} {session : Session} {limits : Limits}
  {cap : Int}

/-! ## Reports -/

/-- The faults reported so far. -/
def Session.reports (session : Session) : List Fault :=
  session.journal.toList.filterMap Entry.fault?

theorem Session.reports_push (session : Session) (entry : Entry) :
    { session with journal := session.journal.push entry }.reports =
      session.reports ++ entry.fault?.toList := by
  cases h : entry.fault? <;> simp [reports, h]

/-- No statement reports a fault. -/
theorem kept_reports (tokens : List Token) :
    Kept tokens (fun s t => t.reports = s.reports) (fun s t => t.reports = s.reports) :=
  have hsteady : Steady fun s t => t.reports = s.reports :=
    { refl := fun _ => rfl
      trans := fun hst htu => htu.trans hst
      note := fun s entry hentry => by simp [s.reports_push, hentry] }
  { row := hsteady
    framed := hsteady
    of_framed := id
    emit := fun _ => rfl
    declare := fun _ _ => rfl
    update := fun _ _ => rfl
    frame := id }

/-! ## Ordinary values -/

/-- A value that scripts can make, or a host may bind without harm. -/
def Value.Ordinary : Value → Prop
  | .int n => minInt ≤ n ∧ n ≤ maxInt
  | .float _ | .str _ => True
  | .bool _ | .nothing => False

instance : DecidablePred Value.Ordinary
  | .int n => inferInstanceAs (Decidable (minInt ≤ n ∧ n ≤ maxInt))
  | .float _ | .str _ => .isTrue trivial
  | .bool _ | .nothing => .isFalse id

theorem ordinary_wrap (n : Int) : Value.Ordinary (.int (wrap n)) :=
  ⟨minInt_le_wrap n, wrap_le_maxInt n⟩

theorem ordinary_of_literal (h : Token.ofSource source = .ok tokens) {v : Value}
    (hv : Literal tokens v) : v.Ordinary := by
  obtain ⟨t, ht, hkind, hvalue⟩ := hv
  rcases Token.value?_eq_ok h ht hkind hvalue with ⟨n, rfl, hn⟩ | ⟨rfl, -⟩ | ⟨x, rfl, -⟩
  · exact hn
  · trivial
  · trivial

/-- While all bound values are ordinary, scripts bind ordinary ones only. -/
theorem invariant_ordinary (h : Token.ofSource source = .ok tokens) :
    Invariant tokens (Session.Holds Value.Ordinary fun _ => True) :=
  invariant_holds ordinary_wrap (fun _ => ordinary_of_literal h) fun _ _ => trivial

/-! ## Terms on the course of a run -/

namespace Spot

variable {s : Spot} {d : Cursor} {a : Abort}

/-- The statement at the spot itself evaluates the term at the cursor. -/
inductive Evaluates (cap : Int) (s : Spot) : Cursor → Prop where
  | computing {c d : Cursor} (hactive : s.Active) (hc : Walk.Computes s.machine c)
      (h : Reading.Evaluates s.machine.scopes c d) : Evaluates cap s d
  | asking {q : Machine} {d : Cursor} (hactive : s.Active)
      (hq : Walk.Asks (.block cap s.nesting) cap s.machine q)
      (h : Reading.Tests q.scopes q.cursor d) : Evaluates cap s d

theorem Evaluates.tokens_eq (h : s.Evaluates cap d) : d.tokens = s.machine.cursor.tokens := by
  cases h with
  | computing _ hc h =>
    rw [h.onward.tokens_eq]
    cases hc with
    | declaration | assignment | printing => rfl
  | asking _ hq h =>
    rw [h.onward.tokens_eq]
    cases hq with
    | first | again => rfl

theorem Evaluates.token_mem (htokens : s.machine.cursor.tokens = tokens) (h : s.Evaluates cap d)
    (hkind : d.token.kind ≠ .endOfInput) : d.token ∈ tokens := by
  rw [← htokens, ← h.tokens_eq]
  exact d.token_mem hkind

/-- A term that is a long integer stops the run. -/
theorem Evaluates.outcome (h : Token.ofSource source = .ok tokens)
    (htokens : s.machine.cursor.tokens = tokens) (hd : s.Evaluates cap d)
    (hlong : d.token.IsLongInteger) : ∃ a m', s.outcome cap = .error (.abort a) m' := by
  have hmem := hd.token_mem htokens (by simp [hlong.1])
  have hvalue : ∀ scopes, d.token.value? scopes = some (.error (.abort _)) :=
    fun scopes => (Token.value?_eq_abort_iff h hmem).mpr ⟨hlong, rfl⟩
  cases hd with
  | computing hactive hc hd =>
    obtain ⟨_, hexpression⟩ := Reading.expression_abort_iff.mpr ⟨d, hd, hvalue _⟩
    obtain ⟨m', hstatement⟩ := Walk.statementWith_of_computes hc hexpression
    exact ⟨_, m', outcome_of_error hactive hstatement⟩
  | asking hactive hq hd =>
    obtain ⟨_, hcondition⟩ := Reading.condition_abort_of_tests hd (hvalue _)
    obtain ⟨m', hstatement⟩ := Walk.statementWith_of_asks hq (Walk.read_of_error hcondition)
    exact ⟨_, m', outcome_of_error hactive hstatement⟩

/-- The statement at the spot is a loop past its cap. -/
def Overruns (cap : Int) (s : Spot) : Prop :=
  s.Active ∧ Walk.Overruns (.block cap s.nesting) cap s.machine

/-- A loop past a cap that is too long to write stops the run. -/
theorem Overruns.outcome (h : s.Overruns cap) (hlong : Numeral.maxDigits < Numeral.digitCount cap) :
    ∃ a m', s.outcome cap = .error (.abort a) m' := by
  obtain ⟨m', hstatement⟩ := Walk.statementWith_of_overruns h.2
  rw [Stop.overrun_of_long hlong] at hstatement
  exact ⟨_, m', outcome_of_error h.1 hstatement⟩

/-- An abort is raised at a term that is a long integer, or at a loop past a cap that is one. -/
theorem evaluates_of_raises (h : Token.ofSource source = .ok tokens)
    (hs : Invariant.At tokens (Session.Holds Value.Ordinary fun _ => True) s)
    (hraises : s.Raises cap (.abort a)) :
    (∃ d, s.Evaluates cap d ∧ d.token.IsLongInteger ∧
      a = .numeral (.tooManyDigits (d.token.text.toList.countP isDigit))) ∨
    s.Overruns cap ∧ Numeral.maxDigits < Numeral.digitCount cap ∧ a = .numeral .tooLong := by
  have hterm : ∀ {d scopes}, s.Evaluates cap d →
      d.token.value? scopes = some (.error (.abort a)) → d.token.IsLongInteger ∧
        a = .numeral (.tooManyDigits (d.token.text.toList.countP isDigit)) := by
    intro d scopes hd hvalue
    have hmem := hd.token_mem hs.1 (kind_ne_endOfInput_of_value? hvalue)
    exact (Token.value?_eq_abort_iff h hmem).mp hvalue
  generalize hstop : Stop.abort a = stop at hraises
  obtain ⟨hactive, hstops⟩ | _ | _ := hraises
  case unclosed | tooDeep => cases hstop
  cases hstops with
  | computing hc hexpression =>
    subst hstop
    obtain ⟨d, hd, hvalue⟩ := Reading.expression_abort_iff.mp ⟨_, hexpression⟩
    have hevaluates : s.Evaluates cap d := .computing hactive hc hd
    exact .inl ⟨d, hevaluates, hterm hevaluates hvalue⟩
  | @asking q q' _ hq hcondition =>
    subst hstop
    have hleads := (invariant_ordinary h).kept.asks hs.1 hq
    obtain ⟨_, hcondition, -⟩ := Walk.read_error_iff.mp hcondition
    rcases Reading.tests_of_condition_abort hcondition with ⟨d, hd, hvalue⟩ | ⟨n, hn, hfinite⟩
    · have hevaluates : s.Evaluates cap d := .asking hactive hq hd
      exact .inl ⟨d, hevaluates, hterm hevaluates hvalue⟩
    · -- What a comparison takes for a double is an integer of 64 bits.
      rw [hleads.1] at hn
      have hbounds : minInt ≤ n ∧ n ≤ maxInt :=
        (hleads.2 hs.2).of_derived ordinary_wrap (fun _ => ordinary_of_literal h) hn
      rw [Double.isFinite_ofInt hbounds.1 hbounds.2] at hfinite
      cases hfinite
  | skipping _ hskip =>
    subst hstop
    cases Reading.skipBlock_error hskip
  | overrunning hoverruns =>
    rcases Nat.lt_or_ge Numeral.maxDigits (Numeral.digitCount cap) with hlong | hshort
    · rw [Stop.overrun_of_long hlong] at hstop
      cases hstop
      exact .inr ⟨⟨hactive, hoverruns⟩, hlong, rfl⟩
    · rw [Stop.overrun_of_short hshort] at hstop
      cases hstop
  | refusing => cases hstop

end Spot

/-! ## The runs of a session -/

namespace Session

/-- Running the fragment evaluates the token as a term. -/
def Evaluates (limits : Limits) (source file : String) (session : Session) (t : Token) : Prop :=
  ∃ tokens spot d, Token.ofSource source = .ok tokens ∧
    Spot.Reaches limits.iterations (session.start limits tokens file) spot ∧
      spot.Evaluates limits.iterations d ∧ d.token = t

/-- Running the fragment takes a loop past its cap. -/
def Overruns (limits : Limits) (source file : String) (session : Session) : Prop :=
  ∃ tokens spot, Token.ofSource source = .ok tokens ∧
    Spot.Reaches limits.iterations (session.start limits tokens file) spot ∧
      spot.Overruns limits.iterations

/-- What aborts a run: it evaluates an integer literal of too many digits, or it takes a loop past a
cap of too many. -/
def Aborts (limits : Limits) (source file : String) (session : Session) : Prop :=
  (∃ t, session.Evaluates limits source file t ∧ t.IsLongInteger) ∨
    session.Overruns limits source file ∧ Numeral.maxDigits < Numeral.digitCount limits.iterations

/-- The ways in which a run in the session can end: quietly, with a fault that is reported once and
names the file, or with the abort of an integer of too many digits to read or to write, which is not
reported. -/
inductive Contained (file : String) (session : Session) :
    EStateM.Result Abort Session (Option Fault) → Prop where
  | quiet {after : Session} (hreports : after.reports = session.reports) :
      Contained file session (.ok none after)
  | reported {fault : Fault} {after : Session} (hfile : fault.file = some file)
      (hreports : after.reports = session.reports ++ [fault]) :
      Contained file session (.ok (some fault) after)
  | escaped {digits : Nat} {after : Session} (hdigits : Numeral.maxDigits < digits)
      (hreports : after.reports = session.reports) :
      Contained file session (.error (.numeral (.tooManyDigits digits)) after)
  | unwritten {after : Session} (hreports : after.reports = session.reports) :
      Contained file session (.error (.numeral .tooLong) after)

variable {r : EStateM.Result Abort Session (Option Fault)} {a : Abort} {m : Machine}

/-- A fault of the statements of a fragment is no lexical one, and names no file. -/
theorem fault_of_outcome {fault : Fault}
    (h : (session.start limits tokens file).outcome limits.iterations = .error (.fault fault) m) :
    fault.cause.family ≠ .lexical ∧ fault.file = none := by
  obtain ⟨t, -, hraises⟩ := Spot.raises_of_outcome h
  obtain ⟨hfamily, hfile⟩ := hraises.isOf
  refine ⟨fun hlexical => ?_, hfile⟩
  rw [hlexical] at hfamily
  exact absurd hfamily (by decide)

/-- An abort of the statements of a fragment is that of a long integer which they evaluate, or of a
long cap which a loop goes past. -/
theorem aborts_of_outcome (htokens : Token.ofSource source = .ok tokens)
    (hholds : session.Holds Value.Ordinary fun _ => True)
    (h : (session.start limits tokens file).outcome limits.iterations = .error (.abort a) m) :
    session.Aborts limits source file ∧
      (a = .numeral .tooLong ∨
        ∃ digits, Numeral.maxDigits < digits ∧ a = .numeral (.tooManyDigits digits)) := by
  obtain ⟨spot, hreaches, hraises⟩ := Spot.raises_of_outcome h
  have hspot := (invariant_ordinary htokens).reaches_start hholds hreaches
  rcases Spot.evaluates_of_raises htokens hspot hraises with
    ⟨d, hd, hlong, ha⟩ | ⟨hoverruns, hlong, ha⟩
  · have hevaluates : session.Evaluates limits source file d.token :=
      ⟨tokens, spot, d, htokens, hreaches, hd, rfl⟩
    exact ⟨.inl ⟨d.token, hevaluates, hlong⟩, .inr ⟨_, hlong.2.2, ha⟩⟩
  · exact ⟨.inr ⟨⟨tokens, spot, htokens, hreaches, hoverruns⟩, hlong⟩, .inl ha⟩

theorem contained_of_ends (htokens : Token.ofSource source = .ok tokens)
    (hholds : session.Holds Value.Ordinary fun _ => True)
    (h : Ends limits tokens file session r) : Contained file session r := by
  have hreports := (kept_reports tokens).outcome limits file session
  cases h with
  | done h =>
    rw [h] at hreports
    exact .quiet hreports
  | @fault fault m h =>
    rw [h] at hreports
    refine .reported (by simp [Fault.inFile, (fault_of_outcome h).2]) ?_
    have hpush := m.toSession.reports_push (.reported (fault.inFile file))
    exact hpush.trans (congrArg (· ++ _) hreports)
  | abort h =>
    rw [h] at hreports
    obtain ⟨-, rfl | ⟨digits, hdigits, rfl⟩⟩ := aborts_of_outcome htokens hholds h
    · exact .unwritten hreports
    · exact .escaped hdigits hreports

/-- A run aborts exactly if it evaluates a long integer or goes past a long cap. -/
theorem error_iff_of_ends (htokens : Token.ofSource source = .ok tokens)
    (hholds : session.Holds Value.Ordinary fun _ => True)
    (h : Ends limits tokens file session r) :
    (∃ abort after, r = .error abort after) ↔ session.Aborts limits source file := by
  -- Only one of the ways to end is left by what is evaluated and by the loop.
  have hstop : session.Aborts limits source file →
      ∃ a m, (session.start limits tokens file).outcome limits.iterations =
        .error (.abort a) m := by
    rintro (⟨t, ⟨tokens', spot, d, htokens', hreaches, hd, rfl⟩, hlong⟩ |
      ⟨⟨tokens', spot, htokens', hreaches, hoverruns⟩, hlong⟩)
    · obtain rfl : tokens = tokens' := Except.ok.inj (htokens.symm.trans htokens')
      have hspot := (invariant_ordinary htokens).reaches_start hholds hreaches
      obtain ⟨a, m', hspot⟩ := hd.outcome htokens hspot.1 hlong
      exact ⟨a, Spot.outcome_of_reaches hreaches ⟨m', hspot⟩⟩
    · obtain rfl : tokens = tokens' := Except.ok.inj (htokens.symm.trans htokens')
      obtain ⟨a, m', hspot⟩ := hoverruns.outcome hlong
      exact ⟨a, Spot.outcome_of_reaches hreaches ⟨m', hspot⟩⟩
  constructor
  · rintro ⟨a, after, rfl⟩
    cases h with
    | abort h => exact (aborts_of_outcome htokens hholds h).1
  · intro hlong
    obtain ⟨a, m, hstop⟩ := hstop hlong
    cases h with
    | done h | fault h =>
      rw [hstop] at h
      cases h
    | abort => exact ⟨_, _, rfl⟩

theorem inner_of_ends (h : Ends limits tokens file session r) : (final r).scopes.inner = [] := by
  cases h with
  | done | fault | abort => rfl

theorem family_of_ends {fault : Fault} {after : Session}
    (h : Ends limits tokens file session (.ok (some fault) after)) :
    fault.cause.family ≠ .lexical := by
  cases h with
  | fault h => exact (fault_of_outcome h).1

/-- **Errors are contained.**  In a session whose only frame is the global one and holds ordinary
values, every run of a fragment ends in one of the contained ways.  It aborts exactly if it
evaluates an integer literal of too many digits or goes past a cap of too many, leaves only the
global frame, and with a lexical fault neither prints nor binds anything. -/
theorem run_contained (limits : Limits) (source file : String) (session : Session)
    (hglobal : session.scopes.inner = [])
    (hvalues : ∀ binding ∈ session.scopes.globals, binding.2.Ordinary) :
    Contained file session (run limits source file session) ∧
      ((∃ abort after, run limits source file session = .error abort after) ↔
        session.Aborts limits source file) ∧
      (final (run limits source file session)).scopes.inner = [] ∧
      ∀ fault after, run limits source file session = .ok (some fault) after →
        fault.cause.family = .lexical →
          after.printed = session.printed ∧ after.scopes = session.scopes := by
  have hholds : session.Holds Value.Ordinary fun _ => True := by
    refine ⟨fun frame hframe => ?_, fun _ _ => trivial⟩
    rw [Scopes.frames, hglobal, List.nil_append, List.mem_singleton] at hframe
    exact hframe ▸ hvalues
  cases htokens : Token.ofSource source with
  | ok tokens =>
    have hends := ends_runTokens limits tokens file session
    rw [run_of_ok htokens]
    refine ⟨contained_of_ends htokens hholds hends, error_iff_of_ends htokens hholds hends,
      inner_of_ends hends, fun fault after hrun hlexical => ?_⟩
    rw [hrun] at hends
    exact absurd hlexical (family_of_ends hends)
  | error fault =>
    rw [run_of_error htokens]
    refine ⟨.reported ?_ (session.reports_push _), ⟨nofun, ?_⟩, hglobal, ?_⟩
    · simp [Fault.inFile, (Token.lexical_of_ofSource htokens).2]
    · rintro (⟨t, ⟨tokens, _, _, htokens', -⟩, -⟩ | ⟨⟨tokens, _, htokens', -⟩, -⟩)
      · cases htokens.symm.trans htokens'
      · cases htokens.symm.trans htokens'
    · intro fault after hrun _
      cases hrun
      exact ⟨rfl, rfl⟩

/-- A session with a value of each ordinary type. -/
def mixed : Session :=
  { scopes.globals := [("n", .int maxInt), ("x", .float (.infinite false)), ("s", .str "a")] }

/-- Comparing with an infinite double, and adding to a text inside a block, are contained. -/
theorem mixed_contained :
    mixed.scopes.inner = [] ∧ ("x", .float (.infinite false)) ∈ mixed.scopes.globals ∧
      (∀ binding ∈ mixed.scopes.globals, binding.2.Ordinary) ∧
      Contained "a" mixed (run ⟨10, 10⟩ "if n < x \x7b var y = s + 1 \x7d" "a" mixed) ∧
      (final (run ⟨10, 10⟩ "if n < x \x7b var y = s + 1 \x7d" "a" mixed)).scopes.inner = [] := by
  have hvalues : ∀ binding ∈ mixed.scopes.globals, binding.2.Ordinary := by decide
  have hrun := run_contained ⟨10, 10⟩ "if n < x \x7b var y = s + 1 \x7d" "a" mixed rfl hvalues
  exact ⟨rfl, by simp [mixed], hvalues, hrun.1, hrun.2.2.1⟩

/-- The tokens of `while 1 == 1 { }`. -/
def idle : List Token :=
  [⟨.keyword, "while", ⟨1, 1⟩⟩, ⟨.integer, "1", ⟨1, 7⟩⟩, ⟨.operator, "==", ⟨1, 9⟩⟩,
    ⟨.integer, "1", ⟨1, 12⟩⟩, ⟨.punctuation, "\x7b", ⟨1, 14⟩⟩, ⟨.punctuation, "\x7d", ⟨1, 16⟩⟩,
    .endAt ⟨1, 17⟩]

/-- An abort without a long literal: the loop is past its cap at once, and the cap is too long for
the words of the fault. -/
theorem idle_aborts :
    (∃ after, run ⟨.negSucc (Nat.pow 10 Numeral.maxDigits), 10⟩ "while 1 == 1 \x7b \x7d" "a" {} =
      .error (.numeral .tooLong) after) ∧
    ¬ ∃ t, Evaluates ⟨.negSucc (Nat.pow 10 Numeral.maxDigits), 10⟩ "while 1 == 1 \x7b \x7d" "a" {}
        t ∧ t.IsLongInteger := by
  have htokens : Token.ofSource "while 1 == 1 \x7b \x7d" = .ok idle := by decide +kernel
  constructor
  · have hpast : ∀ k, ∃ m, Walk.statements ⟨.negSucc k, 10⟩ ((load {} idle).started "a") =
        .error (.overrun ⟨1, 1⟩ (.negSucc k)) m := fun k => ⟨_, rfl⟩
    obtain ⟨m, hm⟩ := hpast (Nat.pow 10 Numeral.maxDigits)
    rw [Stop.overrun_of_long (Numeral.lt_digitCount_negSucc (by decide))] at hm
    rw [run_of_ok htokens, runTokens, Machine.execute_of_abort hm]
    exact ⟨_, rfl⟩
  · rintro ⟨t, ⟨tokens, spot, d, htokens', hreaches, hd, rfl⟩, hlong⟩
    obtain rfl : idle = tokens := Except.ok.inj (htokens.symm.trans htokens')
    have hspot := (invariant_ordinary htokens).reaches_start
      ⟨fun frame hframe => by simp_all [Scopes.frames], fun _ _ => trivial⟩ hreaches
    have hmem : d.token ∈ idle := hd.token_mem hspot.1 (by simp [hlong.1])
    have hshort : ∀ t ∈ idle, t.text.toList.countP isDigit ≤ Numeral.maxDigits := by decide
    exact Nat.not_lt.mpr (hshort d.token hmem) hlong.2.2

end Session

end TokenWalk
