import Mathlib.Data.List.Induction
import TokenWalk.Proofs.Holdings
import TokenWalk.Proofs.Literals

/-!
# Where values come from

A session that starts without variables runs one fragment after the other, and some of them fail.
Whatever is bound or printed on the way is an integer of 64 bits, or stands in one of the fragments
run so far: a text as a string literal, a double as a numeral with a point or an exponent.  No
double or text is ever computed, and no double is negative or not a number.
-/

namespace TokenWalk

/-- A text given to a session, and the name of its file. -/
structure Input where
  source : String
  file : String
  deriving DecidableEq, Repr

variable {limits : Limits} {fragments fragments' : List Input} {fragment : Input}
  {tokens : List Token}

/-- The token is one of a fragment's. -/
def Token.Occurs (fragments : List Input) (t : Token) : Prop :=
  ∃ fragment ∈ fragments, ∃ tokens, ofSource fragment.source = .ok tokens ∧ t ∈ tokens

/-- The value is an integer of 64 bits, or that of a literal in the fragments. -/
inductive Value.Traced (fragments : List Input) : Value → Prop where
  | int {n : Int} (hmin : minInt ≤ n) (hmax : n ≤ maxInt) : Traced fragments (.int n)
  | str {t : Token} (ht : t.Occurs fragments) (hkind : t.kind = .string) :
      Traced fragments (.str t.text)
  | float {t : Token} {x : Double} (ht : t.Occurs fragments)
      (hkind : t.kind = .float ∨ t.kind = .integer ∧ t.hasExponent = true)
      (hread : Numeral.readDouble t.text = .ok x) (hmagnitude : x.IsMagnitude) :
      Traced fragments (.float x)

theorem Value.Traced.mono {v : Value} (h : v.Traced fragments) (hsub : fragments ⊆ fragments') :
    v.Traced fragments' := by
  have hoccurs : ∀ {t : Token}, t.Occurs fragments → t.Occurs fragments' :=
    fun ⟨fragment, hmem, ht⟩ => ⟨fragment, hsub hmem, ht⟩
  cases h with
  | int hmin hmax => exact .int hmin hmax
  | str ht hkind => exact .str (hoccurs ht) hkind
  | float ht hkind hread hmagnitude => exact .float (hoccurs ht) hkind hread hmagnitude

/-- The literals of a fragment are traced to it. -/
theorem traced_of_literal (hmem : fragment ∈ fragments)
    (h : Token.ofSource fragment.source = .ok tokens) {v : Value} (hv : Literal tokens v) :
    v.Traced fragments := by
  obtain ⟨t, ht, hidentifier, hvalue⟩ := hv
  have hoccurs : t.Occurs fragments := ⟨fragment, hmem, tokens, h, ht⟩
  rcases Token.value?_eq_ok h ht hidentifier hvalue with
    ⟨n, rfl, hmin, hmax⟩ | ⟨rfl, hkind⟩ | ⟨x, rfl, hread, hmagnitude, hkind⟩
  · exact .int hmin hmax
  · exact .str hoccurs hkind
  · exact .float hoccurs hkind hread hmagnitude

namespace Session

variable {session s : Session}

/-- All values bound or printed are traced to the fragments. -/
def AllTraced (fragments : List Input) : Session → Prop :=
  Holds (Value.Traced fragments) (Value.Traced fragments)

theorem AllTraced.mono (h : session.AllTraced fragments) (hsub : fragments ⊆ fragments') :
    session.AllTraced fragments' :=
  ⟨fun frame hframe binding hbinding => (h.bound frame hframe binding hbinding).mono hsub,
    fun value hvalue => (h.printed value hvalue).mono hsub⟩

/-- Only globals are left when a run is over. -/
theorem AllTraced.reset (h : session.AllTraced fragments) :
    { session with scopes := session.scopes.reset }.AllTraced fragments :=
  ⟨fun frame hframe => h.bound frame (List.mem_append_right _ hframe), h.printed⟩

/-- Running one of the fragments keeps all values traced. -/
theorem invariant_allTraced (hmem : fragment ∈ fragments)
    (h : Token.ofSource fragment.source = .ok tokens) :
    Invariant tokens (AllTraced fragments) :=
  invariant_holds (fun n => .int (minInt_le_wrap n) (wrap_le_maxInt n))
    (fun _ => traced_of_literal hmem h) fun _ => id

/-- All values are traced after the run of a fragment, however it ends. -/
theorem AllTraced.run (limits : Limits) (hsession : session.AllTraced fragments)
    (hmem : fragment ∈ fragments) :
    (final (run limits fragment.source fragment.file session)).AllTraced fragments := by
  cases htokens : Token.ofSource fragment.source with
  | error fault =>
    rw [run_of_error htokens]
    exact ⟨hsession.bound, hsession.printed⟩
  | ok tokens =>
    have hinvariant := invariant_allTraced hmem htokens
    have houtcome := hinvariant.kept.outcome limits fragment.file session hsession
    rw [run_of_ok htokens]
    have hends := ends_runTokens limits tokens fragment.file session
    generalize runTokens limits tokens fragment.file session = r at hends
    cases hends with
    | done h | abort h =>
      rw [h] at houtcome
      exact houtcome.reset
    | fault h =>
      rw [h] at houtcome
      exact hinvariant.note _ houtcome.reset

/-- What a new session is after running the fragments, whatever became of them. -/
def after (limits : Limits) (fragments : List Input) : Session :=
  fragments.foldl (fun session fragment => final (run limits fragment.source fragment.file session))
    {}

theorem after_concat (limits : Limits) (fragments : List Input) (fragment : Input) :
    after limits (fragments ++ [fragment]) =
      final (run limits fragment.source fragment.file (after limits fragments)) := by
  simp [after]

theorem allTraced_after (limits : Limits) (fragments : List Input) :
    (after limits fragments).AllTraced fragments := by
  induction fragments using List.reverseRec with
  | nil =>
    refine ⟨fun frame hframe binding hbinding => ?_, fun value hvalue => ?_⟩
    · obtain rfl := List.mem_singleton.mp hframe
      cases hbinding
    · exact absurd hvalue (Array.not_mem_empty value)
  | append_singleton fragments fragment ih =>
    rw [after_concat]
    have hsub : fragments ⊆ fragments ++ [fragment] := List.subset_append_left _ _
    exact (ih.mono hsub).run limits List.mem_concat_self

/-- A new session that is given the fragments passes the state: between two runs, at a spot of the
run of the last fragment, or where a statement of it evaluates its condition. -/
inductive Passes (limits : Limits) : List Input → Session → Prop where
  | between (fragments : List Input) : Passes limits fragments (after limits fragments)
  | within {fragments : List Input} {fragment : Input} {tokens : List Token} {spot : Spot}
      (htokens : Token.ofSource fragment.source = .ok tokens)
      (hreaches : Spot.Reaches limits.iterations
        ((after limits fragments).start limits tokens fragment.file) spot) :
      Passes limits (fragments ++ [fragment]) spot.machine.toSession
  | asking {fragments : List Input} {fragment : Input} {tokens : List Token} {spot : Spot}
      {q : Machine} (htokens : Token.ofSource fragment.source = .ok tokens)
      (hreaches : Spot.Reaches limits.iterations
        ((after limits fragments).start limits tokens fragment.file) spot)
      (hq : Walk.Asks (.block limits.iterations spot.nesting) limits.iterations spot.machine q) :
      Passes limits (fragments ++ [fragment]) q.toSession

/-- At every spot of the run of a further fragment all values are traced. -/
theorem allTraced_of_reaches {spot : Spot} (htokens : Token.ofSource fragment.source = .ok tokens)
    (hreaches : Spot.Reaches limits.iterations
      ((after limits fragments).start limits tokens fragment.file) spot) :
    Invariant.At tokens (AllTraced (fragments ++ [fragment])) spot := by
  have hinvariant : Invariant tokens (AllTraced (fragments ++ [fragment])) :=
    invariant_allTraced List.mem_concat_self htokens
  have hafter : (after limits fragments).AllTraced (fragments ++ [fragment]) :=
    (allTraced_after limits fragments).mono (List.subset_append_left _ _)
  exact hinvariant.reaches_start hafter hreaches

/-- **Where values come from.**  Whatever fragments a new session runs, in every state that it
passes each value bound or printed is an integer of 64 bits, the text of a string literal, or the
magnitude that a numeral with a point or an exponent is read as, with the literal in a fragment run
so far. -/
theorem allTraced_of_passes (limits : Limits) (fragments : List Input) (s : Session)
    (h : Passes limits fragments s) : s.AllTraced fragments := by
  cases h with
  | between => exact allTraced_after limits fragments
  | within htokens hreaches => exact (allTraced_of_reaches htokens hreaches).2
  | @asking before last tokens _ _ htokens hreaches hq =>
    obtain ⟨hcursor, hspot⟩ := allTraced_of_reaches htokens hreaches
    have hinvariant : Invariant tokens (AllTraced (before ++ [last])) :=
      invariant_allTraced List.mem_concat_self htokens
    exact (hinvariant.kept.asks hcursor hq).2 hspot

/-- Three fragments, of which the second one fails after it has printed. -/
def faltering : List Input :=
  [⟨"var n = 9223372036854775807 + 1", "a"⟩, ⟨"print(n) print(2.5", "b"⟩, ⟨"print(\"s\")", "c"⟩]

theorem faltering_allTraced :
    Passes ⟨10, 10⟩ faltering (after ⟨10, 10⟩ faltering) ∧
      (after ⟨10, 10⟩ faltering).printed = #[.int minInt, .str "s"] ∧
      (after ⟨10, 10⟩ faltering).AllTraced faltering :=
  ⟨.between faltering, by decide +kernel, allTraced_of_passes _ _ _ (.between faltering)⟩

end Session

end TokenWalk
