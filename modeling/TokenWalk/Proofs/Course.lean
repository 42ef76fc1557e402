import Mathlib.Logic.Relation
import TokenWalk.Proofs.BlockEnd
import TokenWalk.Proofs.Evaluation

/-!
# The course of a run

A run goes from statement to statement and into the blocks of loops and conditionals.  `Spot` is a
place on this way, before a statement or at the end of a row of statements, and `Spot.Next` is one
move: past a statement that ends, or into a block that a statement runs.

A run stops exactly where some spot on its course raises the stop: `raises_of_outcome` finds the
spot, and `outcome_of_reaches` carries the stop back to the start.  What a statement does itself,
the blocks it runs apart, is told by a few relations:

* `Opens`: it runs its block from the machine;
* `Computes` and `Asks`: it evaluates an expression or a condition there;
* `Skips`: it passes over a block there.
-/

namespace TokenWalk

namespace Walk

variable {block : Walk Unit} {cap : Int} {m m' : Machine} {stop : Stop}

/-! ## The rounds of a loop -/

/-- The head of a loop: takes `while`, the condition and the opening brace. -/
def head : Walk Bool := do
  let _ ← read .advance
  let holds ← condition
  read .openBrace
  return holds

/-- One round of a loop, and its condition after it. -/
def turn (block : Walk Unit) (conditionStart bodyStart : Cursor) : Walk Bool := do
  inFrame do
    moveTo bodyStart
    block
  moveTo conditionStart
  condition

/-- What remains of the loop at the machine, with so many rounds left. -/
def lasting (block : Walk Unit) (cap : Int) (m : Machine) (bodyStart : Cursor) (left : Nat)
    (holds : Bool) : Walk Unit := do
  let left ← rounds block cap m.cursor.token m.cursor.next bodyStart left holds
  note (.looped m.cursor.token.place.line (cap.toNat - left))
  moveTo bodyStart
  read .skipBlock

theorem loop_eq (block : Walk Unit) (cap : Int) (m : Machine) :
    loop block cap m = (head >>= fun holds => do
      lasting block cap m (← get).cursor cap.toNat holds) m := by
  unfold loop head lasting
  simp only [bind_assoc, pure_bind]
  rfl

theorem rounds_turn (keyword : Token) (conditionStart bodyStart : Cursor) (left : Nat) :
    rounds block cap keyword conditionStart bodyStart (left + 1) true =
      turn block conditionStart bodyStart >>=
        rounds block cap keyword conditionStart bodyStart left := by
  rw [rounds]
  unfold turn
  simp only [bind_assoc]

/-- What a loop does when its condition fails. -/
theorem lasting_false (m : Machine) (bodyStart : Cursor) (left : Nat) :
    lasting block cap m bodyStart left false = (do
      note (.looped m.cursor.token.place.line (cap.toNat - left))
      moveTo bodyStart
      read .skipBlock) := by
  unfold lasting
  cases left <;> rfl

theorem lasting_zero (m : Machine) (bodyStart : Cursor) :
    lasting block cap m bodyStart 0 true = throw (.overrun m.cursor.token.place cap) := by
  rfl

theorem lasting_succ (m : Machine) (bodyStart : Cursor) (left : Nat) :
    lasting block cap m bodyStart (left + 1) true =
      turn block m.cursor.next bodyStart >>= lasting block cap m bodyStart left := by
  unfold lasting
  rw [rounds_turn, bind_assoc]

/-- The loop at the first machine, whose body starts at the cursor, has come to the last machine
with so many rounds left, and its condition has just been checked. -/
inductive InLoop (block : Walk Unit) (cap : Int) (m : Machine) (bodyStart : Cursor) :
    (left : Nat) → (holds : Bool) → Machine → Prop where
  | first {holds : Bool} {e : Machine} (hhead : head m = .ok holds e)
      (hstart : e.cursor = bodyStart) : InLoop block cap m bodyStart cap.toNat holds e
  | next {left : Nat} {holds : Bool} {e e' : Machine}
      (h : InLoop block cap m bodyStart (left + 1) true e)
      (hturn : turn block m.cursor.next bodyStart e = .ok holds e') :
      InLoop block cap m bodyStart left holds e'

variable {bodyStart : Cursor} {left : Nat} {holds : Bool} {e e' : Machine}

/-- The loop goes on from wherever it has come to. -/
theorem loop_of_inLoop (h : InLoop block cap m bodyStart left holds e) :
    loop block cap m = lasting block cap m bodyStart left holds e := by
  induction h with
  | first hhead hstart =>
    subst hstart
    rw [loop_eq, bind_of_ok hhead]
    rfl
  | next h hturn ih =>
    rw [ih]
    unfold lasting
    rw [rounds_turn, bind_assoc, bind_of_ok hturn]

/-- The rounds end where the condition fails. -/
theorem inLoop_of_rounds {left' : Nat} (hin : InLoop block cap m bodyStart left holds e)
    (h : rounds block cap m.cursor.token m.cursor.next bodyStart left holds e = .ok left' e') :
    InLoop block cap m bodyStart left' false e' := by
  induction left generalizing holds e with
  | zero =>
    cases holds with
    | false =>
      cases h
      exact hin
    | true => cases h
  | succ left ih =>
    cases holds with
    | false =>
      cases h
      exact hin
    | true =>
      rw [rounds_turn] at h
      obtain ⟨holds, e₁, hturn, h⟩ := bind_ok_iff.mp h
      exact ih (hin.next hturn) h

/-! ## What a statement does itself -/

/-- The statement under the cursor runs its block from the second machine. -/
inductive Opens (block : Walk Unit) (cap : Int) (m : Machine) : Machine → Prop where
  | round {bodyStart : Cursor} {left : Nat} {e : Machine} (hkind : m.cursor.token.kind = .keyword)
      (htext : m.cursor.token.text = "while")
      (h : InLoop block cap m bodyStart (left + 1) true e) :
      Opens block cap m { e with scopes := e.scopes.push, cursor := bodyStart }
  | branch {e : Machine} (hkind : m.cursor.token.kind = .keyword)
      (htext : m.cursor.token.text = "if") (h : Enters m e) : Opens block cap m e

/-- The statement under the cursor evaluates its condition at the second machine. -/
inductive Asks (block : Walk Unit) (cap : Int) (m : Machine) : Machine → Prop where
  | first (hkind : m.cursor.token.kind = .keyword)
      (htext : m.cursor.token.text = "while" ∨ m.cursor.token.text = "if") :
      Asks block cap m { m with cursor := m.cursor.next }
  | again {bodyStart : Cursor} {left : Nat} {e e' : Machine}
      (hkind : m.cursor.token.kind = .keyword) (htext : m.cursor.token.text = "while")
      (h : InLoop block cap m bodyStart (left + 1) true e)
      (hround : inFrame (do moveTo bodyStart; block) e = .ok () e') :
      Asks block cap m { e' with cursor := m.cursor.next }

/-- The statement under the cursor evaluates an expression at the second cursor. -/
inductive Computes (m : Machine) : Cursor → Prop where
  | declaration (hkind : m.cursor.token.kind = .keyword)
      (htext : m.cursor.token.text = "var" ∨ m.cursor.token.text = "let")
      (hname : m.cursor.next.token.is .identifier none = true)
      (hequals : m.cursor.next.next.token.is .operator (some "=") = true) :
      Computes m m.cursor.next.next.next
  | assignment (hkind : m.cursor.token.kind = .identifier)
      (hvisible : m.scopes.contains m.cursor.token.text = true)
      (hequals : m.cursor.next.token.is .operator (some "=") = true) :
      Computes m m.cursor.next.next
  | printing (hkind : m.cursor.token.kind = .keyword) (htext : m.cursor.token.text = "print")
      (hopens : m.cursor.next.token.is .punctuation (some "(") = true) :
      Computes m m.cursor.next.next

/-- The statement under the cursor passes over a block at the second cursor. -/
inductive Skips (block : Walk Unit) (cap : Int) (m : Machine) : Cursor → Prop where
  | body {bodyStart : Cursor} {left : Nat} {e : Machine} (hkind : m.cursor.token.kind = .keyword)
      (htext : m.cursor.token.text = "while") (h : InLoop block cap m bodyStart left false e) :
      Skips block cap m bodyStart
  | consequent {e : Machine} (hkind : m.cursor.token.kind = .keyword)
      (htext : m.cursor.token.text = "if") (htest : test m = .ok false e) :
      Skips block cap m e.cursor
  | alternative {e e₁ : Machine} (hkind : m.cursor.token.kind = .keyword)
      (htext : m.cursor.token.text = "if") (htest : test m = .ok true e)
      (hbranch : branch block e = .ok () e₁)
      (helse : e₁.cursor.token.is .keyword (some "else") = true)
      (hopens : e₁.cursor.next.token.opensBlock = true) :
      Skips block cap m e₁.cursor.next.next

/-- The families of faults that a statement itself raises, its evaluations apart. -/
def statementFamilies : List Family :=
  [.unhandledKeyword, .undefinedVariable, .redeclaration, .unexpectedToken, .loopLimit]

/-- The statement under the cursor is a loop past its cap. -/
def Overruns (block : Walk Unit) (cap : Int) (m : Machine) : Prop :=
  m.cursor.token.kind = .keyword ∧ m.cursor.token.text = "while" ∧
    ∃ bodyStart e, InLoop block cap m bodyStart 0 true e

/-- The statement under the cursor stops by itself. -/
inductive Stops (block : Walk Unit) (cap : Int) (m : Machine) : Stop → Prop where
  | computing {c d : Cursor} {stop : Stop} (hc : Computes m c)
      (h : Reading.expression m.scopes c = .error stop d) : Stops block cap m stop
  | asking {q q' : Machine} {stop : Stop} (hq : Asks block cap m q)
      (h : condition q = .error stop q') : Stops block cap m stop
  | skipping {c d : Cursor} {stop : Stop} (hc : Skips block cap m c)
      (h : Reading.skipBlock c = .error stop d) : Stops block cap m stop
  | overrunning (h : Overruns block cap m) :
      Stops block cap m (.overrun m.cursor.token.place cap)
  | refusing (token : Token) {cause : Cause} (h : cause.family ∈ statementFamilies) :
      Stops block cap m (.fault (.ofPlace token.place cause))

/-- The statement under the cursor stops, by itself or in a block that it runs. -/
def StopsAnywhere (block : Walk Unit) (cap : Int) (m : Machine) (stop : Stop) : Prop :=
  Stops block cap m stop ∨ ∃ o o', Opens block cap m o ∧ block o = .error stop o'

/-! ## Stops of statements without blocks -/

theorem stops_of_expect {kind : Kind} {text? : Option String} {e e' : Machine}
    (h : read (.expect kind text?) e = .error stop e') : Stops block cap m stop := by
  obtain ⟨c, hexpect, -⟩ := read_error_iff.mp h
  obtain ⟨-, rfl, -⟩ := Reading.expect_error_iff.mp hexpect
  exact .refusing _ (by simp [Cause.family, statementFamilies])

theorem stops_of_openBrace {e e' : Machine} (h : read .openBrace e = .error stop e') :
    Stops block cap m stop :=
  stops_of_expect (read_discard_expect_error h)

theorem stops_declaration (hkind : m.cursor.token.kind = .keyword)
    (htext : m.cursor.token.text = "var" ∨ m.cursor.token.text = "let")
    (h : declaration m = .error stop m') : Stops block cap m stop := by
  unfold declaration at h
  rw [bind_of_ok (read_advance m)] at h
  obtain hname | ⟨name, m₁, hname, h⟩ := bind_error_iff.mp h
  · exact stops_of_expect hname
  obtain ⟨c₁, hexpect, rfl⟩ := read_ok_iff.mp hname
  obtain ⟨hidentifier, rfl, rfl⟩ := Reading.expect_ok_iff.mp hexpect
  obtain hequals | ⟨_, m₂, hequals, h⟩ := bind_error_iff.mp h
  · exact stops_of_expect hequals
  obtain ⟨c₂, hexpect', rfl⟩ := read_ok_iff.mp hequals
  obtain ⟨his, -, rfl⟩ := Reading.expect_ok_iff.mp hexpect'
  obtain hvalue | ⟨value, m₃, hvalue, h⟩ := bind_error_iff.mp h
  · obtain ⟨d, hexpression, -⟩ := read_error_iff.mp hvalue
    exact .computing (.declaration hkind htext hidentifier his) hexpression
  · rw [bind_of_ok (get_apply m₃)] at h
    cases hdeclare : m₃.scopes.declare? m.cursor.next.token.text value with
    | none =>
      simp only [hdeclare] at h
      cases h
      exact .refusing _ (by simp [Cause.family, statementFamilies])
    | some scopes =>
      simp only [hdeclare] at h
      cases h

theorem stops_assignment (hkind : m.cursor.token.kind = .identifier)
    (h : assignment m = .error stop m') : Stops block cap m stop := by
  unfold assignment at h
  rw [bind_of_ok (read_current m), bind_of_ok (get_apply m)] at h
  by_cases hvisible : m.scopes.contains m.cursor.token.text = true
  case neg =>
    simp only [Bool.not_eq_true] at hvisible
    simp only [hvisible, Bool.not_false, if_true] at h
    cases h
    exact .refusing _ (by simp [Cause.family, statementFamilies])
  simp only [hvisible, Bool.not_true, Bool.false_eq_true, if_false] at h
  change (read .advance >>= fun _ => _) m = _ at h
  rw [bind_of_ok (read_advance m)] at h
  obtain hequals | ⟨_, m₁, hequals, h⟩ := bind_error_iff.mp h
  · exact stops_of_expect hequals
  obtain ⟨c₁, hexpect, rfl⟩ := read_ok_iff.mp hequals
  obtain ⟨his, -, rfl⟩ := Reading.expect_ok_iff.mp hexpect
  obtain hvalue | ⟨value, m₂, hvalue, h⟩ := bind_error_iff.mp h
  · obtain ⟨d, hexpression, -⟩ := read_error_iff.mp hvalue
    exact .computing (.assignment hkind hvisible his) hexpression
  · -- The name was seen before the expression, so there is no stop after it.
    obtain ⟨scopes, hupdate⟩ := exists_update?_of_expression hvalue hvisible
    rw [bind_of_ok (get_apply m₂)] at h
    simp only [hupdate] at h
    cases h

theorem stops_printing (hkind : m.cursor.token.kind = .keyword)
    (htext : m.cursor.token.text = "print") (h : printing m = .error stop m') :
    Stops block cap m stop := by
  unfold printing at h
  rw [bind_of_ok (read_advance m)] at h
  obtain hopens | ⟨_, m₁, hopens, h⟩ := bind_error_iff.mp h
  · exact stops_of_expect hopens
  obtain ⟨c₁, hexpect, rfl⟩ := read_ok_iff.mp hopens
  obtain ⟨his, -, rfl⟩ := Reading.expect_ok_iff.mp hexpect
  obtain hvalue | ⟨value, m₂, -, h⟩ := bind_error_iff.mp h
  · obtain ⟨d, hexpression, -⟩ := read_error_iff.mp hvalue
    exact .computing (.printing hkind htext his) hexpression
  obtain hcloses | ⟨_, m₃, -, h⟩ := bind_error_iff.mp h
  · exact stops_of_expect hcloses
  · cases h

/-! ## Stops of loops and conditionals -/

theorem stopsAnywhere_rounds (hkind : m.cursor.token.kind = .keyword)
    (htext : m.cursor.token.text = "while") (hin : InLoop block cap m bodyStart left holds e)
    (h : rounds block cap m.cursor.token m.cursor.next bodyStart left holds e =
      .error stop e') : StopsAnywhere block cap m stop := by
  induction left generalizing holds e with
  | zero =>
    cases holds with
    | false => cases h
    | true =>
      cases h
      exact .inl (.overrunning ⟨hkind, htext, bodyStart, _, hin⟩)
  | succ left ih =>
    cases holds with
    | false => cases h
    | true =>
      rw [rounds_turn] at h
      obtain hturn | ⟨holds, e₁, hturn, h⟩ := bind_error_iff.mp h
      · -- The round stops in the block, or the condition stops after it.
        obtain hround | ⟨_, e₁, hround, hcheck⟩ := bind_error_iff.mp hturn
        · obtain ⟨o', hbody, -⟩ := inFrame_error_iff.mp hround
          exact .inr ⟨_, o', .round hkind htext hin, hbody⟩
        · exact .inl (.asking (.again hkind htext hin hround) hcheck)
      · exact ih (hin.next hturn) h

theorem stopsAnywhere_loop (hkind : m.cursor.token.kind = .keyword)
    (htext : m.cursor.token.text = "while") (h : loop block cap m = .error stop m') :
    StopsAnywhere block cap m stop := by
  rw [loop_eq] at h
  obtain hhead | ⟨holds, e, hhead, h⟩ := bind_error_iff.mp h
  · unfold head at hhead
    rw [bind_of_ok (read_advance m)] at hhead
    obtain hcondition | ⟨holds, m₁, hcondition, hhead⟩ := bind_error_iff.mp hhead
    · exact .inl (.asking (.first hkind (.inl htext)) hcondition)
    obtain hopen | ⟨_, m₂, -, hhead⟩ := bind_error_iff.mp hhead
    · exact .inl (stops_of_openBrace hopen)
    · cases hhead
  have hin : InLoop block cap m e.cursor cap.toNat holds e := .first hhead rfl
  rw [bind_of_ok (get_apply e), lasting] at h
  obtain hrounds | ⟨left, e₁, hrounds, h⟩ := bind_error_iff.mp h
  · exact stopsAnywhere_rounds hkind htext hin hrounds
  · obtain ⟨d, hskip, -⟩ := read_error_iff.mp (h : read .skipBlock { e₁ with
      journal := e₁.journal.push _, cursor := e.cursor } = _)
    exact .inl (.skipping (.body hkind htext (inLoop_of_rounds hin hrounds)) hskip)

/-- A branch stops in its block, or because the block does not end at a closing brace. -/
theorem stopsAnywhere_branch {o : Machine}
    (ho : Opens block cap m { o with scopes := o.scopes.push })
    (h : branch block o = .error stop m') : StopsAnywhere block cap m stop := by
  obtain ⟨m₁, hbody, -⟩ := inFrame_error_iff.mp h
  obtain hblock | ⟨_, m₂, -, hclose⟩ := bind_error_iff.mp hbody
  · exact .inr ⟨_, m₁, ho, hblock⟩
  · exact .inl (stops_of_expect (read_discard_expect_error hclose))

/-- An alternative that stops has an `else`, and stops at the brace or after it. -/
theorem alternative_error {body : Walk Unit} (h : alternative body m = .error stop m') :
    m.cursor.token.is .keyword (some "else") = true ∧
      (read .openBrace { m with cursor := m.cursor.next } = .error stop m' ∨
        m.cursor.next.token.opensBlock = true ∧
          body { m with cursor := m.cursor.next.next } = .error stop m') := by
  cases helse : m.cursor.token.is .keyword (some "else") with
  | false =>
    rw [alternative_without helse] at h
    cases h
  | true =>
    rw [alternative_else helse] at h
    obtain hopen | ⟨_, m₁, hopen, hbody⟩ := bind_error_iff.mp h
    · exact ⟨rfl, .inl hopen⟩
    · obtain ⟨hopens, rfl⟩ := read_openBrace_ok_iff.mp hopen
      exact ⟨rfl, .inr ⟨hopens, hbody⟩⟩

theorem stopsAnywhere_conditional (hkind : m.cursor.token.kind = .keyword)
    (htext : m.cursor.token.text = "if") (h : conditional block m = .error stop m') :
    StopsAnywhere block cap m stop := by
  rw [conditional_eq] at h
  obtain htest | ⟨holds, e, htest, h⟩ := bind_error_iff.mp h
  · unfold test at htest
    rw [bind_of_ok (read_advance m)] at htest
    obtain hcondition | ⟨holds, m₁, hcondition, htest⟩ := bind_error_iff.mp htest
    · exact .inl (.asking (.first hkind (.inr htext)) hcondition)
    obtain hopen | ⟨_, m₂, -, htest⟩ := bind_error_iff.mp htest
    · exact .inl (stops_of_openBrace hopen)
    · cases htest
  cases holds with
  | true =>
    obtain hbranch | ⟨_, e₁, hbranch, h⟩ := bind_error_iff.mp h
    · exact stopsAnywhere_branch (.branch hkind htext (.consequent htest)) hbranch
    obtain ⟨helse, hopen | ⟨hopens, hskip⟩⟩ := alternative_error h
    · exact .inl (stops_of_openBrace hopen)
    · obtain ⟨d, hskip, -⟩ := read_error_iff.mp hskip
      exact .inl (.skipping (.alternative hkind htext htest hbranch helse hopens) hskip)
  | false =>
    obtain hskip | ⟨_, e₁, hskip, h⟩ := bind_error_iff.mp h
    · obtain ⟨d, hskip, -⟩ := read_error_iff.mp hskip
      exact .inl (.skipping (.consequent hkind htext htest) hskip)
    obtain ⟨helse, hopen | ⟨hopens, hbranch⟩⟩ := alternative_error h
    · exact .inl (stops_of_openBrace hopen)
    · exact stopsAnywhere_branch
        (.branch hkind htext (.alternative htest hskip helse hopens)) hbranch

/-- A statement that stops does so by itself or in a block that it runs. -/
theorem stopsAnywhere_statementWith (h : statementWith block cap m = .error stop m') :
    StopsAnywhere block cap m stop := by
  have hdispatch := dispatch block cap m
  generalize hr : statementWith block cap m = r at hdispatch
  cases hdispatch with
  | declaration hkind htext => exact .inl (stops_declaration hkind htext (hr.symm.trans h))
  | printing hkind htext => exact .inl (stops_printing hkind htext (hr.symm.trans h))
  | loop hkind htext => exact stopsAnywhere_loop hkind htext (hr.symm.trans h)
  | conditional hkind htext => exact stopsAnywhere_conditional hkind htext (hr.symm.trans h)
  | unhandled hkind htext =>
    cases hr.symm.trans h
    exact .inl (.refusing _ (by simp [Cause.family, statementFamilies]))
  | assignment hkind => exact .inl (stops_assignment hkind (hr.symm.trans h))
  | stray => cases hr.symm.trans h

/-- The families of all faults that a statement itself raises, unclosed blocks apart. -/
def ownFamilies : List Family :=
  evaluationFamilies ++ statementFamilies

/-- The faults of a statement by family, unless it finds a block unclosed. -/
theorem Stops.isOf (h : Stops block cap m stop) :
    stop.IsOf ownFamilies ∨ ∃ c d, Skips block cap m c ∧ Reading.skipBlock c = .error stop d := by
  have hevaluation : evaluationFamilies ⊆ ownFamilies := List.subset_append_left _ _
  cases h with
  | computing hc hexpression =>
    have hstop := (Reading.stopsBy_expression m.scopes _).of_error hexpression
    exact .inl (hstop.mono hevaluation)
  | asking hq hcondition =>
    obtain ⟨d, hcondition, -⟩ := read_error_iff.mp hcondition
    have hstop := (Reading.stopsBy_condition _ _).of_error hcondition
    exact .inl (hstop.mono hevaluation)
  | skipping hc hskip => exact .inr ⟨_, _, hc, hskip⟩
  | overrunning _ =>
    have hfamily : Family.loopLimit ∈ ownFamilies := by decide
    exact .inl (Stop.isOf_overrun hfamily ..)
  | refusing token hfamily => exact .inl ⟨List.mem_append_right _ hfamily, rfl⟩

/-! ## Stops that a statement passes on -/

/-- A loop stops if its current round does, in the block or in the condition after it. -/
theorem loop_of_turn (hin : InLoop block cap m bodyStart (left + 1) true e)
    (h : turn block m.cursor.next bodyStart e = .error stop e') :
    loop block cap m = .error stop e' := by
  rw [loop_of_inLoop hin, lasting, rounds_turn, bind_assoc, bind_of_error h]

/-- A statement stops if a block that it runs does. -/
theorem statementWith_of_opens {o o' : Machine} (ho : Opens block cap m o)
    (h : block o = .error stop o') : ∃ m', statementWith block cap m = .error stop m' := by
  cases ho with
  | round hkind htext hin =>
    rw [statementWith_loop hkind htext]
    have hround : inFrame (do moveTo _; block) _ = .error stop _ :=
      inFrame_error_iff.mpr ⟨o', h, rfl⟩
    exact ⟨_, loop_of_turn hin (bind_of_error hround)⟩
  | branch hkind htext hchoice =>
    rw [statementWith_conditional hkind htext, conditional_eq]
    have hbranch : ∀ {e : Machine}, block { e with scopes := e.scopes.push } = .error stop o' →
        branch block e = .error stop { o' with scopes := o'.scopes.pop } := fun hblock =>
      inFrame_error_iff.mpr ⟨o', bind_of_error hblock, rfl⟩
    cases hchoice with
    | consequent htest =>
      rw [bind_of_ok htest]
      exact ⟨_, bind_of_error (hbranch h)⟩
    | @alternative e e₁ htest hskip helse hopens =>
      rw [bind_of_ok htest]
      refine ⟨{ o' with scopes := o'.scopes.pop }, (bind_of_ok hskip).trans ?_⟩
      rw [alternative_else helse, bind_of_ok (read_openBrace_ok_iff.mpr ⟨hopens, rfl⟩)]
      exact hbranch (e := { e₁ with cursor := e₁.cursor.next.next }) h

/-- A statement stops if its condition does. -/
theorem statementWith_of_asks {q q' : Machine} (hq : Asks block cap m q)
    (h : condition q = .error stop q') : ∃ m', statementWith block cap m = .error stop m' := by
  cases hq with
  | first hkind htext =>
    rcases htext with htext | htext
    · rw [statementWith_loop hkind htext, loop_eq]
      refine ⟨q', bind_of_error ?_⟩
      rw [head, bind_of_ok (read_advance m)]
      exact bind_of_error h
    · rw [statementWith_conditional hkind htext, conditional_eq]
      refine ⟨q', bind_of_error ?_⟩
      rw [test, bind_of_ok (read_advance m)]
      exact bind_of_error h
  | again hkind htext hin hround =>
    rw [statementWith_loop hkind htext]
    exact ⟨_, loop_of_turn hin ((bind_of_ok hround).trans h)⟩

/-- A statement stops if it is a loop past its cap. -/
theorem statementWith_of_overruns (h : Overruns block cap m) :
    ∃ m', statementWith block cap m = .error (.overrun m.cursor.token.place cap) m' := by
  obtain ⟨hkind, htext, bodyStart, e, hin⟩ := h
  rw [statementWith_loop hkind htext, loop_of_inLoop hin, lasting_zero]
  exact ⟨e, rfl⟩

/-- A statement stops if its expression does. -/
theorem statementWith_of_computes {c d : Cursor} (hc : Computes m c)
    (h : Reading.expression m.scopes c = .error stop d) :
    ∃ m', statementWith block cap m = .error stop m' := by
  have hexpect : ∀ {kind : Kind} {text? : Option String} {e : Machine},
      e.cursor.token.is kind text? = true →
      read (.expect kind text?) e = .ok e.cursor.token { e with cursor := e.cursor.next } :=
    fun his => read_of_ok (Reading.expect_ok_iff.mpr ⟨his, rfl, rfl⟩)
  have hexpression : expression { m with cursor := c } = .error stop { m with cursor := d } :=
    read_of_error h
  cases hc with
  | declaration hkind htext hname hequals =>
    rw [statementWith_declaration hkind htext, declaration, bind_of_ok (read_advance m),
      bind_of_ok (hexpect hname), bind_of_ok (hexpect hequals)]
    exact ⟨_, bind_of_error hexpression⟩
  | assignment hkind hvisible hequals =>
    rw [statementWith_assignment hkind, assignment, bind_of_ok (read_current m),
      bind_of_ok (get_apply m), hvisible]
    refine ⟨{ m with cursor := d }, (bind_of_ok (read_advance m)).trans ?_⟩
    rw [bind_of_ok (hexpect hequals)]
    exact bind_of_error hexpression
  | printing hkind htext hopens =>
    rw [statementWith_printing hkind htext, printing, bind_of_ok (read_advance m),
      bind_of_ok (hexpect hopens)]
    exact ⟨_, bind_of_error hexpression⟩

/-- A statement that ends leaves fewer tokens. -/
theorem length_rest_of_statementWith {nesting : Nat} {m m' : Machine}
    (hend : m.cursor.token.kind ≠ .endOfInput)
    (h : statementWith (Walk.block cap nesting) cap m = .ok () m') :
    m'.cursor.rest.length < m.cursor.rest.length :=
  Nat.lt_of_le_of_lt (onward_next_of_statementWith h).length_le (Cursor.length_next_lt hend)

end Walk

/-! ## Spots -/

/-- There is a statement to run, in a block or outside of one. -/
def Walk.Pending (inner : Bool) (m : Machine) : Prop :=
  m.cursor.token.kind ≠ .endOfInput ∧ (inner = true → m.cursor.token.closesBlock = false)

/-- A place on the course of a run, before a statement or at the end of a row of statements. -/
structure Spot where
  /-- The row is that of a block. -/
  inner : Bool
  /-- The number of further blocks that may be open inside each other. -/
  nesting : Nat
  machine : Machine

namespace Spot

open Walk (statementWith block untilBrace untilEnd Opens Stops)

variable {cap : Int} {inner : Bool} {nesting : Nat} {m m' : Machine} {s t : Spot} {stop : Stop}

/-- There is a statement to run. -/
def Active (s : Spot) : Prop :=
  Walk.Pending s.inner s.machine

/-- One move: past a statement that ends, or into a block that a statement runs. -/
inductive Next (cap : Int) : Spot → Spot → Prop where
  | after {inner : Bool} {nesting : Nat} {m m' : Machine} (hactive : Active ⟨inner, nesting, m⟩)
      (h : statementWith (block cap nesting) cap m = .ok () m') :
      Next cap ⟨inner, nesting, m⟩ ⟨inner, nesting, m'⟩
  | into {inner : Bool} {nesting : Nat} {m o : Machine}
      (hactive : Active ⟨inner, nesting + 1, m⟩) (h : Opens (block cap (nesting + 1)) cap m o) :
      Next cap ⟨inner, nesting + 1, m⟩ ⟨true, nesting, o⟩

/-- The second spot is on the course of the run from the first. -/
def Reaches (cap : Int) : Spot → Spot → Prop :=
  Relation.ReflTransGen (Next cap)

/-- The spot raises the stop: its statement stops by itself, its block is not closed, or it goes
into one block too many. -/
inductive Raises (cap : Int) : Spot → Stop → Prop where
  | statement {s : Spot} {stop : Stop} (hactive : s.Active)
      (h : Stops (block cap s.nesting) cap s.machine stop) : Raises cap s stop
  | unclosed {nesting : Nat} {m : Machine} (hend : m.cursor.token.kind = .endOfInput) :
      Raises cap ⟨true, nesting, m⟩ (.fault (.ofPlace m.cursor.token.place .unclosedBlock))
  | tooDeep {inner : Bool} {m o : Machine} (hactive : Active ⟨inner, 0, m⟩)
      (h : Opens (block cap 0) cap m o) :
      Raises cap ⟨inner, 0, m⟩ (.fault (.ofPlace o.cursor.token.place .nestingTooDeep))

/-- The families of all faults of a run. -/
def runFamilies : List Family :=
  Walk.ownFamilies ++ [.unclosedBlock, .nestingTooDeep]

theorem Raises.isOf (h : Raises cap s stop) : stop.IsOf runFamilies := by
  have hunclosed : Family.unclosedBlock ∈ runFamilies := by decide
  cases h with
  | statement _ hstops =>
    obtain hown | ⟨c, d, -, hskip⟩ := hstops.isOf
    · exact hown.mono (List.subset_append_left _ _)
    · rw [Reading.skipBlock_error hskip]
      exact ⟨hunclosed, rfl⟩
  | unclosed => exact ⟨hunclosed, rfl⟩
  | tooDeep =>
    have hfamily : Family.nestingTooDeep ∈ runFamilies := by decide
    exact ⟨hfamily, rfl⟩

/-! ## Rows of statements -/

/-- A row of statements, but one for each of `bound` at most. -/
def row (cap : Int) (inner : Bool) (nesting : Nat) (bound : List Token) : Walk Unit :=
  if inner then untilBrace (statementWith (block cap nesting) cap) bound
  else untilEnd (statementWith (block cap nesting) cap) bound

theorem row_of_active (h : Active ⟨inner, nesting, m⟩) (b : Token) (bound : List Token) :
    row cap inner nesting (b :: bound) m =
      (statementWith (block cap nesting) cap >>= fun _ => row cap inner nesting bound) m := by
  obtain ⟨hend, hcloses⟩ := h
  cases inner with
  | true => exact Walk.untilBrace_step (hcloses rfl) hend b bound
  | false => exact Walk.untilEnd_step (by simp [Cursor.atEnd, hend]) b bound

/-- A row without a statement is at its end, which is wrong in a block without a closing brace. -/
theorem row_of_not_active (h : ¬ Active ⟨inner, nesting, m⟩) {bound : List Token}
    (hbound : m.cursor.rest.length ≤ bound.length) :
    row cap inner nesting bound m =
      if inner = true ∧ m.cursor.token.kind = .endOfInput then
        .error (.fault (.ofPlace m.cursor.token.place .unclosedBlock)) m
      else .ok () m := by
  by_cases hend : m.cursor.token.kind = .endOfInput
  · cases inner with
    | true => simpa [row, hend] using Walk.untilBrace_end hend bound
    | false => simpa [row] using Walk.untilEnd_end (by simp [Cursor.atEnd, hend]) bound
  · have hclosing : inner = true ∧ m.cursor.token.closesBlock = true := by
      cases hcloses : m.cursor.token.closesBlock with
      | false => exact absurd ⟨hend, fun _ => hcloses⟩ h
      | true =>
        cases inner with
        | false => exact absurd ⟨hend, fun hinner => absurd hinner Bool.false_ne_true⟩ h
        | true => exact ⟨rfl, rfl⟩
    obtain ⟨rfl, hcloses⟩ := hclosing
    rw [Cursor.rest_eq_cons hend] at hbound
    cases bound with
    | nil => simp at hbound
    | cons b bound => simpa [row, hend] using Walk.untilBrace_closing hcloses b bound

/-- The bound does not matter, if there is one for each token left. -/
theorem row_eq_row {bound bound' : List Token} (hbound : m.cursor.rest.length ≤ bound.length)
    (hbound' : m.cursor.rest.length ≤ bound'.length) :
    row cap inner nesting bound m = row cap inner nesting bound' m := by
  induction bound generalizing bound' m with
  | nil =>
    have hinactive : ¬ Active ⟨inner, nesting, m⟩ := by
      intro h
      rw [Cursor.rest_eq_cons h.1] at hbound
      simp at hbound
    rw [row_of_not_active hinactive hbound, row_of_not_active hinactive hbound']
  | cons b bound ih =>
    by_cases hactive : Active ⟨inner, nesting, m⟩
    · have hrest := Cursor.rest_eq_cons hactive.1
      rw [hrest] at hbound hbound'
      cases bound' with
      | nil => simp at hbound'
      | cons b' bound' =>
        rw [row_of_active hactive, row_of_active hactive]
        cases hstatement : statementWith (block cap nesting) cap m with
        | error stop m' => rw [bind_of_error hstatement, bind_of_error hstatement]
        | ok _ m' =>
          -- A statement takes a token, and so much may be taken off the bounds.
          have hlength := (Walk.onward_next_of_statementWith hstatement).length_le
          rw [bind_of_ok hstatement, bind_of_ok hstatement]
          simp only [List.length_cons] at hbound hbound'
          exact ih (by omega) (by omega)
    · rw [row_of_not_active hactive hbound, row_of_not_active hactive hbound']

/-- How the row of statements from the spot ends. -/
def outcome (cap : Int) (s : Spot) : EStateM.Result Stop Machine Unit :=
  row cap s.inner s.nesting s.machine.cursor.rest s.machine

/-- A stop of a statement is one of its row. -/
theorem outcome_of_error (hactive : Active ⟨inner, nesting, m⟩)
    (h : statementWith (block cap nesting) cap m = .error stop m') :
    outcome cap ⟨inner, nesting, m⟩ = .error stop m' := by
  show row cap inner nesting m.cursor.rest m = _
  rw [Cursor.rest_eq_cons hactive.1, row_of_active hactive, bind_of_error h]

/-- After a statement that ends, the row goes on. -/
theorem outcome_of_ok (hactive : Active ⟨inner, nesting, m⟩)
    (h : statementWith (block cap nesting) cap m = .ok () m') :
    outcome cap ⟨inner, nesting, m⟩ = outcome cap ⟨inner, nesting, m'⟩ := by
  have hlength := (Walk.onward_next_of_statementWith h).length_le
  show row cap inner nesting m.cursor.rest m = row cap inner nesting m'.cursor.rest m'
  rw [Cursor.rest_eq_cons hactive.1, row_of_active hactive, bind_of_ok h]
  exact row_eq_row hlength (Nat.le_refl _)

/-! ## Where a run stops -/

/-- If the stops of inner blocks are raised on the course of the run, so are those of a row. -/
theorem raises_of_outcome_of_blocks
    (hblocks : ∀ inner m o o', Active ⟨inner, nesting, m⟩ → Opens (block cap nesting) cap m o →
      block cap nesting o = .error stop o' →
        ∃ t, Reaches cap ⟨inner, nesting, m⟩ t ∧ Raises cap t stop)
    (h : outcome cap ⟨inner, nesting, m⟩ = .error stop m') :
    ∃ t, Reaches cap ⟨inner, nesting, m⟩ t ∧ Raises cap t stop := by
  -- The induction goes along the row, whose statements each take a token.
  induction hn : m.cursor.rest.length using Nat.strongRecOn generalizing m with
  | _ n ih =>
    subst hn
    by_cases hactive : Active ⟨inner, nesting, m⟩
    · cases hstatement : statementWith (block cap nesting) cap m with
      | error stop' m₁ =>
        rw [outcome_of_error hactive hstatement] at h
        cases h
        obtain hstops | ⟨o, o', ho, hblock⟩ := Walk.stopsAnywhere_statementWith hstatement
        · exact ⟨_, .refl, .statement hactive hstops⟩
        · exact hblocks inner m o o' hactive ho hblock
      | ok _ m₁ =>
        rw [outcome_of_ok hactive hstatement] at h
        have hlength := Walk.length_rest_of_statementWith hactive.1 hstatement
        obtain ⟨t, hreaches, hraises⟩ := ih _ hlength h rfl
        exact ⟨t, .head (.after hactive hstatement) hreaches, hraises⟩
    · rw [outcome, row_of_not_active hactive (Nat.le_refl _)] at h
      split at h
      next hend =>
        obtain ⟨rfl, hend⟩ := hend
        cases h
        exact ⟨_, .refl, .unclosed hend⟩
      next => cases h

/-- A stop of a row of statements is raised at a spot on its course. -/
theorem raises_of_outcome (h : outcome cap s = .error stop m') :
    ∃ t, Reaches cap s t ∧ Raises cap t stop := by
  obtain ⟨inner, nesting, m⟩ := s
  induction nesting generalizing inner m m' with
  | zero =>
    refine raises_of_outcome_of_blocks (fun inner m o o' hactive ho hblock => ?_) h
    cases hblock
    exact ⟨_, .refl, .tooDeep hactive ho⟩
  | succ nesting ih =>
    refine raises_of_outcome_of_blocks (fun inner m o o' hactive ho hblock => ?_) h
    obtain ⟨t, hreaches, hraises⟩ := ih true o (hblock : outcome cap ⟨true, nesting, o⟩ = _)
    exact ⟨t, .head (.into hactive ho) hreaches, hraises⟩

/-- A stop further on the course is a stop of the whole run. -/
theorem outcome_of_reaches (hreaches : Reaches cap s t) (h : ∃ m', outcome cap t = .error stop m') :
    ∃ m', outcome cap s = .error stop m' := by
  induction hreaches using Relation.ReflTransGen.head_induction_on with
  | refl => exact h
  | head hnext _ ih =>
    obtain ⟨m', hm'⟩ := ih
    cases hnext with
    | after hactive hstatement =>
      exact ⟨m', (outcome_of_ok hactive hstatement).trans hm'⟩
    | into hactive ho =>
      obtain ⟨m₁, hstatement⟩ := Walk.statementWith_of_opens ho hm'
      exact ⟨m₁, outcome_of_error hactive hstatement⟩

end Spot

/-! ## The runs of a session -/

namespace Session

variable {limits : Limits} {tokens : List Token} {source file : String} {session : Session}

/-- The spot at which a fragment given as tokens starts. -/
def start (limits : Limits) (tokens : List Token) (file : String) (session : Session) : Spot :=
  ⟨false, limits.nesting, (session.load tokens).started file⟩

/-- How a run of a fragment ends, by the outcome of its statements. -/
inductive Ends (limits : Limits) (tokens : List Token) (file : String) (session : Session) :
    EStateM.Result Abort Session (Option Fault) → Prop where
  | done {m : Machine}
      (h : (start limits tokens file session).outcome limits.iterations = .ok () m) :
      Ends limits tokens file session (.ok none { m.toSession with scopes := m.scopes.reset })
  | fault {fault : Fault} {m : Machine}
      (h : (start limits tokens file session).outcome limits.iterations =
        .error (.fault fault) m) :
      Ends limits tokens file session (.ok (some (fault.inFile file))
        { m.toSession with
          scopes := m.scopes.reset, journal := m.journal.push (.reported (fault.inFile file)) })
  | abort {abort : Abort} {m : Machine}
      (h : (start limits tokens file session).outcome limits.iterations =
        .error (.abort abort) m) :
      Ends limits tokens file session (.error abort { m.toSession with scopes := m.scopes.reset })

theorem ends_runTokens (limits : Limits) (tokens : List Token) (file : String)
    (session : Session) :
    Ends limits tokens file session (runTokens limits tokens file session) := by
  have hstatements : Walk.statements limits ((session.load tokens).started file) =
      (start limits tokens file session).outcome limits.iterations := rfl
  unfold runTokens
  cases h : Walk.statements limits ((session.load tokens).started file) with
  | ok _ m =>
    rw [Machine.execute_of_ok h]
    exact .done (hstatements.symm.trans h)
  | error stop m =>
    cases stop with
    | fault fault =>
      rw [Machine.execute_of_fault h]
      exact .fault (hstatements.symm.trans h)
    | abort abort =>
      rw [Machine.execute_of_abort h]
      exact .abort (hstatements.symm.trans h)

theorem run_of_ok (h : Token.ofSource source = .ok tokens) :
    run limits source file session = runTokens limits tokens file session := by
  simp only [run, h]

theorem run_of_error {fault : Fault} (h : Token.ofSource source = .error fault) :
    run limits source file session =
      .ok (some (fault.inFile file)) (session.report (fault.inFile file)) := by
  simp only [run, h]

end Session

end TokenWalk
