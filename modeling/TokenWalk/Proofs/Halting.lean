import TokenWalk.Proofs.Course
import TokenWalk.Proofs.WiderLimits

/-!
# Every run ends

The loops of a run carry a bound, one for each token left, and its blocks may not nest deeper than a
limit.  Neither bound is why a run ends.

* `Repeats` is a loop without a bound.  The loops over tokens, which pass over blocks and go on with
  expressions, end by themselves (`repeats_skipBlocks`, `repeats_operations`).
* `ComesTo` is a row of statements without a bound on its length or on the nesting of its blocks.
  Every row comes to exactly one outcome, and it is the outcome under any limit that is not below
  the number of tokens left (`comesTo_outcome`, `outcome_of_comesTo`).

The measure is the number of tokens left.  A loop goes back to its condition, but not behind its
keyword: whatever a statement runs in its blocks starts after its first token
(`onward_next_of_opens`), and a loop itself makes as many rounds as the cap allows at most.
-/

namespace TokenWalk

/-! ## Loops over tokens -/

/-- A loop without a bound.  Its step gives the result or what to go on with. -/
inductive Repeats {ε σ β γ : Type} (step : β → EStateM ε σ (γ ⊕ β)) :
    β → σ → EStateM.Result ε σ γ → Prop where
  | done {b : β} {c : γ} {s s' : σ} (h : step b s = .ok (.inl c) s') : Repeats step b s (.ok c s')
  | stop {b : β} {e : ε} {s s' : σ} (h : step b s = .error e s') : Repeats step b s (.error e s')
  | again {b b' : β} {s s' : σ} {r : EStateM.Result ε σ γ} (h : step b s = .ok (.inr b') s')
      (hrest : Repeats step b' s' r) : Repeats step b s r

namespace Reading

/-- One token of the blocks that are passed over, `depth` of which are open. -/
def skipping : (depth : Nat) → Reading (Unit ⊕ Nat)
  | 0 => return .inl ()
  | depth + 1 => do
      let token ← current
      if token.kind == .endOfInput then fail token .unclosedBlock
      else
        let _ ← advance
        return .inr (if token.opensBlock then depth + 2
          else if token.closesBlock then depth else depth + 1)

/-- Passing over blocks ends by itself. -/
theorem repeats_skipBlocks {bound : List Token} {depth : Nat} {c : Cursor}
    (hbound : c.rest.length ≤ bound.length) :
    Repeats skipping depth c (skipBlocks bound depth c) := by
  have hend : ∀ {bound : List Token} {depth : Nat} {c : Cursor}, c.token.kind = .endOfInput →
      Repeats skipping (depth + 1) c (skipBlocks bound (depth + 1) c) := by
    intro bound depth c hend
    rw [skipBlocks_end hend]
    refine .stop ?_
    rw [skipping, bind_of_ok (current_apply c), hend]
    rfl
  induction bound generalizing depth c with
  | nil =>
    cases depth with
    | zero => exact .done rfl
    | succ depth =>
      exact hend (Cursor.kind_of_length_le_zero hbound)
  | cons b bound ih =>
    cases depth with
    | zero => exact .done rfl
    | succ depth =>
      by_cases hkind : c.token.kind = .endOfInput
      · exact hend hkind
      · rw [skipBlocks_step hkind]
        refine .again ?_ (ih (Cursor.length_next_le hkind hbound))
        rw [skipping, bind_of_ok (current_apply c), beq_eq_false_iff_ne.mpr hkind]
        rfl

/-- One operator of an expression whose terms so far have the value `left`. -/
def joining (scopes : Scopes) (left : Value) : Reading (Value ⊕ Value) := do
  let token ← current
  if joins token then
    let _ ← advance
    let n ← operation scopes left token
    return .inr (.int n)
  else return .inl left

/-- Expressions end by themselves. -/
theorem repeats_operations (scopes : Scopes) {bound : List Token} {left : Value} {c : Cursor}
    (hbound : c.rest.length ≤ bound.length) :
    Repeats (joining scopes) left c (operations scopes bound left c) := by
  have hend : ∀ {bound : List Token} {left : Value} {c : Cursor}, joins c.token = false →
      Repeats (joining scopes) left c (operations scopes bound left c) := by
    intro bound left c hjoins
    rw [operations_of_not_joins scopes bound left hjoins]
    refine .done ?_
    rw [joining, bind_of_ok (current_apply c), hjoins]
    rfl
  induction bound generalizing left c with
  | nil =>
    have hkind := Cursor.kind_of_length_le_zero hbound
    exact hend (by simp [joins, hkind])
  | cons b bound ih =>
    cases hjoins : joins c.token with
    | false => exact hend hjoins
    | true =>
      have hstep : joining scopes left c =
          (operation scopes left c.token >>= fun n => pure (.inr (.int n))) c.next := by
        rw [joining, bind_of_ok (current_apply c), hjoins]
        rfl
      rw [operations_of_joins scopes b bound left hjoins]
      cases hoperation : operation scopes left c.token c.next with
      | error e d =>
        rw [bind_of_error hoperation]
        exact .stop (hstep.trans (bind_of_error hoperation))
      | ok n d =>
        rw [bind_of_ok hoperation]
        refine .again (hstep.trans (bind_of_ok hoperation)) (ih ?_)
        have honward := (forward_operation scopes left c.token c.next).of_ok hoperation
        have hlength := Cursor.length_rest_next (rest_ne_nil_of_joins hjoins)
        have hle := honward.length_le
        simp only [List.length_cons] at hbound
        omega

end Reading

/-! ## Where blocks open -/

namespace Walk

variable {block block' : Walk Unit} {cap : Int} {m o : Machine}

theorem takes_head : Takes head := by
  refine takes_advance_bind fun _ => forward_condition.bind fun holds => ?_
  exact (forward_read Reading.forward_openBrace).bind fun _ => forward_pure holds

theorem takes_test : Takes test := by
  refine takes_advance_bind fun keyword => forward_condition.bind fun holds => ?_
  refine (forward_read Reading.forward_openBrace).bind fun _ => ?_
  exact (forward_note _).bind fun _ => forward_pure holds

theorem onward_next_of_inLoop {bodyStart : Cursor} {left : Nat} {holds : Bool} {e : Machine}
    (h : InLoop block cap m bodyStart left holds e) : m.cursor.next.Onward bodyStart := by
  induction h with
  | first hhead hstart =>
    subst hstart
    exact (takes_head m).of_ok hhead
  | next _ _ ih => exact ih

/-- The blocks of a statement are after its first token. -/
theorem onward_next_of_opens (h : Opens block cap m o) : m.cursor.next.Onward o.cursor := by
  cases h with
  | round hkind htext hin => exact onward_next_of_inLoop hin
  | branch hkind htext henters =>
    cases henters with
    | @consequent e htest =>
      have htested : m.cursor.next.Onward e.cursor := (takes_test m).of_ok htest
      exact htested
    | @alternative e e₁ htest hskip helse hopens =>
      have htested : m.cursor.next.Onward e.cursor := (takes_test m).of_ok htest
      have hskipped : e.cursor.Onward e₁.cursor :=
        (forward_read Reading.forward_skipBlock e.cursor e (.refl _)).of_ok hskip
      have hopened : e₁.cursor.Onward e₁.cursor.next.next :=
        e₁.cursor.onward_next.trans e₁.cursor.next.onward_next
      exact htested.trans (hskipped.trans hopened)

/-! ## Statements by their blocks -/

theorem turn_congr (conditionStart : Cursor) {bodyStart : Cursor} {e : Machine}
    (h : block { e with scopes := e.scopes.push, cursor := bodyStart } =
      block' { e with scopes := e.scopes.push, cursor := bodyStart }) :
    turn block conditionStart bodyStart e = turn block' conditionStart bodyStart e := by
  refine bind_congr_left ?_ _
  unfold inFrame
  have hmove : ∀ body : Walk Unit,
      (moveTo bodyStart >>= fun _ => body) { e with scopes := e.scopes.push } =
        body { e with scopes := e.scopes.push, cursor := bodyStart } := fun _ => rfl
  rw [hmove, hmove, h]

theorem lasting_congr (hkind : m.cursor.token.kind = .keyword)
    (htext : m.cursor.token.text = "while") (h : ∀ o, Opens block cap m o → block o = block' o)
    {bodyStart : Cursor} {left : Nat} {holds : Bool} {e : Machine}
    (hin : InLoop block cap m bodyStart left holds e) :
    lasting block cap m bodyStart left holds e = lasting block' cap m bodyStart left holds e := by
  induction left generalizing holds e with
  | zero =>
    cases holds with
    | false => rw [lasting_false, lasting_false]
    | true => rw [lasting_zero, lasting_zero]
  | succ left ih =>
    cases holds with
    | false => rw [lasting_false, lasting_false]
    | true =>
      rw [lasting_succ, lasting_succ]
      have hturn := turn_congr m.cursor.next (h _ (.round hkind htext hin))
      cases hr : turn block m.cursor.next bodyStart e with
      | error stop e' => rw [bind_of_error hr, bind_of_error (hturn.symm.trans hr)]
      | ok holds' e' =>
        rw [bind_of_ok hr, bind_of_ok (hturn.symm.trans hr)]
        exact ih (hin.next hr)

theorem branch_congr {e : Machine}
    (h : block { e with scopes := e.scopes.push } = block' { e with scopes := e.scopes.push }) :
    branch block e = branch block' e := by
  unfold branch inFrame
  rw [bind_congr_left h]

theorem conditional_congr (hkind : m.cursor.token.kind = .keyword)
    (htext : m.cursor.token.text = "if") (h : ∀ o, Opens block cap m o → block o = block' o) :
    conditional block m = conditional block' m := by
  rw [conditional_eq, conditional_eq]
  cases htest : test m with
  | error stop e => rw [bind_of_error htest, bind_of_error htest]
  | ok holds e =>
    rw [bind_of_ok htest, bind_of_ok htest]
    cases holds with
    | true =>
      have hbranch := branch_congr (h _ (.branch hkind htext (.consequent htest)))
      exact bind_congr_left hbranch _
    | false =>
      cases hskip : read .skipBlock e with
      | error stop e₁ => exact (bind_of_error hskip).trans (bind_of_error hskip).symm
      | ok _ e₁ =>
        refine (bind_of_ok hskip).trans (Eq.trans ?_ (bind_of_ok hskip).symm)
        cases helse : e₁.cursor.token.is .keyword (some "else") with
        | false => rw [alternative_without helse, alternative_without helse]
        | true =>
          rw [alternative_else helse, alternative_else helse]
          cases hopen : read .openBrace { e₁ with cursor := e₁.cursor.next } with
          | error stop e₂ => rw [bind_of_error hopen, bind_of_error hopen]
          | ok _ e₂ =>
            rw [bind_of_ok hopen, bind_of_ok hopen]
            obtain ⟨hopens, rfl⟩ := read_openBrace_ok_iff.mp hopen
            exact branch_congr (h _ (.branch hkind htext (.alternative htest hskip helse hopens)))

/-- A statement is told by what its block does where the statement runs it. -/
theorem statementWith_congr (h : ∀ o, Opens block cap m o → block o = block' o) :
    statementWith block cap m = statementWith block' cap m := by
  have hdispatch := dispatch block cap m
  generalize statementWith block cap m = r at hdispatch
  cases hdispatch with
  | declaration hkind htext => rw [statementWith_declaration hkind htext]
  | printing hkind htext => rw [statementWith_printing hkind htext]
  | loop hkind htext =>
    rw [statementWith_loop hkind htext, loop_eq, loop_eq]
    cases hhead : head m with
    | error stop e => rw [bind_of_error hhead, bind_of_error hhead]
    | ok holds e =>
      rw [bind_of_ok hhead, bind_of_ok hhead]
      exact lasting_congr hkind htext h (.first hhead rfl)
  | conditional hkind htext =>
    rw [statementWith_conditional hkind htext]
    exact conditional_congr hkind htext h
  | unhandled hkind htext => rw [statementWith_unhandled hkind htext]
  | assignment hkind => rw [statementWith_assignment hkind]
  | stray hkeyword hidentifier => rw [statementWith_stray hkeyword hidentifier]

/-! ## Rows of statements -/

/-- A statement runs its blocks with fewer tokens left. -/
theorem length_rest_of_opens {inner : Bool} (hpending : Pending inner m)
    (h : Opens block cap m o) : o.cursor.rest.length < m.cursor.rest.length :=
  Nat.lt_of_le_of_lt (onward_next_of_opens h).length_le (Cursor.length_next_lt hpending.1)

/-- What the row of statements from the machine comes to, however long it is and however deep its
blocks nest.  A statement is run with any block that does, wherever the statement runs it, what the
row of statements there comes to. -/
inductive ComesTo (cap : Int) :
    (inner : Bool) → Machine → EStateM.Result Stop Machine Unit → Prop where
  | done {inner : Bool} {m : Machine} (hdone : ¬ Pending inner m)
      (hclosed : inner = true → m.cursor.token.kind ≠ .endOfInput) : ComesTo cap inner m (.ok () m)
  | unclosed {m : Machine} (hend : m.cursor.token.kind = .endOfInput) :
      ComesTo cap true m (.error (.fault (.ofPlace m.cursor.token.place .unclosedBlock)) m)
  | stopped {inner : Bool} {m m' : Machine} {stop : Stop} {block : Walk Unit}
      (hpending : Pending inner m)
      (hblocks : ∀ o, Opens block cap m o → ComesTo cap true o (block o))
      (h : statementWith block cap m = .error stop m') : ComesTo cap inner m (.error stop m')
  | further {inner : Bool} {m m' : Machine} {r : EStateM.Result Stop Machine Unit}
      {block : Walk Unit} (hpending : Pending inner m)
      (hblocks : ∀ o, Opens block cap m o → ComesTo cap true o (block o))
      (h : statementWith block cap m = .ok () m') (hrest : ComesTo cap inner m' r) :
      ComesTo cap inner m r

end Walk

namespace Spot

open Walk (ComesTo Opens Pending statementWith block)

variable {cap : Int} {inner : Bool} {nesting : Nat} {m o : Machine}
  {r : EStateM.Result Stop Machine Unit}

/-- A row comes to its outcome, if there are as many levels of nesting as tokens left. -/
theorem comesTo_outcome (h : m.cursor.rest.length ≤ nesting) :
    ComesTo cap inner m (outcome cap ⟨inner, nesting, m⟩) := by
  induction hn : m.cursor.rest.length using Nat.strongRecOn generalizing inner nesting m with
  | _ n ih =>
    subst hn
    by_cases hactive : Active ⟨inner, nesting, m⟩
    · have hblocks : ∀ o, Opens (block cap nesting) cap m o →
          ComesTo cap true o (block cap nesting o) := by
        intro o ho
        have hlength : o.cursor.rest.length < m.cursor.rest.length :=
          Walk.length_rest_of_opens hactive ho
        obtain ⟨k, rfl⟩ : ∃ k, nesting = k + 1 := ⟨nesting - 1, by omega⟩
        exact ih _ hlength (by omega) rfl
      cases hstatement : statementWith (block cap nesting) cap m with
      | error stop m' =>
        rw [outcome_of_error hactive hstatement]
        exact .stopped hactive hblocks hstatement
      | ok _ m' =>
        have hlength : m'.cursor.rest.length < m.cursor.rest.length :=
          Walk.length_rest_of_statementWith hactive.1 hstatement
        rw [outcome_of_ok hactive hstatement]
        exact .further hactive hblocks hstatement (ih _ hlength (by omega) rfl)
    · rw [outcome, row_of_not_active hactive (Nat.le_refl _)]
      split
      next hend =>
        obtain ⟨rfl, hend⟩ := hend
        exact .unclosed hend
      next hclosed => exact .done hactive fun hinner hend => hclosed ⟨hinner, hend⟩

/-- What a row comes to is its outcome. -/
theorem outcome_of_comesTo (h : ComesTo cap inner m r) (hnesting : m.cursor.rest.length ≤ nesting) :
    outcome cap ⟨inner, nesting, m⟩ = r := by
  have hagree : ∀ {inner : Bool} {m : Machine} {w : Walk Unit} {nesting : Nat},
      Pending inner m →
      (∀ o, Opens w cap m o → ∀ {nesting : Nat}, o.cursor.rest.length ≤ nesting →
        outcome cap ⟨true, nesting, o⟩ = w o) →
      m.cursor.rest.length ≤ nesting →
      statementWith w cap m = statementWith (block cap nesting) cap m := by
    intro inner m w nesting hpending hblocks hnesting
    refine Walk.statementWith_congr fun o ho => ?_
    have hlength := Walk.length_rest_of_opens hpending ho
    obtain ⟨k, rfl⟩ : ∃ k, nesting = k + 1 := ⟨nesting - 1, by omega⟩
    exact (hblocks o ho (by omega)).symm
  induction h generalizing nesting with
  | @done inner m hdone hclosed =>
    rw [outcome, row_of_not_active hdone (Nat.le_refl _), if_neg]
    exact fun hend => hclosed hend.1 hend.2
  | @unclosed m hend =>
    have hinactive : ¬ Active ⟨true, nesting, m⟩ := fun hactive => hactive.1 hend
    rw [outcome, row_of_not_active hinactive (Nat.le_refl _), if_pos ⟨rfl, hend⟩]
  | stopped hpending _ h ih =>
    exact outcome_of_error hpending ((hagree hpending ih hnesting).symm.trans h)
  | further hpending _ h _ ih ihrest =>
    have hstatement := (hagree hpending ih hnesting).symm.trans h
    have hlength := Walk.length_rest_of_statementWith hpending.1 hstatement
    rw [outcome_of_ok hpending hstatement]
    exact ihrest (by omega)

/-! ## Progress -/

/-- The statement under the cursor runs the statement at the spot, in one of its blocks or deeper
inside. -/
def Runs (cap : Int) (nesting : Nat) (m : Machine) (t : Spot) : Prop :=
  t.Active ∧ ∃ inside o, nesting = inside + 1 ∧ Opens (block cap nesting) cap m o ∧
    Reaches cap ⟨true, inside, o⟩ t

/-- A run does not go back to before a spot on its course. -/
theorem onward_of_reaches {s t : Spot} (h : Reaches cap s t) :
    s.machine.cursor.Onward t.machine.cursor := by
  induction h with
  | refl => exact .refl _
  | tail _ hnext ih =>
    cases hnext with
    | after _ hstatement =>
      exact ih.trans ((Cursor.onward_next _).trans (Walk.onward_next_of_statementWith hstatement))
    | into _ ho => exact ih.trans ((Cursor.onward_next _).trans (Walk.onward_next_of_opens ho))

theorem Runs.onward_next {t : Spot} (h : Runs cap nesting m t) :
    m.cursor.next.Onward t.machine.cursor := by
  obtain ⟨-, inside, o, -, ho, hreaches⟩ := h
  exact (Walk.onward_next_of_opens ho).trans (onward_of_reaches hreaches)

end Spot

theorem Cursor.Onward.position_le {c d : Cursor} (h : c.Onward d) : c.position ≤ d.position := by
  unfold position
  rw [h.tokens_eq]
  exact Nat.sub_le_sub_left h.length_le _

/-- Whatever is past the token under a cursor is at a higher position. -/
theorem Cursor.position_lt_of_onward_next {c d : Cursor} (h : c.next.Onward d)
    (hc : c.position < c.tokens.length) : c.position < d.position := by
  have hsum := c.position_add_length_rest
  have hsum' := c.next.position_add_length_rest
  have hnext := length_rest_next (List.length_pos_iff.mp (by omega) : c.rest ≠ [])
  rw [tokens_next] at hsum'
  have hle := h.position_le
  omega

/-! ## Executions -/

namespace Machine

/-- An execution is what its statements come to, or it is stopped at the limit of nesting. -/
theorem execute_of_comesTo {cap : Int} {file : String} {m : Machine}
    {r : EStateM.Result Stop Machine Unit} (h : Walk.ComesTo cap false (m.started file) r)
    (nesting : Nat) :
    execute ⟨cap, nesting⟩ file m = conclude file r ∨
      nesting < m.cursor.rest.length ∧ ∃ fault n,
        execute ⟨cap, nesting⟩ file m = .ok (some fault) n ∧
        fault.cause.family = .nestingTooDeep := by
  have hwide : ∀ {nesting : Nat}, m.cursor.rest.length ≤ nesting →
      execute ⟨cap, nesting⟩ file m = conclude file r := by
    intro nesting hnesting
    rw [execute_eq]
    exact congrArg (conclude file) (Spot.outcome_of_comesTo h hnesting)
  by_cases hnesting : m.cursor.rest.length ≤ nesting
  · exact .inl (hwide hnesting)
  · have hle : nesting ≤ m.cursor.rest.length := by omega
    rcases execute_of_nesting_le hle cap file m with heq | htooDeep
    · exact .inl (heq.symm.trans (hwide (Nat.le_refl _)))
    · exact .inr ⟨by omega, htooDeep⟩

/-- Every execution ends and makes progress.  Its statements come to exactly one outcome with no
bound on their number or their nesting, and the execution is what follows from it, unless it is
stopped at the limit of nesting, which is then below the number of tokens left.  A statement that
ends is past the position where it started, and so is every statement it runs in its blocks.  The
loops over tokens end by themselves. -/
theorem execute_halts (cap : Int) (file : String) (m : Machine) :
    (∃ r, Walk.ComesTo cap false (m.started file) r ∧
      (∀ r', Walk.ComesTo cap false (m.started file) r' → r' = r) ∧
      ∀ nesting, execute ⟨cap, nesting⟩ file m = conclude file r ∨
        nesting < m.cursor.rest.length ∧ ∃ fault n,
          execute ⟨cap, nesting⟩ file m = .ok (some fault) n ∧
          fault.cause.family = .nestingTooDeep) ∧
    (∀ nesting, m.cursor.position < m.cursor.tokens.length →
      (∀ m', Walk.statement ⟨cap, nesting⟩ m = .ok () m' →
        m'.cursor.tokens = m.cursor.tokens ∧ m.cursor.position < m'.cursor.position ∧
          m'.cursor.position ≤ m.cursor.tokens.length) ∧
      ∀ t, Spot.Runs cap nesting m t → t.machine.cursor.tokens = m.cursor.tokens ∧
        m.cursor.position < t.machine.cursor.position) ∧
    (∀ c, Repeats Reading.skipping 1 c (Reading.skipBlock c)) ∧
    ∀ scopes left c,
      Repeats (Reading.joining scopes) left c (Reading.operations scopes c.rest left c) := by
  refine ⟨?_, ?_, fun c => Reading.repeats_skipBlocks (Nat.le_refl _),
    fun scopes left c => Reading.repeats_operations scopes (Nat.le_refl _)⟩
  · have hcomes : Walk.ComesTo cap false (m.started file) _ :=
      Spot.comesTo_outcome (Nat.le_refl _)
    refine ⟨_, hcomes, fun r' h => ?_, execute_of_comesTo hcomes⟩
    exact (Spot.outcome_of_comesTo h (Nat.le_refl _)).symm
  · intro nesting hposition
    constructor
    · intro m' hstatement
      have honward := Walk.onward_next_of_statementWith hstatement
      have hsum := m'.cursor.position_add_length_rest
      have htokens : m'.cursor.tokens = m.cursor.tokens := honward.tokens_eq
      refine ⟨htokens, Cursor.position_lt_of_onward_next honward hposition, ?_⟩
      rw [← htokens]
      omega
    · intro t hruns
      exact ⟨hruns.onward_next.tokens_eq,
        Cursor.position_lt_of_onward_next hruns.onward_next hposition⟩

/-- The tokens of `if "a" == "a" { print("b") }`. -/
def agreeing : List Token :=
  [⟨.keyword, "if", ⟨1, 1⟩⟩, ⟨.string, "a", ⟨1, 4⟩⟩, ⟨.operator, "==", ⟨1, 8⟩⟩,
    ⟨.string, "a", ⟨1, 11⟩⟩, ⟨.punctuation, "\x7b", ⟨1, 15⟩⟩, ⟨.keyword, "print", ⟨1, 17⟩⟩,
    ⟨.punctuation, "(", ⟨1, 22⟩⟩, ⟨.string, "b", ⟨1, 23⟩⟩, ⟨.punctuation, ")", ⟨1, 26⟩⟩,
    ⟨.punctuation, "\x7d", ⟨1, 28⟩⟩, .endAt ⟨1, 29⟩]

/-- The conditional ends at the end of input, and the statement in its block starts after it. -/
theorem execute_halts_agreeing :
    (Session.load {} agreeing).cursor.position < (Session.load {} agreeing).cursor.tokens.length ∧
      ∃ m' t, Walk.statement ⟨1, 1⟩ (Session.load {} agreeing) = .ok () m' ∧
        m'.cursor.position ≤ agreeing.length ∧ 0 < m'.cursor.position ∧
        Spot.Runs 1 1 (Session.load {} agreeing) t ∧ 0 < t.machine.cursor.position := by
  have hposition : (Session.load {} agreeing).cursor.position <
      (Session.load {} agreeing).cursor.tokens.length := by decide
  obtain ⟨-, hprogress, -⟩ := execute_halts 1 "f" (Session.load {} agreeing)
  obtain ⟨hends, hinside⟩ := hprogress 1 hposition
  have hstatement : Walk.statement ⟨1, 1⟩ (Session.load {} agreeing) = .ok () _ := rfl
  obtain ⟨-, hafter, hwithin⟩ := hends _ hstatement
  have htest : Walk.test (Session.load {} agreeing) = .ok true _ := rfl
  have hruns : Spot.Runs 1 1 (Session.load {} agreeing) ⟨true, 0, _⟩ :=
    ⟨⟨by decide, fun _ => by decide⟩, 0, _, rfl, .branch rfl rfl (.consequent htest), .refl⟩
  exact ⟨hposition, _, _, hstatement, hwithin, hafter, hruns, (hinside _ hruns).2⟩

end Machine

end TokenWalk
