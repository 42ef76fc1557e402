import TokenWalk.Proofs.Pairing

/-!
# Two runs in lockstep

Walks are run on two machines at once, over two lists of tokens that go side by side in the sense of
a `Pairing`.  Everything a walk does keeps the two machines paired (`Walks`), up to statements
(`walked_statementWith`), blocks (`walks_block`) and whole rows of statements (`walked_untilEnd`).
What a host sees of two executions is then the same but for their faults (`Machines.execute`).
-/

namespace TokenWalk

variable {α β γ δ : Type}

namespace Pairing

variable {p : Pairing} {t t' : Token} {c c' : Cursor}

/-! ## Walks -/

/-- The machines stand side by side, with the same bindings and the same values printed. -/
structure Machines (p : Pairing) (m m' : Machine) : Prop where
  cursors : p.Cursors m.cursor m'.cursor
  scopes : m.scopes = m'.scopes
  printed : m.printed = m'.printed

/-- Outcomes of walks that go side by side. -/
def Walked (p : Pairing) (R : α → β → Prop) :
    EStateM.Result Stop Machine α → EStateM.Result Stop Machine β → Prop :=
  Answers p.lenient (fun a n b n' => R a b ∧ p.Machines n n')
    (fun e n f n' => p.stop e f ∧ p.Machines n n')

/-- Walks that go side by side from machines side by side. -/
def Walks (p : Pairing) (R : α → β → Prop) (x : Walk α) (y : Walk β) : Prop :=
  ∀ ⦃m m' : Machine⦄, p.Machines m m' → p.Walked R (x m) (y m')

variable {m m' : Machine}

theorem Walks.bind {R : α → β → Prop} {S : γ → δ → Prop} {x : Walk α} {y : Walk β}
    {f : α → Walk γ} {g : β → Walk δ} (hxy : p.Walks R x y)
    (hfg : ∀ a b, R a b → p.Walks S (f a) (g b)) : p.Walks S (x >>= f) (y >>= g) := by
  intro m m' hm
  refine Answers.bind (hxy hm) ?_
  intro a n b n' hn
  exact hfg a b hn.1 hn.2

theorem walks_pure {R : α → β → Prop} {a : α} {b : β} (h : R a b) :
    p.Walks R (pure a) (pure b) :=
  fun _ _ hm => ⟨h, hm⟩

/-- Going on with the two machines as they are. -/
theorem walks_get_bind {S : γ → δ → Prop} {f : Machine → Walk γ} {g : Machine → Walk δ}
    (hfg : ∀ m m', p.Machines m m' → p.Walks S (f m) (g m')) :
    p.Walks S (get >>= f) (get >>= g) :=
  fun m m' hm => hfg m m' hm hm

theorem walked_error {R : α → β → Prop} {e f : Stop} (h : p.stop e f) (hm : p.Machines m m') :
    p.Walked R (.error e m) (.error f m') :=
  Or.inr ⟨h, hm⟩

theorem walks_read {R : α → β → Prop} {x : Reading α} {y : Reading β} (h : p.Readings R x y) :
    p.Walks R (.read x) (.read y) := by
  intro m m' hm
  refine Walk.read_answers (h hm.cursors) ?_ ?_
  · exact fun _ _ _ _ hv => ⟨hv.1, hv.2, hm.scopes, hm.printed⟩
  · exact fun _ _ _ _ hf => ⟨hf.1, hf.2, hm.scopes, hm.printed⟩

theorem walks_modify {f g : Machine → Machine}
    (h : ∀ m m', p.Machines m m' → p.Machines (f m) (g m')) :
    p.Walks Eq (modify f) (modify g) :=
  fun m m' hm => ⟨rfl, h m m' hm⟩

theorem walks_note (entry entry' : Entry) : p.Walks Eq (.note entry) (.note entry') :=
  walks_modify fun _ _ hm => ⟨hm.cursors, hm.scopes, hm.printed⟩

theorem walks_emit (value : Value) : p.Walks Eq (.emit value) (.emit value) :=
  walks_modify fun _ _ hm => ⟨hm.cursors, hm.scopes, congrArg (·.push value) hm.printed⟩

theorem walks_moveTo (hc : p.Cursors c c') : p.Walks Eq (.moveTo c) (.moveTo c') :=
  walks_modify fun _ _ hm => ⟨hc, hm.scopes, hm.printed⟩

theorem walks_expression : p.Walks Eq .expression .expression := by
  refine walks_get_bind ?_
  intro m m' hm
  rw [hm.scopes]
  exact walks_read (readings_expression _)

theorem walks_condition : p.Walks Eq .condition .condition := by
  refine walks_get_bind ?_
  intro m m' hm
  rw [hm.scopes]
  exact walks_read (readings_condition _)

theorem walks_throw {e e' : Stop} (h : p.stop e e') : p.Walks Eq (throw e : Walk α) (throw e') :=
  fun _ _ hm => walked_error h hm

theorem walks_fail (h : p.token t t') (cause : Cause) :
    p.Walks Eq (.read (.fail t cause) : Walk α) (.read (.fail t' cause)) :=
  walks_throw (stop_fail h cause)

theorem Walks.inFrame {body body' : Walk Unit} (h : p.Walks Eq body body') :
    p.Walks Eq (.inFrame body) (.inFrame body') := by
  intro m m' hm
  have hpushed : p.Machines { m with scopes := m.scopes.push }
      { m' with scopes := m'.scopes.push } :=
    ⟨hm.cursors, congrArg Scopes.push hm.scopes, hm.printed⟩
  have hpopped : ∀ {n n' : Machine}, p.Machines n n' →
      p.Machines { n with scopes := n.scopes.pop } { n' with scopes := n'.scopes.pop } := by
    intro n n' hn
    exact ⟨hn.cursors, congrArg Scopes.pop hn.scopes, hn.printed⟩
  refine Walk.inFrame_answers (h hpushed) ?_ ?_
  · exact fun _ _ _ _ hv => ⟨hv.1, hpopped hv.2⟩
  · exact fun _ _ _ _ hf => ⟨hf.1, hpopped hf.2⟩

/-! ## Statements

A statement starts at tokens that stand for each other: at the tails the first run starts none. -/

/-- The machines stand side by side, at tokens that stand for each other. -/
structure Starts (p : Pairing) (m m' : Machine) : Prop where
  machines : p.Machines m m'
  token : p.token m.cursor.token m'.cursor.token
  next : p.Cursors m.cursor.next m'.cursor.next

/-- A token is taken on both sides. -/
theorem Starts.advance_bind {S : γ → δ → Prop} {f : Token → Walk γ} {g : Token → Walk δ}
    (h : p.Starts m m')
    (hfg : ∀ t t', p.token t t' → p.Walks S (f t) (g t')) :
    p.Walked S ((Walk.read .advance >>= f) m) ((Walk.read .advance >>= g) m') := by
  rw [bind_of_ok (Walk.read_advance m), bind_of_ok (Walk.read_advance m')]
  exact hfg _ _ h.token ⟨h.next, h.machines.scopes, h.machines.printed⟩

/-- Names that are read have the same text. -/
theorem walks_name :
    p.Walks (fun t t' => p.token t t' ∧ t.text = t'.text) (.read (.expect .identifier none))
      (.read (.expect .identifier none)) := by
  have hopening : ∀ t : Token, t.is .identifier none = true → t.opensBlock = true → p.Whole := by
    intro t his hopens
    simp only [Token.is, Bool.and_eq_true, beq_iff_eq] at his
    simp [Token.opensBlock, Token.is, his.1] at hopens
  refine walks_read ?_
  intro c c' hc
  have hread := readings_expect (by decide) (by decide) (by decide) hopening hc
  refine Answers.mono hread ?_ ?_
  · intro t d t' d' h
    obtain ⟨⟨htoken, his⟩, hcursors⟩ := h
    have hkind : t.kind = .identifier := by
      simp only [Token.is, Bool.and_eq_true, beq_iff_eq] at his
      exact his.1
    exact ⟨⟨htoken, text_eq_of_kind htoken (by simp [hkind])⟩, hcursors⟩
  · intro e d f d' h
    exact h

theorem walks_expect {kind : Kind} {text : String} (hkind : kind ≠ .endOfInput)
    (hvar : text ≠ "var") (hlet : text ≠ "let") (hopening : text ≠ "\x7b") :
    p.Walks (fun _ _ => True) (.read (.expect kind (some text)))
      (.read (.expect kind (some text))) := by
  have hother : ∀ t : Token, t.is kind (some text) = true → t.opensBlock = true → p.Whole := by
    intro t his hopens
    simp only [Token.is, Option.all_some, Bool.and_eq_true, beq_iff_eq] at his
    simp [Token.opensBlock, Token.is, his.2, hopening] at hopens
  refine walks_read ?_
  intro c c' hc
  refine Answers.mono (readings_expect hkind (by simp [hvar]) (by simp [hlet]) hother hc) ?_ ?_
  · intro t d t' d' h
    exact ⟨trivial, h.2⟩
  · intro e d f d' h
    exact h

/-- Changed bindings, or the refusal to change them. -/
theorem walks_bindings {refusal refusal' : Walk Unit} (hrefusal : p.Walks Eq refusal refusal')
    (result : Option Scopes) (entry entry' : Scopes → Entry) :
    p.Walks Eq
      (match result with
        | none => refusal
        | some scopes => do
            modify fun m => { m with scopes }
            Walk.note (entry scopes))
      (match result with
        | none => refusal'
        | some scopes => do
            modify fun m => { m with scopes }
            Walk.note (entry' scopes)) := by
  cases result with
  | none => exact hrefusal
  | some scopes =>
    refine Walks.bind (R := Eq) ?_ fun _ _ _ => walks_note _ _
    exact walks_modify fun _ _ hm => ⟨hm.cursors, rfl, hm.printed⟩

theorem walked_declaration (h : p.Starts m m') :
    p.Walked Eq (Walk.declaration m) (Walk.declaration m') := by
  refine h.advance_bind ?_
  intro _ _ _
  refine walks_name.bind ?_
  intro name name' hname
  refine (walks_expect (by decide) (by decide) (by decide) (by decide)).bind ?_
  intro _ _ _
  refine walks_expression.bind ?_
  intro value value' hvalue
  subst hvalue
  refine walks_get_bind ?_
  intro n n' hn
  rw [← hn.scopes, ← hname.2]
  exact walks_bindings (walks_fail hname.1 _) _
    (fun scopes => .declared name.text value (scopes.depth - 1))
    (fun scopes => .declared name.text value (scopes.depth - 1))

theorem walked_assignment (h : p.Starts m m') (hkind : m.cursor.token.kind = .identifier) :
    p.Walked Eq (Walk.assignment m) (Walk.assignment m') := by
  have htext : m.cursor.token.text = m'.cursor.token.text :=
    text_eq_of_kind h.token (by simp [hkind])
  unfold Walk.assignment
  rw [bind_of_ok (Walk.read_current m), bind_of_ok (Walk.read_current m'),
    bind_of_ok (Walk.get_apply m), bind_of_ok (Walk.get_apply m'), ← htext,
    ← h.machines.scopes]
  cases m.scopes.contains m.cursor.token.text with
  | false => exact walks_fail h.token _ h.machines
  | true =>
    refine h.advance_bind ?_
    intro _ _ _
    refine (walks_expect (by decide) (by decide) (by decide) (by decide)).bind ?_
    intro _ _ _
    refine walks_expression.bind ?_
    intro value value' hvalue
    subst hvalue
    refine walks_get_bind ?_
    intro n n' hn
    rw [← hn.scopes]
    exact walks_bindings (walks_throw (stop_abort h.token _)) _
      (fun _ => .updated m.cursor.token.text value)
      (fun _ => .updated m.cursor.token.text value)

theorem walked_printing (h : p.Starts m m') :
    p.Walked Eq (Walk.printing m) (Walk.printing m') := by
  refine h.advance_bind ?_
  intro _ _ _
  refine (walks_expect (by decide) (by decide) (by decide) (by decide)).bind ?_
  intro _ _ _
  refine walks_expression.bind ?_
  intro value value' hvalue
  subst hvalue
  refine (walks_expect (by decide) (by decide) (by decide) (by decide)).bind ?_
  intro _ _ _
  exact walks_emit value

/-! ## Loops and conditionals -/

section Blocks

variable {block block' : Walk Unit}

/-- The rounds of a loop go back to cursors that stand side by side. -/
theorem walks_rounds (hblock : p.Walks Eq block block') (cap : Int) (hkeyword : p.token t t')
    {conditionStart conditionStart' bodyStart bodyStart' : Cursor}
    (hcondition : p.Cursors conditionStart conditionStart')
    (hbody : p.Cursors bodyStart bodyStart') (left : Nat) (holds : Bool) :
    p.Walks Eq (Walk.rounds block cap t conditionStart bodyStart left holds)
      (Walk.rounds block' cap t' conditionStart' bodyStart' left holds) := by
  induction left generalizing holds with
  | zero =>
    cases holds with
    | false => exact walks_pure rfl
    | true => exact walks_throw (stop_overrun hkeyword cap)
  | succ left ih =>
    cases holds with
    | false => exact walks_pure rfl
    | true =>
      have hround : p.Walks Eq (.inFrame do .moveTo bodyStart; block)
          (.inFrame do .moveTo bodyStart'; block') :=
        ((walks_moveTo hbody).bind fun _ _ _ => hblock).inFrame
      refine hround.bind ?_
      intro _ _ _
      refine (walks_moveTo hcondition).bind ?_
      intro _ _ _
      refine walks_condition.bind ?_
      intro holds holds' hholds
      subst hholds
      exact ih holds

theorem walked_loop (hwhole : p.Whole) (hblock : p.Walks Eq block block') (cap : Int)
    (h : p.Starts m m') :
    p.Walked Eq (Walk.loop block cap m) (Walk.loop block' cap m') := by
  refine h.advance_bind ?_
  intro keyword keyword' hkeyword
  refine walks_get_bind ?_
  intro n n' hn
  refine walks_condition.bind ?_
  intro holds holds' hholds
  subst hholds
  refine (walks_read (readings_openBrace hwhole)).bind ?_
  intro _ _ _
  refine walks_get_bind ?_
  intro k k' hk
  refine (walks_rounds hblock cap hkeyword hn.cursors hk.cursors cap.toNat holds).bind ?_
  intro left left' _
  refine (walks_note _ _).bind ?_
  intro _ _ _
  refine (walks_moveTo hk.cursors).bind ?_
  intro _ _ _
  exact walks_read (readings_skipBlock hwhole)

theorem walks_branch (hblock : p.Walks Eq block block') :
    p.Walks Eq (.branch block) (.branch block') :=
  (hblock.bind fun _ _ _ => walks_read readings_closeBrace).inFrame

theorem walks_alternative (hwhole : p.Whole) (hbody : p.Walks Eq block block') :
    p.Walks Eq (.alternative block) (.alternative block') := by
  intro m m' hm
  rcases hm.cursors.split with ⟨htoken, hnext⟩ | htails
  · have his : m.cursor.token.is .keyword (some "else") =
        m'.cursor.token.is .keyword (some "else") :=
      is_eq htoken .keyword (by decide) (by decide)
    cases helse : m.cursor.token.is .keyword (some "else") with
    | false =>
      rw [Walk.alternative_without helse, Walk.alternative_without (his.symm.trans helse)]
      exact ⟨rfl, hm⟩
    | true =>
      rw [Walk.alternative_else helse, Walk.alternative_else (his.symm.trans helse)]
      refine (walks_read (readings_openBrace hwhole)).bind ?_
        ⟨hnext fun _ => hwhole, hm.scopes, hm.printed⟩
      intro _ _ _
      exact hbody
  · have helse : m.cursor.token.is .keyword (some "else") = false := by
      simp [Token.is, htails.atEnd]
    have helse' : m'.cursor.token.is .keyword (some "else") = false := by
      simp [Token.is, htails.not_keyword]
    rw [Walk.alternative_without helse, Walk.alternative_without helse']
    exact ⟨rfl, hm⟩

theorem walks_settle (hwhole : p.Whole) (hblock : p.Walks Eq block block') (holds : Bool) :
    p.Walks Eq (.settle block holds) (.settle block' holds) := by
  have hskip : p.Walks Eq (.read .skipBlock) (.read .skipBlock) :=
    walks_read (readings_skipBlock hwhole)
  cases holds with
  | true =>
    refine (walks_branch hblock).bind ?_
    intro _ _ _
    exact walks_alternative hwhole hskip
  | false =>
    refine hskip.bind ?_
    intro _ _ _
    exact walks_alternative hwhole (walks_branch hblock)

theorem walked_conditional (hwhole : p.Whole) (hblock : p.Walks Eq block block')
    (h : p.Starts m m') :
    p.Walked Eq (Walk.conditional block m) (Walk.conditional block' m') := by
  have htest : p.Walked Eq (Walk.test m) (Walk.test m') := by
    refine h.advance_bind ?_
    intro keyword keyword' _
    refine walks_condition.bind ?_
    intro holds holds' hholds
    subst hholds
    refine (walks_read (readings_openBrace hwhole)).bind ?_
    intro _ _ _
    refine (walks_note _ _).bind ?_
    intro _ _ _
    exact walks_pure rfl
  rw [Walk.conditional_eq, Walk.conditional_eq]
  refine Answers.bind htest ?_
  intro holds n holds' n' hn
  obtain ⟨hholds, hn⟩ := hn
  subst hholds
  exact walks_settle hwhole hblock holds hn

/-- Statements that start at tokens that stand for each other go side by side. -/
theorem walked_statementWith (hwhole : p.Whole) (hblock : p.Walks Eq block block') (cap : Int)
    (h : p.Starts m m') :
    p.Walked Eq (Walk.statementWith block cap m) (Walk.statementWith block' cap m') := by
  have hkinds := p.kind_eq h.token
  -- A keyword other than `var` and `let` has one text on both sides.
  have htexts : ¬ m.cursor.token.Declares → m.cursor.token.text = m'.cursor.token.text := by
    intro hnot
    rcases p.text_eq h.token with htext | ⟨hdeclares, -⟩
    · exact htext
    · exact absurd hdeclares hnot
  have hdispatch := Walk.dispatch block cap m
  generalize Walk.statementWith block cap m = r at hdispatch
  cases hdispatch with
  | declaration hkind htext =>
    have htext' : m'.cursor.token.text = "var" ∨ m'.cursor.token.text = "let" := by
      rcases p.text_eq h.token with heq | ⟨-, hdeclares⟩
      · rw [← heq]
        exact htext
      · exact hdeclares.2
    rw [Walk.statementWith_declaration (hkinds.symm.trans hkind) htext']
    exact walked_declaration h
  | printing hkind htext =>
    have heq := htexts (by simp [Token.Declares, htext])
    rw [Walk.statementWith_printing (hkinds.symm.trans hkind) (heq.symm.trans htext)]
    exact walked_printing h
  | loop hkind htext =>
    have heq := htexts (by simp [Token.Declares, htext])
    rw [Walk.statementWith_loop (hkinds.symm.trans hkind) (heq.symm.trans htext)]
    exact walked_loop hwhole hblock cap h
  | conditional hkind htext =>
    have heq := htexts (by simp [Token.Declares, htext])
    rw [Walk.statementWith_conditional (hkinds.symm.trans hkind) (heq.symm.trans htext)]
    exact walked_conditional hwhole hblock h
  | unhandled hkind htext =>
    have hnot : ¬ m.cursor.token.Declares := by
      intro hdeclares
      rcases hdeclares.2 with hvar | hlet
      · exact htext (by simp [Walk.handled, hvar])
      · exact htext (by simp [Walk.handled, hlet])
    have heq := htexts hnot
    rw [Walk.statementWith_unhandled (hkinds.symm.trans hkind) (heq ▸ htext), ← heq]
    exact walked_error (stop_fail h.token _) h.machines
  | assignment hkind =>
    rw [Walk.statementWith_assignment (hkinds.symm.trans hkind)]
    exact walked_assignment h hkind
  | stray hkeyword hidentifier =>
    rw [Walk.statementWith_stray (hkinds ▸ hkeyword) (hkinds ▸ hidentifier)]
    exact ⟨rfl, h.next, h.machines.scopes, h.machines.printed⟩

end Blocks

/-! ## Rows of statements -/

section Rows

variable {statement statement' : Walk Unit}

/-- The statements of a block go side by side.  The induction is on the first bound, and each bound
covers the tokens left. -/
theorem walked_untilBrace (hwhole : p.Whole)
    (hstatement : ∀ ⦃m m'⦄, p.Starts m m' → p.Walked Eq (statement m) (statement' m'))
    (htakes : Walk.Takes statement) (htakes' : Walk.Takes statement') {bound bound' : List Token}
    (hm : p.Machines m m') (hbound : m.cursor.rest.length ≤ bound.length)
    (hbound' : m'.cursor.rest.length ≤ bound'.length) :
    p.Walked Eq (Walk.untilBrace statement bound m) (Walk.untilBrace statement' bound' m') := by
  induction bound generalizing bound' m m' with
  | nil =>
    have hend := Cursor.kind_of_length_le_zero hbound
    rw [Walk.untilBrace_end hend]
    rcases hm.cursors.split with ⟨htoken, -⟩ | htails
    · rw [Walk.untilBrace_end ((p.kind_eq htoken).symm.trans hend)]
      exact walked_error (stop_fail htoken _) hm
    · exact Answers.of_lenient htails.lenient _ _ _
  | cons b bound ih =>
    rcases hm.cursors.split with ⟨htoken, hnext⟩ | htails
    · by_cases hend : m.cursor.token.kind = .endOfInput
      · rw [Walk.untilBrace_end hend, Walk.untilBrace_end ((p.kind_eq htoken).symm.trans hend)]
        exact walked_error (stop_fail htoken _) hm
      · have hend' : m'.cursor.token.kind ≠ .endOfInput := p.kind_eq htoken ▸ hend
        obtain ⟨b', bound', rfl⟩ := Cursor.exists_bound hend' hbound'
        cases hcloses : m.cursor.token.closesBlock with
        | true =>
          rw [Walk.untilBrace_closing hcloses,
            Walk.untilBrace_closing ((closesBlock_eq htoken).symm.trans hcloses)]
          exact ⟨rfl, hm⟩
        | false =>
          rw [Walk.untilBrace_step hcloses hend,
            Walk.untilBrace_step ((closesBlock_eq htoken).symm.trans hcloses) hend']
          -- A statement takes a token on both sides, so the bounds still cover what is left.
          have hstarts : p.Starts m m' := ⟨hm, htoken, hnext fun _ => hwhole⟩
          have hstep := (hstatement hstarts).and_meets (htakes m) (htakes' m')
          refine Answers.bind hstep ?_
          intro _ n _ n' hn
          obtain ⟨⟨-, hmachines⟩, honward, honward'⟩ := hn
          refine ih hmachines ?_ ?_
          · exact Nat.le_trans honward.length_le (Cursor.length_next_le hend hbound)
          · exact Nat.le_trans honward'.length_le (Cursor.length_next_le hend' hbound')
    · rw [Walk.untilBrace_end htails.atEnd]
      exact Answers.of_lenient htails.lenient _ _ _

/-- Blocks go side by side at every depth. -/
theorem walks_block (hwhole : p.Whole) (cap : Int) (nesting : Nat) :
    p.Walks Eq (.block cap nesting) (.block cap nesting) := by
  induction nesting with
  | zero =>
    intro m m' hm
    rcases hm.cursors.split with ⟨htoken, -⟩ | htails
    · exact walks_fail htoken _ hm
    · exact Answers.of_lenient htails.lenient _ _ _
  | succ nesting ih =>
    intro m m' hm
    have htakes := Walk.takes_statementWith (Walk.forward_block cap nesting) cap
    exact walked_untilBrace hwhole (fun _ _ h => walked_statementWith hwhole ih cap h) htakes htakes
      hm (Nat.le_refl _) (Nat.le_refl _)

/-- A statement under limits goes side by side with itself. -/
theorem walked_statement (hwhole : p.Whole) (limits : Limits) (h : p.Starts m m') :
    p.Walked Eq (Walk.statement limits m) (Walk.statement limits m') :=
  walked_statementWith hwhole (walks_block hwhole _ _) _ h

/-- Whole scripts go side by side, if the pairing is strict.  The induction is on the first bound,
and each bound covers the tokens left. -/
theorem walked_untilEnd (hwhole : p.Whole) (hstrict : ¬ p.lenient) (limits : Limits)
    {bound bound' : List Token}
    (hm : p.Machines m m') (hbound : m.cursor.rest.length ≤ bound.length)
    (hbound' : m'.cursor.rest.length ≤ bound'.length) :
    p.Walked Eq (Walk.untilEnd (Walk.statement limits) bound m)
      (Walk.untilEnd (Walk.statement limits) bound' m') := by
  induction bound generalizing bound' m m' with
  | nil =>
    have hnil := List.eq_nil_of_length_eq_zero (Nat.le_zero.mp hbound)
    have hend := Cursor.atEnd_of_rest_eq_nil hnil
    rcases hm.cursors.split with ⟨htoken, -⟩ | htails
    · rw [Walk.untilEnd_end hend, Walk.untilEnd_end ((atEnd_eq htoken).symm.trans hend)]
      exact ⟨rfl, hm⟩
    · exact absurd htails.lenient hstrict
  | cons b bound ih =>
    rcases hm.cursors.split with ⟨htoken, hnext⟩ | htails
    · cases hend : m.cursor.atEnd with
      | true =>
        rw [Walk.untilEnd_end hend, Walk.untilEnd_end ((atEnd_eq htoken).symm.trans hend)]
        exact ⟨rfl, hm⟩
      | false =>
        have hend' := (atEnd_eq htoken).symm.trans hend
        have hkind := beq_eq_false_iff_ne.mp hend
        have hkind' := beq_eq_false_iff_ne.mp hend'
        obtain ⟨b', bound', rfl⟩ := Cursor.exists_bound hkind' hbound'
        rw [Walk.untilEnd_step hend, Walk.untilEnd_step hend']
        have htakes := Walk.takes_statementWith
          (Walk.forward_block limits.iterations limits.nesting) limits.iterations
        have hstarts : p.Starts m m' := ⟨hm, htoken, hnext fun _ => hwhole⟩
        have hstep := (walked_statement hwhole limits hstarts).and_meets (htakes m) (htakes m')
        refine Answers.bind hstep ?_
        intro _ n _ n' hn
        obtain ⟨⟨-, hmachines⟩, honward, honward'⟩ := hn
        refine ih hmachines ?_ ?_
        · exact Nat.le_trans honward.length_le (Cursor.length_next_le hkind hbound)
        · exact Nat.le_trans honward'.length_le (Cursor.length_next_le hkind' hbound')
    · exact absurd htails.lenient hstrict

/-- If the first script ends, the second has come as far and goes on from there. -/
theorem untilEnd_eq_of_ok (hwhole : p.Whole) (limits : Limits) {bound bound' : List Token}
    {e : Machine}
    (hm : p.Machines m m') (hbound : m.cursor.rest.length ≤ bound.length)
    (hbound' : m'.cursor.rest.length ≤ bound'.length)
    (h : Walk.untilEnd (Walk.statement limits) bound m = .ok () e) :
    e.cursor.atEnd = true ∧ m.cursor.Onward e.cursor ∧ ∃ bound'' e', p.Machines e e' ∧
      m'.cursor.Onward e'.cursor ∧ e'.cursor.rest.length ≤ bound''.length ∧
      Walk.untilEnd (Walk.statement limits) bound' m' =
        Walk.untilEnd (Walk.statement limits) bound'' e' := by
  induction bound generalizing bound' m m' with
  | nil =>
    have hnil := List.eq_nil_of_length_eq_zero (Nat.le_zero.mp hbound)
    cases h
    exact ⟨Cursor.atEnd_of_rest_eq_nil hnil, .refl _, bound', m', hm, .refl _, hbound', rfl⟩
  | cons b bound ih =>
    cases hend : m.cursor.atEnd with
    | true =>
      rw [Walk.untilEnd_end hend] at h
      cases h
      exact ⟨hend, .refl _, bound', m', hm, .refl _, hbound', rfl⟩
    | false =>
      have hkind := beq_eq_false_iff_ne.mp hend
      rcases hm.cursors.split with ⟨htoken, hnext⟩ | htails
      · have hend' := (atEnd_eq htoken).symm.trans hend
        have hkind' := beq_eq_false_iff_ne.mp hend'
        obtain ⟨b', bound', rfl⟩ := Cursor.exists_bound hkind' hbound'
        rw [Walk.untilEnd_step hend] at h
        obtain ⟨_, n, hstatement, hrest⟩ := bind_ok_iff.mp h
        have hstep := walked_statement hwhole limits ⟨hm, htoken, hnext fun _ => hwhole⟩
        rw [hstatement] at hstep
        obtain ⟨_, n', hstatement', -, hmachines⟩ := Answers.ok_left hstep
        have honward := Walk.onward_next_of_statementWith hstatement
        have honward' := Walk.onward_next_of_statementWith hstatement'
        have hlength := Nat.le_trans honward.length_le (Cursor.length_next_le hkind hbound)
        have hlength' := Nat.le_trans honward'.length_le (Cursor.length_next_le hkind' hbound')
        obtain ⟨he, hne, bound'', e', hmachines', hne', hbound'', heq⟩ :=
          ih hmachines hlength hlength' hrest
        refine ⟨he, (m.cursor.onward_next.trans honward).trans hne, bound'', e', hmachines',
          (m'.cursor.onward_next.trans honward').trans hne', hbound'', ?_⟩
        rw [Walk.untilEnd_step hend', bind_of_ok hstatement']
        exact heq
      · exact absurd htails.atEnd hkind

end Rows

end Pairing

/-! ## Executions -/

/-- Stops with faults in the relation, or with the same abort. -/
def Stop.UpTo (F : Fault → Fault → Prop) : Stop → Stop → Prop
  | .fault f, .fault f' => F f f'
  | .abort a, .abort a' => a = a'
  | _, _ => False

/-- A host sees the same values printed, the same global bindings and the same result, but for
faults, which are in the relation. -/
structure Observation.UpTo (F : Fault → Fault → Prop) (o o' : Observation) : Prop where
  printed : o.printed = o'.printed
  globals : o.globals = o'.globals
  result : match o.result, o'.result with
    | .ok fault?, .ok fault?' => Option.Rel F fault? fault?'
    | .error abort, .error abort' => abort = abort'
    | _, _ => False

namespace Pairing

variable {p : Pairing} {F : Fault → Fault → Prop} {r r' : EStateM.Result Stop Machine Unit}

/-- If the statements of two scripts go side by side, so do the executions: a host sees the same of
them but for what the pairing tells apart in faults, and their cursors stay side by side. -/
theorem Walked.conclude (h : p.Walked Eq r r') (hstrict : ¬ p.lenient) (file : String)
    (hstop : ∀ {e e'}, p.stop e e' → e.UpTo F e')
    (hfile : ∀ {f f'}, F f f' → F (f.inFile file) (f'.inFile file)) :
    (observe Machine.toSession (Machine.conclude file r)).UpTo F
        (observe Machine.toSession (Machine.conclude file r')) ∧
      p.Cursors (final (Machine.conclude file r)).cursor
        (final (Machine.conclude file r')).cursor := by
  cases r with
  | ok _ n =>
    obtain ⟨_, n', rfl, -, hn⟩ := Answers.ok_left h
    have hglobals := congrArg Scopes.globals hn.scopes
    exact ⟨⟨hn.printed, hglobals, .none⟩, hn.cursors⟩
  | error e n =>
    cases r' with
    | ok _ n' => exact absurd h hstrict
    | error e' n' =>
      obtain ⟨he, hn⟩ := Or.resolve_left h hstrict
      have hrelated := hstop he
      have hglobals := congrArg Scopes.globals hn.scopes
      cases e with
      | fault f =>
        cases e' with
        | fault f' => exact ⟨⟨hn.printed, hglobals, .some (hfile hrelated)⟩, hn.cursors⟩
        | abort a' => exact hrelated.elim
      | abort a =>
        cases e' with
        | fault f' => exact hrelated.elim
        | abort a' => exact ⟨⟨hn.printed, hglobals, hrelated⟩, hn.cursors⟩

/-- Executions of two scripts from machines side by side. -/
theorem Machines.execute {m m' : Machine} (hm : p.Machines m m') (hwhole : p.Whole)
    (hstrict : ¬ p.lenient) (limits : Limits) (file : String)
    (hstop : ∀ {e e'}, p.stop e e' → e.UpTo F e')
    (hfile : ∀ {f f'}, F f f' → F (f.inFile file) (f'.inFile file)) :
    (observe Machine.toSession (Machine.execute limits file m)).UpTo F
        (observe Machine.toSession (Machine.execute limits file m')) ∧
      p.Cursors (final (Machine.execute limits file m)).cursor
        (final (Machine.execute limits file m')).cursor := by
  have hstarted : p.Machines (m.started file) (m'.started file) :=
    ⟨hm.cursors, hm.scopes, hm.printed⟩
  have hwalked : p.Walked Eq (Walk.statements limits (m.started file))
      (Walk.statements limits (m'.started file)) :=
    walked_untilEnd hwhole hstrict limits hstarted (Nat.le_refl _) (Nat.le_refl _)
  rw [Machine.execute_eq, Machine.execute_eq]
  exact hwalked.conclude hstrict file hstop hfile

end Pairing

end TokenWalk
