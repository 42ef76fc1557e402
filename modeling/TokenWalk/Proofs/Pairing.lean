import TokenWalk.Proofs.Braces

/-!
# Tokens side by side

Two lists of tokens are read at once.  A `Pairing` says what side by side means: which tokens stand
for each other, which stops do, and how the two lists end.  There are three ways.

* Both are used up together.
* They part at a block: both go on with an opening brace, and behind it they may differ.
* The first comes to its end of input where the second goes on with a token that continues nothing;
  then the pairing is lenient and asks nothing of the second reading once the first has stopped.

Cursors side by side are at tokens that stand for each other or at the tails (`Cursors.split`).
What is evaluated holds no braces and keeps them so (`readings_expression`, `readings_condition`);
blocks are entered and passed over side by side if the lists do not part at one
(`readings_openBrace`, `readings_skipBlock`).
-/

namespace TokenWalk

variable {α β γ δ : Type}

/-- The token is `var` or `let`. -/
def Token.Declares (t : Token) : Prop :=
  t.kind = .keyword ∧ (t.text = "var" ∨ t.text = "let")

/-- Two lists of tokens that go side by side, up to their tails. -/
inductive Beside (token : Token → Token → Prop) (tail tail' : List Token) :
    List Token → List Token → Prop where
  | tails : Beside token tail tail' tail tail'
  | cons {t t' : Token} {ts ts' : List Token} (htoken : token t t')
      (hrest : Beside token tail tail' ts ts') : Beside token tail tail' (t :: ts) (t' :: ts')

/-- How two runs go side by side. -/
structure Pairing where
  /-- Tokens that stand for each other. -/
  token : Token → Token → Prop
  /-- Stops that stand for each other. -/
  stop : Stop → Stop → Prop
  /-- The second run may do anything once the first has stopped. -/
  lenient : Prop
  /-- Where the lists end to be side by side. -/
  tail : List Token
  tail' : List Token
  kind_eq : ∀ {t t' : Token}, token t t' → t.kind = t'.kind
  text_eq : ∀ {t t' : Token}, token t t' → t.text = t'.text ∨ t.Declares ∧ t'.Declares
  locate : ∀ {t t' : Token}, token t t' → ∀ e : Stop,
    stop (e.locate (some t.place.line) (some t.place.column))
      (e.locate (some t'.place.line) (some t'.place.column))
  unexpected : ∀ {t t' : Token}, token t t' → ∀ expected : Expectation,
    stop (.fault (.ofPlace t.place (.unexpectedToken expected t)))
      (.fault (.ofPlace t'.place (.unexpectedToken expected t')))
  /-- Both lists are used up or go on with a block, or the first is at its end and the second at a
  token that goes on with neither an expression nor a conditional. -/
  tails : ¬ lenient ∧ (tail = [] ∧ tail' = [] ∨
      ∃ t ts t' ts', tail = t :: ts ∧ tail' = t' :: ts' ∧ token t t' ∧ t.opensBlock = true) ∨
    lenient ∧ (∃ t ts, tail = t :: ts ∧ t.kind = .endOfInput) ∧
      ∃ t' ts', tail' = t' :: ts' ∧ t'.kind ≠ .operator ∧ t'.kind ≠ .keyword

namespace Pairing

variable {p : Pairing} {t t' : Token} {c c' : Cursor}

theorem text_eq_of_kind (h : p.token t t') (hkind : t.kind ≠ .keyword) : t.text = t'.text := by
  rcases p.text_eq h with htext | ⟨hdeclares, -⟩
  · exact htext
  · exact absurd hdeclares.1 hkind

/-- Tokens that stand for each other pass the same tests, unless they are asked for `var` or
`let`. -/
theorem is_eq (h : p.token t t') (kind : Kind) {text? : Option String} (hvar : text? ≠ some "var")
    (hlet : text? ≠ some "let") : t.is kind text? = t'.is kind text? := by
  unfold Token.is
  rw [p.kind_eq h]
  cases text? with
  | none => rfl
  | some text =>
    rcases p.text_eq h with htext | ⟨⟨-, htext⟩, ⟨-, htext'⟩⟩
    · rw [htext]
    · have hother : ∀ {u : Token}, u.text = "var" ∨ u.text = "let" → (u.text == text) = false := by
        intro u hu
        rcases hu with hu | hu
        · rw [hu, beq_eq_false_iff_ne]
          intro heq
          exact hvar (congrArg some heq.symm)
        · rw [hu, beq_eq_false_iff_ne]
          intro heq
          exact hlet (congrArg some heq.symm)
      simp only [Option.all_some, hother htext, hother htext']

theorem opensBlock_eq (h : p.token t t') : t.opensBlock = t'.opensBlock :=
  is_eq h _ (by decide) (by decide)

theorem closesBlock_eq (h : p.token t t') : t.closesBlock = t'.closesBlock :=
  is_eq h _ (by decide) (by decide)

theorem atEnd_eq (h : p.token c.token c'.token) : c.atEnd = c'.atEnd := by
  unfold Cursor.atEnd
  rw [p.kind_eq h]

theorem joins_eq (h : p.token t t') : Reading.joins t = Reading.joins t' := by
  unfold Reading.joins
  rw [p.kind_eq h]
  by_cases hkind : t.kind = .operator
  · rw [text_eq_of_kind h (by simp [hkind])]
  · rw [p.kind_eq h] at hkind
    rw [beq_eq_false_iff_ne.mpr hkind]
    rfl

theorem value?_eq (h : p.token t t') (scopes : Scopes) : t.value? scopes = t'.value? scopes := by
  unfold Token.value?
  rw [← p.kind_eq h]
  by_cases hkind : t.kind = .keyword
  · simp only [hkind]
  · rw [text_eq_of_kind h hkind]

/-- Faults with one cause that point at tokens that stand for each other. -/
theorem stop_fail (h : p.token t t') (cause : Cause) :
    p.stop (.fault (.ofPlace t.place cause)) (.fault (.ofPlace t'.place cause)) :=
  p.locate h (.fault { cause })

/-- An abort stands for itself. -/
theorem stop_abort (h : p.token t t') (a : Abort) : p.stop (.abort a) (.abort a) :=
  p.locate h (.abort a)

theorem stop_overrun (h : p.token t t') (cap : Int) :
    p.stop (.overrun t.place cap) (.overrun t'.place cap) := by
  unfold Stop.overrun
  cases Numeral.writeInteger cap with
  | ok text => exact stop_fail h _
  | error defect => exact stop_abort h _

/-! ## Cursors -/

/-- The lists do not part at a block. -/
def Whole (p : Pairing) : Prop :=
  p.tail = [] ∨ p.lenient

/-- The cursors stand side by side. -/
structure Cursors (p : Pairing) (c c' : Cursor) : Prop where
  rest : Beside p.token p.tail p.tail' c.rest c'.rest
  sentinel : ¬ p.lenient → p.token c.sentinel c'.sentinel

/-- The first cursor has come to its end of input, and the second stands before what the first does
not have. -/
structure AtTails (p : Pairing) (c c' : Cursor) : Prop where
  lenient : p.lenient
  atEnd : c.token.kind = .endOfInput
  not_operator : c'.token.kind ≠ .operator
  not_keyword : c'.token.kind ≠ .keyword
  rest_eq : c.rest = p.tail
  rest_eq' : c'.rest = p.tail'

/-- Cursors side by side are at tokens that stand for each other, or at the tails.  Behind the
tokens they are side by side again, unless the lists part there. -/
theorem Cursors.split (h : p.Cursors c c') :
    p.token c.token c'.token ∧
        ((c.token.opensBlock = true → p.Whole) → p.Cursors c.next c'.next) ∨ p.AtTails c c' := by
  obtain ⟨hrest, hsentinel⟩ := h
  generalize hts : c.rest = ts at hrest
  generalize hts' : c'.rest = ts' at hrest
  cases hrest with
  | cons htoken hrest =>
    left
    rw [Cursor.token_of_rest hts, Cursor.token_of_rest hts']
    refine ⟨htoken, fun _ => ⟨?_, hsentinel⟩⟩
    rw [Cursor.rest_next_of_rest hts, Cursor.rest_next_of_rest hts']
    exact hrest
  | tails =>
    rcases p.tails with
      ⟨hstrict, ⟨htail, htail'⟩ | ⟨u, us, u', us', htail, htail', htoken, hopens⟩⟩ |
      ⟨hlenient, ⟨u, us, htail, hend⟩, ⟨u', us', htail', hop, hkey⟩⟩
    · left
      rw [htail] at hts
      rw [htail'] at hts'
      have htoken : c.token = c.sentinel := by
        unfold Cursor.token
        rw [hts]
      have htoken' : c'.token = c'.sentinel := by
        unfold Cursor.token
        rw [hts']
      rw [htoken, htoken']
      refine ⟨hsentinel hstrict, fun _ => ⟨?_, hsentinel⟩⟩
      rw [Cursor.rest_next, Cursor.rest_next, hts, hts']
      have hnil : Beside p.token p.tail p.tail' p.tail p.tail' := .tails
      rw [htail, htail'] at hnil ⊢
      exact hnil
    · left
      rw [Cursor.token_of_rest (hts.trans htail), Cursor.token_of_rest (hts'.trans htail')]
      refine ⟨htoken, fun hwhole => ?_⟩
      rcases hwhole hopens with hnil | hlenient
      · rw [htail] at hnil
        cases hnil
      · exact absurd hlenient hstrict
    · right
      have htoken := Cursor.token_of_rest (hts.trans htail)
      have htoken' := Cursor.token_of_rest (hts'.trans htail')
      refine ⟨hlenient, ?_, ?_, ?_, hts, hts'⟩
      · rw [htoken]
        exact hend
      · rw [htoken']
        exact hop
      · rw [htoken']
        exact hkey

/-- Cursors side by side in a strict pairing are at tokens that stand for each other. -/
theorem Cursors.split_of_strict (h : p.Cursors c c') (hstrict : ¬ p.lenient) :
    p.token c.token c'.token ∧
      ((c.token.opensBlock = true → p.Whole) → p.Cursors c.next c'.next) := by
  rcases h.split with htokens | htails
  · exact htokens
  · exact absurd htails.lenient hstrict

/-! ## Readings -/

/-- Outcomes of readings that go side by side. -/
def Reads (p : Pairing) (R : α → β → Prop) :
    EStateM.Result Stop Cursor α → EStateM.Result Stop Cursor β → Prop :=
  Answers p.lenient (fun a d b d' => R a b ∧ p.Cursors d d')
    (fun e d f d' => p.stop e f ∧ p.Cursors d d')

/-- Readings that go side by side from cursors side by side. -/
def Readings (p : Pairing) (R : α → β → Prop) (x : Reading α) (y : Reading β) : Prop :=
  ∀ ⦃c c' : Cursor⦄, p.Cursors c c' → p.Reads R (x c) (y c')

theorem Readings.bind {R : α → β → Prop} {S : γ → δ → Prop} {x : Reading α} {y : Reading β}
    {f : α → Reading γ} {g : β → Reading δ} (hxy : p.Readings R x y)
    (hfg : ∀ a b, R a b → p.Readings S (f a) (g b)) : p.Readings S (x >>= f) (y >>= g) := by
  intro c c' hc
  refine Answers.bind (hxy hc) ?_
  intro a d b d' hd
  exact hfg a b hd.1 hd.2

theorem readings_pure {R : α → β → Prop} {a : α} {b : β} (h : R a b) :
    p.Readings R (pure a) (pure b) :=
  fun _ _ hc => ⟨h, hc⟩

theorem reads_error {R : α → β → Prop} {e f : Stop} (h : p.stop e f) (hc : p.Cursors c c') :
    p.Reads R (.error e c) (.error f c') :=
  Or.inr ⟨h, hc⟩

/-- A value that is found, or a stop that is pointed at tokens that stand for each other. -/
theorem readings_ofExcept (h : p.token t t') (r : Except Stop α) :
    p.Readings Eq (Reading.ofExcept t r) (Reading.ofExcept t' r) := by
  intro c c' hc
  cases r with
  | ok a => exact ⟨rfl, hc⟩
  | error e => exact reads_error (p.locate h e) hc

theorem readings_expect {kind : Kind} {text? : Option String} (hkind : kind ≠ .endOfInput)
    (hvar : text? ≠ some "var") (hlet : text? ≠ some "let")
    (hopening : ∀ t : Token, t.is kind text? = true → t.opensBlock = true → p.Whole) :
    p.Readings (fun t t' => p.token t t' ∧ t.is kind text? = true) (.expect kind text?)
      (.expect kind text?) := by
  intro c c' hc
  rw [Reading.expect_apply, Reading.expect_apply]
  rcases hc.split with ⟨htoken, hnext⟩ | htails
  · rw [← is_eq htoken kind hvar hlet]
    cases his : c.token.is kind text? with
    | true => exact ⟨⟨htoken, his⟩, hnext (hopening _ his)⟩
    | false => exact reads_error (p.unexpected htoken _) hc
  · have his : c.token.is kind text? = false := by
      unfold Token.is
      rw [htails.atEnd, beq_eq_false_iff_ne.mpr hkind.symm]
      rfl
    rw [his]
    exact Answers.of_lenient htails.lenient _ _ _

theorem readings_openBrace (hwhole : p.Whole) : p.Readings Eq .openBrace .openBrace := by
  refine (readings_expect (by decide) (by decide) (by decide) fun _ _ _ => hwhole).bind ?_
  exact fun _ _ _ => readings_pure rfl

theorem readings_closeBrace : p.Readings Eq .closeBrace .closeBrace := by
  refine (readings_expect (by decide) (by decide) (by decide) fun t hcloses hopens => ?_).bind
    fun _ _ _ => readings_pure rfl
  rw [Token.not_opensBlock_of_closesBlock hcloses] at hopens
  cases hopens

theorem reads_skipBlocks_end (hc : p.Cursors c c') (hend : c.token.kind = .endOfInput)
    (bound bound' : List Token) (depth : Nat) :
    p.Reads Eq (Reading.skipBlocks bound (depth + 1) c)
      (Reading.skipBlocks bound' (depth + 1) c') := by
  rw [Reading.skipBlocks_end hend]
  rcases hc.split with ⟨htoken, -⟩ | htails
  · rw [Reading.skipBlocks_end ((p.kind_eq htoken).symm.trans hend)]
    exact reads_error (stop_fail htoken _) hc
  · exact Answers.of_lenient htails.lenient _ _ _

/-- Blocks are passed over side by side.  The induction is on the first bound, and each bound covers
the tokens left. -/
theorem reads_skipBlocks (hwhole : p.Whole) {bound bound' : List Token} {depth : Nat}
    (hc : p.Cursors c c')
    (hbound : c.rest.length ≤ bound.length) (hbound' : c'.rest.length ≤ bound'.length) :
    p.Reads Eq (Reading.skipBlocks bound depth c) (Reading.skipBlocks bound' depth c') := by
  induction bound generalizing bound' depth c c' with
  | nil =>
    cases depth with
    | zero =>
      unfold Reading.skipBlocks
      exact ⟨rfl, hc⟩
    | succ depth =>
      have hend := Cursor.kind_of_length_le_zero hbound
      exact reads_skipBlocks_end hc hend [] bound' depth
  | cons b bound ih =>
    cases depth with
    | zero =>
      unfold Reading.skipBlocks
      exact ⟨rfl, hc⟩
    | succ depth =>
      by_cases hend : c.token.kind = .endOfInput
      · exact reads_skipBlocks_end hc hend (b :: bound) bound' depth
      · rcases hc.split with ⟨htoken, hnext⟩ | htails
        · have hend' : c'.token.kind ≠ .endOfInput := by
            rw [← p.kind_eq htoken]
            exact hend
          obtain ⟨b', bound', rfl⟩ := Cursor.exists_bound hend' hbound'
          rw [Reading.skipBlocks_step hend, Reading.skipBlocks_step hend',
            opensBlock_eq htoken, closesBlock_eq htoken]
          exact ih (hnext fun _ => hwhole) (Cursor.length_next_le hend hbound)
            (Cursor.length_next_le hend' hbound')
        · exact absurd htails.atEnd hend

theorem readings_skipBlock (hwhole : p.Whole) : p.Readings Eq .skipBlock .skipBlock :=
  fun _ _ hc => reads_skipBlocks hwhole hc (Nat.le_refl _) (Nat.le_refl _)

/-- Behind plain tokens that stand for each other the cursors are side by side again. -/
theorem cursors_next_of_plain
    (hnext : (c.token.opensBlock = true → p.Whole) → p.Cursors c.next c'.next)
    (hplain : c.token.Plain) : p.Cursors c.next c'.next := by
  refine hnext fun hopens => ?_
  rw [hplain.not_opening] at hopens
  cases hopens

/-! ## Expressions -/

theorem readings_term (scopes : Scopes) : p.Readings Eq (.term scopes) (.term scopes) := by
  intro c c' hc
  rcases hc.split with ⟨htoken, hnext⟩ | htails
  · have heq := value?_eq htoken scopes
    cases hvalue : c.token.value? scopes with
    | none =>
      rw [Reading.term_of_none hvalue, Reading.term_of_none (heq.symm.trans hvalue)]
      exact reads_error (p.unexpected htoken _) hc
    | some r =>
      rw [Reading.term_of_some hvalue, Reading.term_of_some (heq.symm.trans hvalue)]
      exact readings_ofExcept htoken r
        (cursors_next_of_plain hnext (Reading.plain_of_value? hvalue))
  · have hvalue : c.token.value? scopes = none := by
      unfold Token.value?
      rw [htails.atEnd]
    rw [Reading.term_of_none hvalue]
    exact Answers.of_lenient htails.lenient _ _ _

theorem readings_operation (scopes : Scopes) (left : Value) (h : p.token t t')
    (hkind : t.kind = .operator) :
    p.Readings Eq (Reading.operation scopes left t) (Reading.operation scopes left t') := by
  unfold Reading.operation
  rw [← text_eq_of_kind h (by simp [hkind])]
  cases Arithmetic.ofSymbol? t.text with
  | none =>
    intro c c' hc
    exact reads_error (stop_fail h _) hc
  | some op =>
    refine (readings_term scopes).bind ?_
    intro right right' hright
    subst hright
    exact readings_ofExcept h _

/-- Expressions go on side by side.  The induction is on the first bound, and each bound covers the
tokens left. -/
theorem reads_operations (scopes : Scopes) {bound bound' : List Token} {left : Value}
    (hc : p.Cursors c c') (hbound : c.rest.length ≤ bound.length)
    (hbound' : c'.rest.length ≤ bound'.length) :
    p.Reads Eq (Reading.operations scopes bound left c)
      (Reading.operations scopes bound' left c') := by
  have hstop : ∀ (bound bound' : List Token) {c c' : Cursor} {left : Value}, p.Cursors c c' →
      Reading.joins c.token = false → Reading.joins c'.token = false →
      p.Reads Eq (Reading.operations scopes bound left c)
        (Reading.operations scopes bound' left c') := by
    intro bound bound' c c' left hc hjoins hjoins'
    rw [Reading.operations_of_not_joins _ _ _ hjoins, Reading.operations_of_not_joins _ _ _ hjoins']
    exact ⟨rfl, hc⟩
  induction bound generalizing bound' left c c' with
  | nil =>
    have hend := Cursor.kind_of_length_le_zero hbound
    have hjoins : Reading.joins c.token = false := by simp [Reading.joins, hend]
    rcases hc.split with ⟨htoken, -⟩ | htails
    · exact hstop _ _ hc hjoins ((joins_eq htoken).symm.trans hjoins)
    · exact hstop _ _ hc hjoins (by simp [Reading.joins, htails.not_operator])
  | cons b bound ih =>
    rcases hc.split with ⟨htoken, hnext⟩ | htails
    · cases hjoins : Reading.joins c.token with
      | false => exact hstop _ _ hc hjoins ((joins_eq htoken).symm.trans hjoins)
      | true =>
        have hjoins' := (joins_eq htoken).symm.trans hjoins
        have hkind : c.token.kind = .operator := by
          simp only [Reading.joins, Bool.and_eq_true, beq_iff_eq] at hjoins
          exact hjoins.1
        have hend : c.token.kind ≠ .endOfInput := by simp [hkind]
        have hend' : c'.token.kind ≠ .endOfInput := by
          rw [← p.kind_eq htoken]
          exact hend
        obtain ⟨b', bound', rfl⟩ := Cursor.exists_bound hend' hbound'
        rw [Reading.operations_of_joins _ _ _ _ hjoins, Reading.operations_of_joins _ _ _ _ hjoins']
        -- An operand never gives tokens back, so the bounds still cover what is left.
        have hnext' := cursors_next_of_plain hnext (Reading.plain_of_operator hkind)
        have hstep := (readings_operation scopes left htoken hkind hnext').and_meets
          (Reading.forward_operation scopes left c.token c.next)
          (Reading.forward_operation scopes left c'.token c'.next)
        refine Answers.bind hstep ?_
        intro n d n' d' hd
        obtain ⟨⟨hn, hcursors⟩, honward, honward'⟩ := hd
        subst hn
        refine ih hcursors ?_ ?_
        · exact Nat.le_trans honward.length_le (Cursor.length_next_le hend hbound)
        · exact Nat.le_trans honward'.length_le (Cursor.length_next_le hend' hbound')
    · exact hstop _ _ hc (by simp [Reading.joins, htails.atEnd])
        (by simp [Reading.joins, htails.not_operator])

theorem readings_expression (scopes : Scopes) :
    p.Readings Eq (.expression scopes) (.expression scopes) := by
  refine (readings_term scopes).bind ?_
  intro first first' hfirst c c' hc
  subst hfirst
  exact reads_operations scopes hc (Nat.le_refl _) (Nat.le_refl _)

theorem reads_comparing (scopes : Scopes) (left : Value) (hc : p.Cursors c c') :
    p.Reads Eq (Reading.comparing scopes left c.token c)
      (Reading.comparing scopes left c'.token c') := by
  rcases hc.split with ⟨htoken, hnext⟩ | htails
  · by_cases hkind : c.token.kind = .operator
    · have hkind' : c'.token.kind = .operator := (p.kind_eq htoken).symm.trans hkind
      have htext := text_eq_of_kind htoken (by simp [hkind])
      cases hop : Comparison.ofSymbol? c.token.text with
      | none =>
        rw [Reading.comparing_of_none scopes left fun _ => hop,
          Reading.comparing_of_none scopes left fun _ => htext ▸ hop]
        exact reads_error (p.unexpected htoken _) hc
      | some op =>
        rw [Reading.comparing_of_some scopes left hkind hop,
          Reading.comparing_of_some scopes left hkind' (htext ▸ hop),
          bind_of_ok (Reading.advance_apply c), bind_of_ok (Reading.advance_apply c')]
        refine (readings_expression scopes).bind ?_
          (cursors_next_of_plain hnext (Reading.plain_of_operator hkind))
        intro right right' hright
        subst hright
        exact readings_ofExcept htoken _
    · have hkind' : c'.token.kind ≠ .operator := by
        rw [← p.kind_eq htoken]
        exact hkind
      rw [Reading.comparing_of_none scopes left fun h => absurd h hkind,
        Reading.comparing_of_none scopes left fun h => absurd h hkind']
      exact reads_error (p.unexpected htoken _) hc
  · have hkind : c.token.kind ≠ .operator := by simp [htails.atEnd]
    rw [Reading.comparing_of_none scopes left fun h => absurd h hkind]
    exact Answers.of_lenient htails.lenient _ _ _

theorem readings_condition (scopes : Scopes) :
    p.Readings Eq (.condition scopes) (.condition scopes) := by
  rw [Reading.condition_eq]
  refine (readings_expression scopes).bind ?_
  intro left left' hleft c c' hc
  subst hleft
  exact reads_comparing scopes left hc

end Pairing

end TokenWalk
