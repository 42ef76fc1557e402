import TokenWalk.Proofs.Onward

/-!
# Braces

Passing over a block is counting braces.  `level` is that count for a run of tokens inside a block:
how many blocks are open at its end, if it never closes the block it stands in.  `skipBlock` ends
exactly where the tokens are at level zero and a closing brace follows: `skipBlock_of_level` finds
the end, `level_of_skipBlock` reads it back.
-/

namespace TokenWalk

namespace Token

/-- The number of blocks open after the tokens, from `depth` blocks open before them; none if the
tokens close a block that was not open, or hold an end of input. -/
def level (depth : Nat) : List Token → Option Nat
  | [] => some depth
  | t :: ts =>
      if t.kind == .endOfInput then none
      else if t.opensBlock then level (depth + 1) ts
      else if t.closesBlock then
        match depth with
        | 0 => none
        | depth + 1 => level depth ts
      else level depth ts

/-- A token that is neither a brace nor an end of input. -/
structure Plain (t : Token) : Prop where
  not_end : t.kind ≠ .endOfInput
  not_opening : t.opensBlock = false
  not_closing : t.closesBlock = false

/-- A token of another kind than punctuation and the end of input is plain. -/
theorem plain_of_kind {t : Token} (hend : t.kind ≠ .endOfInput) (hmark : t.kind ≠ .punctuation) :
    t.Plain := by
  have his : ∀ text? : Option String, t.is .punctuation text? = false := by
    intro text?
    simp [Token.is, hmark]
  exact ⟨hend, his _, his _⟩

theorem kind_of_opensBlock {t : Token} (h : t.opensBlock = true) : t.kind = .punctuation := by
  simp [opensBlock, Token.is] at h
  exact h.1

theorem kind_of_closesBlock {t : Token} (h : t.closesBlock = true) : t.kind = .punctuation := by
  simp [closesBlock, Token.is] at h
  exact h.1

theorem not_closesBlock_of_opensBlock {t : Token} (h : t.opensBlock = true) :
    t.closesBlock = false := by
  simp [opensBlock, Token.is] at h
  simp [closesBlock, Token.is, h.2]

theorem not_opensBlock_of_closesBlock {t : Token} (h : t.closesBlock = true) :
    t.opensBlock = false := by
  cases hopens : t.opensBlock with
  | false => rfl
  | true =>
    rw [not_closesBlock_of_opensBlock hopens] at h
    cases h

theorem level_opening {t : Token} (h : t.opensBlock = true) (depth : Nat) (ts : List Token) :
    level depth (t :: ts) = level (depth + 1) ts := by
  simp [level, kind_of_opensBlock h, h]

theorem level_closing {t : Token} (h : t.closesBlock = true) (depth : Nat) (ts : List Token) :
    level (depth + 1) (t :: ts) = level depth ts := by
  simp [level, kind_of_closesBlock h, h, not_opensBlock_of_closesBlock h]

theorem level_zero_closing {t : Token} (h : t.closesBlock = true) (ts : List Token) :
    level 0 (t :: ts) = none := by
  simp [level, kind_of_closesBlock h, h, not_opensBlock_of_closesBlock h]

theorem level_plain {t : Token} (h : t.Plain) (depth : Nat) (ts : List Token) :
    level depth (t :: ts) = level depth ts := by
  simp [level, h.not_end, h.not_opening, h.not_closing]

/-- Plain tokens leave the level as it is. -/
theorem level_of_plain {ts : List Token} (h : ∀ t ∈ ts, t.Plain) (depth : Nat) :
    level depth ts = some depth := by
  induction ts with
  | nil => rfl
  | cons t ts ih =>
    rw [level_plain (h t List.mem_cons_self)]
    exact ih fun u hu => h u (List.mem_cons_of_mem t hu)

/-- The level of a row of tokens is followed part by part. -/
theorem level_append (depth : Nat) (xs ys : List Token) :
    level depth (xs ++ ys) = (level depth xs).bind fun depth => level depth ys := by
  fun_induction level depth xs with
  | case1 depth => rfl
  | case2 depth t ts hend => simp [level, hend]
  | case3 depth t ts hend hopens ih => simp [level, hend, hopens, ih]
  | case4 t ts hend hopens hcloses => simp [level, hend, hopens, hcloses]
  | case5 t ts hend hopens hcloses depth ih => simp [level, hend, hopens, hcloses, ih]
  | case6 depth t ts hend hopens hcloses ih => simp [level, hend, hopens, hcloses, ih]

/-- More open blocks around the tokens stay open. -/
theorem level_add {depth depth' : Nat} {ts : List Token} (h : level depth ts = some depth')
    (more : Nat) : level (depth + more) ts = some (depth' + more) := by
  fun_induction level depth ts with
  | case1 depth =>
    cases h
    rfl
  | case2 depth t ts hend => cases h
  | case3 depth t ts hend hopens ih =>
    simp only [level, hend, hopens, if_true, Bool.false_eq_true, if_false]
    rw [Nat.add_right_comm]
    exact ih h
  | case4 t ts hend hopens hcloses => cases h
  | case5 t ts hend hopens hcloses depth ih =>
    rw [show depth.succ + more = depth + more + 1 by omega, level_closing hcloses]
    exact ih h
  | case6 depth t ts hend hopens hcloses ih =>
    simp only [level, hend, hopens, hcloses, Bool.false_eq_true, if_false]
    exact ih h

end Token

namespace Cursor

theorem token_of_rest {c : Cursor} {t : Token} {k : List Token} (h : c.rest = t :: k) :
    c.token = t := by
  unfold token
  rw [h]

theorem rest_next_of_rest {c : Cursor} {t : Token} {k : List Token} (h : c.rest = t :: k) :
    c.next.rest = k := by
  rw [rest_next, h]
  rfl

/-- A token that is no end of input is one of the list. -/
theorem rest_eq_cons {c : Cursor} (h : c.token.kind ≠ .endOfInput) :
    c.rest = c.token :: c.next.rest := by
  cases hrest : c.rest with
  | nil =>
    have hend := atEnd_of_rest_eq_nil hrest
    simp only [atEnd, beq_iff_eq] at hend
    exact absurd hend h
  | cons t k => rw [token_of_rest hrest, rest_next_of_rest hrest]

theorem length_next_lt {c : Cursor} (hend : c.token.kind ≠ .endOfInput) :
    c.next.rest.length < c.rest.length := by
  rw [rest_eq_cons hend]
  exact Nat.lt_succ_self _

theorem kind_of_length_le_zero {c : Cursor} (h : c.rest.length ≤ 0) :
    c.token.kind = .endOfInput := by
  have hnil : c.rest = [] := List.eq_nil_of_length_eq_zero (Nat.le_zero.mp h)
  exact beq_iff_eq.mp (atEnd_of_rest_eq_nil hnil)

/-- A bound that covers the tokens left covers them after one is taken. -/
theorem length_next_le {c : Cursor} {b : Token} {bound : List Token}
    (hend : c.token.kind ≠ .endOfInput) (h : c.rest.length ≤ (b :: bound).length) :
    c.next.rest.length ≤ bound.length :=
  Nat.le_of_lt_succ (Nat.lt_of_lt_of_le (length_next_lt hend) h)

theorem exists_bound {c : Cursor} {bound : List Token} (hend : c.token.kind ≠ .endOfInput)
    (h : c.rest.length ≤ bound.length) : ∃ b bs, bound = b :: bs := by
  cases bound with
  | nil => exact absurd (kind_of_length_le_zero h) hend
  | cons b bs => exact ⟨b, bs, rfl⟩

end Cursor

namespace Reading

/-- A term is a plain token. -/
theorem plain_of_value? {scopes : Scopes} {t : Token} {r : Except Stop Value}
    (h : t.value? scopes = some r) : t.Plain := by
  refine Token.plain_of_kind ?_ ?_
  · intro hkind
    simp [Token.value?, hkind] at h
  · intro hkind
    simp [Token.value?, hkind] at h

theorem plain_of_operator {t : Token} (h : t.kind = .operator) : t.Plain :=
  Token.plain_of_kind (by simp [h]) (by simp [h])

/-- At the end of input a block cannot be passed over. -/
theorem skipBlocks_end {c : Cursor} (hend : c.token.kind = .endOfInput) (bound : List Token)
    (depth : Nat) :
    skipBlocks bound (depth + 1) c =
      .error (.fault (.ofPlace c.token.place .unclosedBlock)) c := by
  cases bound with
  | nil => rfl
  | cons b bound =>
    rw [skipBlocks, bind_of_ok (current_apply c)]
    simp only [hend, beq_self_eq_true, if_true]
    rfl

/-- One token of a block that is passed over. -/
theorem skipBlocks_step {c : Cursor} (hend : c.token.kind ≠ .endOfInput) (b : Token)
    (bound : List Token) (depth : Nat) :
    skipBlocks (b :: bound) (depth + 1) c =
      skipBlocks bound
        (if c.token.opensBlock then depth + 2
          else if c.token.closesBlock then depth else depth + 1) c.next := by
  rw [skipBlocks, bind_of_ok (current_apply c)]
  simp only [beq_iff_eq, hend, if_false]
  rw [bind_of_ok (advance_apply c)]
  split
  · rfl
  · split
    · rfl
    · rfl

theorem skipBlocks_error {bound : List Token} {depth : Nat} {c d : Cursor} {stop : Stop}
    (h : skipBlocks bound depth c = .error stop d) :
    stop = .fault (.ofPlace d.token.place .unclosedBlock) := by
  induction bound generalizing depth c with
  | nil =>
    cases depth with
    | zero => cases h
    | succ depth =>
      cases h
      rfl
  | cons b bound ih =>
    cases depth with
    | zero => cases h
    | succ depth =>
      by_cases hend : c.token.kind = .endOfInput
      · rw [skipBlocks_end hend] at h
        cases h
        rfl
      · rw [skipBlocks_step hend] at h
        exact ih h

/-- Passing over a block fails only at the end of input. -/
theorem skipBlock_error {c d : Cursor} {stop : Stop} (h : skipBlock c = .error stop d) :
    stop = .fault (.ofPlace d.token.place .unclosedBlock) :=
  skipBlocks_error (h : skipBlocks c.rest 1 c = .error stop d)

/-- Where passing over blocks fails is the end of input, if the bound covers the tokens left. -/
theorem kind_of_skipBlocks_error {bound : List Token} {depth : Nat} {c d : Cursor} {stop : Stop}
    (hbound : c.rest.length ≤ bound.length) (h : skipBlocks bound depth c = .error stop d) :
    d.token.kind = .endOfInput := by
  induction bound generalizing depth c with
  | nil =>
    cases depth with
    | zero => cases h
    | succ depth =>
      cases h
      exact Cursor.kind_of_length_le_zero hbound
  | cons b bound ih =>
    cases depth with
    | zero => cases h
    | succ depth =>
      by_cases hend : c.token.kind = .endOfInput
      · rw [skipBlocks_end hend] at h
        cases h
        exact hend
      · rw [skipBlocks_step hend] at h
        exact ih (Cursor.length_next_le hend hbound) h

theorem kind_of_skipBlock_error {c d : Cursor} {stop : Stop} (h : skipBlock c = .error stop d) :
    d.token.kind = .endOfInput :=
  kind_of_skipBlocks_error (Nat.le_refl _) (h : skipBlocks c.rest 1 c = .error stop d)

/-- Passing over tokens inside a block goes on after them at their level. -/
theorem skipBlocks_of_level {depth depth' : Nat} {seg k : List Token} {c : Cursor}
    {bound : List Token} (hlevel : Token.level depth seg = some depth') (hc : c.rest = seg ++ k)
    (hbound : c.rest.length ≤ bound.length) :
    ∃ d bound', c.Onward d ∧ d.rest = k ∧ k.length ≤ bound'.length ∧
      skipBlocks bound (depth + 1) c = skipBlocks bound' (depth' + 1) d := by
  induction seg generalizing depth bound c with
  | nil =>
    cases hlevel
    rw [hc] at hbound
    exact ⟨c, bound, .refl c, hc, hbound, rfl⟩
  | cons t seg ih =>
    have htoken : c.token = t := Cursor.token_of_rest hc
    have hnext : c.next.rest = seg ++ k := Cursor.rest_next_of_rest hc
    have hend : c.token.kind ≠ .endOfInput := by
      intro hend
      rw [htoken] at hend
      simp [Token.level, hend] at hlevel
    obtain ⟨b, bound, rfl⟩ := Cursor.exists_bound hend hbound
    have hbound' := Cursor.length_next_le hend hbound
    -- The level after the token is the one at which the rest is passed over.
    have hstep : ∃ depth₁, Token.level depth₁ seg = some depth' ∧
        skipBlocks (b :: bound) (depth + 1) c = skipBlocks bound (depth₁ + 1) c.next := by
      rw [skipBlocks_step hend, htoken]
      rw [htoken] at hend
      cases hopens : t.opensBlock with
      | true =>
        rw [Token.level_opening hopens] at hlevel
        exact ⟨depth + 1, hlevel, rfl⟩
      | false =>
        cases hcloses : t.closesBlock with
        | true =>
          cases depth with
          | zero => simp [Token.level, hopens, hcloses] at hlevel
          | succ depth =>
            rw [Token.level_closing hcloses] at hlevel
            exact ⟨depth, hlevel, rfl⟩
        | false =>
          rw [Token.level_plain ⟨hend, hopens, hcloses⟩] at hlevel
          exact ⟨depth, hlevel, rfl⟩
    obtain ⟨depth₁, hlevel₁, heq⟩ := hstep
    obtain ⟨d, bound', honward, hd, hbound'', hskip⟩ := ih hlevel₁ hnext hbound'
    exact ⟨d, bound', c.onward_next.trans honward, hd, hbound'', heq.trans hskip⟩

/-- Passing over blocks, one of them ends with the closing brace after tokens at level zero. -/
theorem skipBlocks_of_closing {seg k : List Token} {t : Token} {c : Cursor} {bound : List Token}
    (hlevel : Token.level 0 seg = some 0) (ht : t.closesBlock = true)
    (hc : c.rest = seg ++ t :: k) (hbound : c.rest.length ≤ bound.length) (depth : Nat) :
    ∃ d bound', c.Onward d ∧ d.rest = k ∧ k.length ≤ bound'.length ∧
      skipBlocks bound (depth + 1) c = skipBlocks bound' depth d := by
  have hlevel' : Token.level depth seg = some depth := by
    have hadd := Token.level_add hlevel depth
    rwa [Nat.zero_add] at hadd
  obtain ⟨d, bound, honward, hd, hbound, hskip⟩ := skipBlocks_of_level hlevel' hc hbound
  have htoken : d.token = t := Cursor.token_of_rest hd
  have hend : d.token.kind ≠ .endOfInput := by
    rw [htoken, Token.kind_of_closesBlock ht]
    decide
  rw [← hd] at hbound
  obtain ⟨b, bound, rfl⟩ := Cursor.exists_bound hend hbound
  have hnext := Cursor.rest_next_of_rest hd
  refine ⟨d.next, bound, honward.trans d.onward_next, hnext, ?_, ?_⟩
  · rw [← hnext]
    exact Cursor.length_next_le hend hbound
  · rw [hskip, skipBlocks_step hend, htoken, Token.not_opensBlock_of_closesBlock ht, ht]
    rfl

/-- The end of a block is found after tokens at level zero. -/
theorem skipBlock_of_level {seg k : List Token} {t : Token} {c : Cursor}
    (hlevel : Token.level 0 seg = some 0) (ht : t.closesBlock = true)
    (hc : c.rest = seg ++ t :: k) : ∃ d, c.Onward d ∧ d.rest = k ∧ skipBlock c = .ok () d := by
  obtain ⟨d, bound, honward, hd, -, hskip⟩ :=
    skipBlocks_of_closing hlevel ht hc (Nat.le_refl c.rest.length) 0
  refine ⟨d, honward, hd, hskip.trans ?_⟩
  unfold skipBlocks
  rfl

/-- Where the passing over ends, the tokens are back at level zero and a closing brace was
taken. -/
theorem level_of_skipBlocks {bound : List Token} {depth : Nat} {c d : Cursor}
    (h : skipBlocks bound (depth + 1) c = .ok () d) :
    ∃ seg t, c.rest = seg ++ t :: d.rest ∧ t.closesBlock = true ∧
      Token.level depth seg = some 0 := by
  induction bound generalizing depth c with
  | nil =>
    unfold skipBlocks at h
    cases h
  | cons b bound ih =>
    by_cases hend : c.token.kind = .endOfInput
    · rw [skipBlocks_end hend] at h
      cases h
    · rw [skipBlocks_step hend] at h
      have hrest := Cursor.rest_eq_cons hend
      -- Unless the token closes the last block, what it adds to the level is all that is left.
      have hstep : ∀ depth₁, skipBlocks bound (depth₁ + 1) c.next = .ok () d →
          (∀ seg, Token.level depth (c.token :: seg) = Token.level depth₁ seg) →
          ∃ seg t, c.rest = seg ++ t :: d.rest ∧ t.closesBlock = true ∧
            Token.level depth seg = some 0 := by
        intro depth₁ hskip hlevel₁
        obtain ⟨seg, t, hseg, ht, hlevel⟩ := ih hskip
        refine ⟨c.token :: seg, t, ?_, ht, ?_⟩
        · rw [hrest, hseg]
          rfl
        · rw [hlevel₁]
          exact hlevel
      cases hopens : c.token.opensBlock with
      | true =>
        rw [hopens] at h
        exact hstep (depth + 1) h (Token.level_opening hopens depth)
      | false =>
        cases hcloses : c.token.closesBlock with
        | true =>
          rw [hopens, hcloses] at h
          cases depth with
          | zero =>
            have hd : d = c.next := by
              unfold skipBlocks at h
              cases h
              rfl
            exact ⟨[], c.token, by rw [hd]; exact hrest, hcloses, rfl⟩
          | succ depth => exact hstep depth h (Token.level_closing hcloses depth)
        | false =>
          rw [hopens, hcloses] at h
          exact hstep depth h (Token.level_plain ⟨hend, hopens, hcloses⟩ depth)

/-- Passing over a block takes tokens at level zero and then a closing brace. -/
theorem level_of_skipBlock {c d : Cursor} (h : skipBlock c = .ok () d) :
    ∃ seg t, c.rest = seg ++ t :: d.rest ∧ t.closesBlock = true ∧ Token.level 0 seg = some 0 :=
  level_of_skipBlocks h

end Reading

end TokenWalk
