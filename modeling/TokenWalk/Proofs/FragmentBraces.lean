import TokenWalk.Fragment
import TokenWalk.Proofs.Course
import TokenWalk.Proofs.Lexemes

/-!
# Fragments with all their braces

A fragment that passes for complete has as many closing braces as opening ones.  If its string
literals and comments hold no braces and nothing is closed before it is opened, then no run of it
finds a block unclosed.

The characters are counted first: `level_of_counts` carries the count over to the tokens.  From then
on it is a fact about cursors, `Cursor.Closed d`: the tokens ahead close exactly `d` blocks more
than they open.  A run may take an opening brace for a stray token and then has fewer blocks open
than the tokens ahead close, but never more, and that is what `Spot.Covered` keeps along its course.
-/

namespace TokenWalk

open scoped Computability

/-! ## Words without braces -/

namespace Rule

/-- A character other than a brace. -/
def notBrace (c : Char) : Bool :=
  c != '{' && c != '}'

variable {q : Char → Bool}

/-- A class of characters that has no braces. -/
theorem notBrace_of (hopening : q '{' = false) (hclosing : q '}' = false) (c : Char)
    (h : q c = true) : notBrace c = true := by
  simp only [notBrace, Bool.and_eq_true, bne_iff_ne]
  constructor
  · rintro rfl
    rw [hopening] at h
    cases h
  · rintro rfl
    rw [hclosing] at h
    cases h

/-- Only punctuation, string literals, comments and characters that no rule knows can be or hold
braces. -/
theorem within_language {rule : Rule}
    (h : rule ∈ [.newline, .blank, .float, .integer, .name, .operator]) :
    Within notBrace rule.language := by
  have hdigit := notBrace_of (q := Text.isDigit) (by decide) (by decide)
  have hpower : Within notBrace (1 + power) :=
    within_power hdigit (notBrace_of (by decide) (by decide)) (notBrace_of (by decide) (by decide))
  simp only [List.mem_cons, List.not_mem_nil, or_false] at h
  rcases h with rfl | rfl | rfl | rfl | rfl | rfl
  · exact within_one (notBrace_of (by decide) (by decide))
  · have hspace := notBrace_of (q := isSpace) (by decide) (by decide)
    exact (within_one hspace).mul (within_star_one hspace)
  · refine (within_digits hdigit).mul (Within.mul ?_ ((within_star_one hdigit).mul hpower))
    exact within_one (notBrace_of (by decide) (by decide))
  · exact (within_digits hdigit).mul hpower
  · refine (within_one (notBrace_of ?_ ?_)).mul (within_star_one (notBrace_of ?_ ?_))
    all_goals decide
  · refine Within.add ?_ (within_one (notBrace_of (by decide) (by decide)))
    rintro w ⟨a, b, hab, rfl⟩ c hc
    have hall : ∀ ab ∈ longOperators, notBrace ab.1 = true ∧ notBrace ab.2 = true := by decide
    obtain ⟨ha, hb⟩ := hall (a, b) (List.contains_iff_mem.mp hab)
    rcases List.mem_pair.mp hc with rfl | rfl
    · exact ha
    · exact hb

end Rule

/-! ## From characters to tokens -/

/-- Behind `depth` opening braces, no front of the text closes more than is open. -/
def Fronts (depth : Nat) (cs : List Char) : Prop :=
  ∀ front, front <+: cs → front.count '}' ≤ depth + front.count '{'

section Counts

variable {depth : Nat} {w cs : List Char}

theorem count_of_notBrace (h : ∀ c ∈ w, Rule.notBrace c = true) :
    w.count '{' = 0 ∧ w.count '}' = 0 := by
  constructor
  · refine List.count_eq_zero.mpr fun hmem => ?_
    exact absurd (h _ hmem) (by decide)
  · refine List.count_eq_zero.mpr fun hmem => ?_
    exact absurd (h _ hmem) (by decide)

theorem Fronts.of_append {depth' : Nat} (h : Fronts depth (w ++ cs))
    (hdepth : depth + w.count '{' = depth' + w.count '}') : Fronts depth' cs := by
  intro front hfront
  have hcounts := h (w ++ front) ((List.prefix_append_right_inj w).mpr hfront)
  rw [List.count_append, List.count_append] at hcounts
  omega

end Counts

/-- The rules of string literals and comments. -/
def Rule.isEnclosing : Rule → Bool
  | .string => true
  | .lineComment => true
  | .blockComment => true
  | _ => false

namespace Lexeme

variable {l : Lexeme} {t : Token}

/-- A lexeme has no braces, or it is a mark. -/
theorem notBrace_or_mark (h : l.text ∈ l.rule.language) (hfailure : l.rule.isFailure = false)
    (henclosed : l.rule.isEnclosing = true → ∀ c ∈ l.text, Rule.notBrace c = true) :
    (l.rule ≠ .punctuation ∧ ∀ c ∈ l.text, Rule.notBrace c = true) ∨
      ∃ c, l = ⟨.punctuation, [c]⟩ := by
  obtain ⟨rule, w⟩ := l
  cases rule with
  | newline | blank | float | integer | name | operator =>
    exact .inl ⟨nofun, Rule.within_language (by simp) w h⟩
  | lineComment | blockComment | string => exact .inl ⟨nofun, henclosed rfl⟩
  | openComment | openString | unmatched => cases hfailure
  | punctuation =>
    obtain ⟨c, _, rfl⟩ := Rule.mem_one.mp h
    exact .inr ⟨c, rfl⟩

theorem Spells.plain (h : l.Spells t.kind t.text) (hrule : l.rule ≠ .punctuation) : t.Plain := by
  obtain ⟨kind, text, place⟩ := t
  cases h with
  | punctuation => exact absurd rfl hrule
  | keyword | identifier | integer | float | operator | string =>
    exact Token.plain_of_kind nofun nofun

/-- A mark is a brace as a token exactly if it is one as a character. -/
theorem Spells.braces {c : Char} (h : Spells ⟨.punctuation, [c]⟩ t.kind t.text) :
    t.kind ≠ .endOfInput ∧ t.opensBlock = (c == '{') ∧ t.closesBlock = (c == '}') := by
  obtain ⟨kind, text, place⟩ := t
  have hsame : ∀ d : Char, (String.ofList [c] == String.ofList [d]) = (c == d) := by
    intro d
    rw [Bool.eq_iff_iff, beq_iff_eq, beq_iff_eq]
    exact String.ofList_inj.trans (by simp)
  cases h with
  | punctuation => exact ⟨nofun, hsame '{', hsame '}'⟩

/-- One token changes the level as its lexeme changes the count. -/
theorem Spells.exists_level {depth : Nat} {cs : List Char} (h : l.Spells t.kind t.text)
    (hbraces : (l.rule ≠ .punctuation ∧ ∀ c ∈ l.text, Rule.notBrace c = true) ∨
      ∃ c, l = ⟨.punctuation, [c]⟩)
    (hfronts : Fronts depth (l.text ++ cs)) :
    ∃ depth', (∀ ts, Token.level depth (t :: ts) = Token.level depth' ts) ∧
      depth + l.text.count '{' = depth' + l.text.count '}' := by
  rcases hbraces with ⟨hrule, hnone⟩ | ⟨c, rfl⟩
  · obtain ⟨hopening, hclosing⟩ := count_of_notBrace hnone
    exact ⟨depth, Token.level_plain (h.plain hrule) depth, by omega⟩
  · obtain ⟨hend, hopens, hcloses⟩ := h.braces
    by_cases hopening : c = '{'
    · subst hopening
      exact ⟨depth + 1, Token.level_opening hopens depth, by simp⟩
    by_cases hclosing : c = '}'
    · subst hclosing
      have hfront := hfronts ['}'] (List.prefix_append ['}'] cs)
      obtain ⟨depth, rfl⟩ : ∃ d, depth = d + 1 := ⟨depth - 1, by simp at hfront; omega⟩
      exact ⟨depth, Token.level_closing hcloses depth, by simp⟩
    · refine ⟨depth, Token.level_plain ⟨hend, ?_, ?_⟩ depth, by simp [hopening, hclosing]⟩
      · rw [hopens, beq_eq_false_iff_ne]
        exact hopening
      · rw [hcloses, beq_eq_false_iff_ne]
        exact hclosing

end Lexeme

/-- The level of the tokens follows the count of the characters. -/
theorem level_of_counts {ls : List Lexeme} {before : List Char} {tokens : List Token} {depth : Nat}
    (hmem : ∀ l ∈ ls, l.text ∈ l.rule.language) (hfailure : ∀ l ∈ ls, l.rule.isFailure = false)
    (henclosed : ∀ l ∈ ls, l.rule.isEnclosing = true → ∀ c ∈ l.text, Rule.notBrace c = true)
    (hmarks : List.Forall₂ Marks (visible before ls) tokens)
    (hfronts : Fronts depth (ls.flatMap Lexeme.text)) :
    ∃ depth', Token.level depth tokens = some depth' ∧
      depth' + (ls.flatMap Lexeme.text).count '}' = depth + (ls.flatMap Lexeme.text).count '{' := by
  induction ls generalizing before tokens depth with
  | nil =>
    cases hmarks
    exact ⟨depth, rfl, rfl⟩
  | cons l ls ih =>
    rw [List.forall_mem_cons] at hmem hfailure henclosed
    rw [List.flatMap_cons] at hfronts ⊢
    rw [List.count_append, List.count_append]
    have hbraces := Lexeme.notBrace_or_mark hmem.1 hfailure.1 henclosed.1
    cases hlayout : l.rule.isLayout with
    | true =>
      rw [visible_layout hlayout] at hmarks
      have hnone : ∀ c ∈ l.text, Rule.notBrace c = true := by
        rcases hbraces with ⟨_, hnone⟩ | ⟨c, rfl⟩
        · exact hnone
        · cases hlayout
      obtain ⟨hopening, hclosing⟩ := count_of_notBrace hnone
      have hfronts' : Fronts depth (ls.flatMap Lexeme.text) := hfronts.of_append (by omega)
      obtain ⟨depth', hlevel, hcounts⟩ := ih hmem.2 hfailure.2 henclosed.2 hmarks hfronts'
      exact ⟨depth', hlevel, by omega⟩
    | false =>
      rw [visible_cons hlayout] at hmarks
      obtain _ | ⟨hmark, hmarks⟩ := hmarks
      obtain ⟨hspells, -⟩ : l.Spells _ _ ∧ _ := hmark
      obtain ⟨depth₁, hstep, hcount⟩ := hspells.exists_level hbraces hfronts
      obtain ⟨depth', hlevel, hcounts⟩ :=
        ih hmem.2 hfailure.2 henclosed.2 hmarks (hfronts.of_append hcount)
      exact ⟨depth', (hstep _).trans hlevel, by omega⟩

/-! ## Blocks that the tokens ahead close -/

/-- Tokens that close more blocks than they open have a first brace that closes one of them. -/
theorem Token.exists_closing_of_level {ts : List Token} {depth inside : Nat}
    (h : level (depth + 1 + inside) ts = some 0) :
    ∃ seg t more, ts = seg ++ t :: more ∧ level inside seg = some 0 ∧ t.closesBlock = true ∧
      level depth more = some 0 := by
  induction ts generalizing inside with
  | nil => simp [level] at h
  | cons t ts ih =>
    by_cases hend : t.kind = .endOfInput
    · simp [level, hend] at h
    cases hopens : t.opensBlock with
    | true =>
      rw [level_opening hopens, Nat.add_assoc] at h
      obtain ⟨seg, u, more, rfl, hseg, hu, hmore⟩ := ih h
      exact ⟨t :: seg, u, more, rfl, by rw [level_opening hopens, hseg], hu, hmore⟩
    | false =>
      cases hcloses : t.closesBlock with
      | true =>
        cases inside with
        | zero =>
          rw [Nat.add_zero, level_closing hcloses] at h
          exact ⟨[], t, ts, rfl, rfl, hcloses, h⟩
        | succ inside =>
          rw [← Nat.add_assoc, level_closing hcloses] at h
          obtain ⟨seg, u, more, rfl, hseg, hu, hmore⟩ := ih h
          exact ⟨t :: seg, u, more, rfl, by rw [level_closing hcloses, hseg], hu, hmore⟩
      | false =>
        have hplain : t.Plain := ⟨hend, hopens, hcloses⟩
        rw [level_plain hplain] at h
        obtain ⟨seg, u, more, rfl, hseg, hu, hmore⟩ := ih h
        exact ⟨t :: seg, u, more, rfl, by rw [level_plain hplain, hseg], hu, hmore⟩

namespace Cursor

variable {c d : Cursor} {depth k : Nat}

/-- The tokens from the cursor to the end of input close `depth` blocks more than they open. -/
def Closed (depth : Nat) (c : Cursor) : Prop :=
  ∃ body stop, c.rest = body ++ [stop] ∧ stop.kind = .endOfInput ∧
    Token.level depth body = some 0

/-- What is left open on the way must be closed by what is still ahead. -/
theorem Closed.of_leavesOpen (h : Closed depth c) (hopen : LeavesOpen k c d) :
    Closed (depth + k) d := by
  obtain ⟨body, stop, hrest, hstop, hlevel⟩ := h
  obtain ⟨seg, hseg, hk⟩ := hopen
  have hdeep := Token.level_add hk depth
  rw [Nat.zero_add, Nat.add_comm k] at hdeep
  have hsplit : seg ++ d.rest = body ++ [stop] := hseg.symm.trans hrest
  obtain ⟨more, hbody, hd⟩ | ⟨more, hbody, hd⟩ := List.append_eq_append_iff.mp hsplit
  · refine ⟨more, stop, hd, hstop, ?_⟩
    rw [hbody, Token.level_append, hdeep] at hlevel
    exact hlevel
  · -- The way would go past the end of input, which no level allows.
    cases more with
    | nil =>
      refine ⟨[], stop, by simpa using hd.symm, hstop, ?_⟩
      rw [List.append_nil] at hbody
      rw [← hbody, hdeep] at hlevel
      exact hlevel
    | cons t more =>
      obtain ⟨rfl, hnil⟩ := List.cons.inj hd
      rw [hbody, Token.level_append] at hk
      cases hprior : Token.level 0 body with
      | none =>
        rw [hprior] at hk
        cases hk
      | some j =>
        simp [hprior, Token.level, hstop] at hk

/-- If more is closed ahead than opened, the cursor does not stand on the end of input. -/
theorem Closed.not_end (h : Closed (depth + 1) c) : c.token.kind ≠ .endOfInput := by
  obtain ⟨body, stop, hrest, hstop, hlevel⟩ := h
  cases body with
  | nil => cases hlevel
  | cons t body =>
    intro hend
    rw [token_of_rest hrest] at hend
    simp [Token.level, hend] at hlevel

/-- A closing brace closes one block of those ahead. -/
theorem Closed.closing (h : Closed depth c) (hcloses : c.token.closesBlock = true) :
    ∃ depth', Closed depth' c.next := by
  obtain ⟨body, stop, hrest, hstop, hlevel⟩ := h
  cases body with
  | nil =>
    rw [token_of_rest hrest, Token.closesBlock, Token.is, hstop] at hcloses
    cases hcloses
  | cons t body =>
    rw [token_of_rest hrest] at hcloses
    cases depth with
    | zero =>
      rw [Token.level_zero_closing hcloses] at hlevel
      cases hlevel
    | succ depth =>
      rw [Token.level_closing hcloses] at hlevel
      exact ⟨depth, body, stop, rest_next_of_rest hrest, hstop, hlevel⟩

/-- A block that the tokens ahead close can be passed over. -/
theorem Closed.skipBlock (h : Closed (depth + 1) c) : ∃ d, Reading.skipBlock c = .ok () d := by
  obtain ⟨body, stop, hrest, hstop, hlevel⟩ := h
  rw [← Nat.add_zero (depth + 1)] at hlevel
  obtain ⟨seg, t, more, rfl, hseg, ht, -⟩ := Token.exists_closing_of_level hlevel
  rw [List.append_assoc, List.cons_append] at hrest
  obtain ⟨d, -, -, hskip⟩ := Reading.skipBlock_of_level hseg ht hrest
  exact ⟨d, hskip⟩

end Cursor

namespace Walk

open Cursor (LeavesOpen)

variable {cap : Int} {nesting : Nat} {m o : Machine} {bodyStart c : Cursor}

/-! ## What a statement leaves open -/

theorem plain_of_kind_keyword (hkind : m.cursor.token.kind = .keyword) : m.cursor.token.Plain :=
  Token.plain_of_kind (by simp [hkind]) (by simp [hkind])

/-- The body of a loop starts behind one opening brace. -/
theorem leavesOpen_inLoop {block : Walk Unit} {left : Nat} {holds : Bool}
    (hkind : m.cursor.token.kind = .keyword) (h : InLoop block cap m bodyStart left holds o) :
    LeavesOpen 1 m.cursor bodyStart := by
  induction h with
  | first hhead hstart =>
    subst hstart
    rw [head, bind_of_ok (read_advance m)] at hhead
    obtain ⟨holds', m₁, hcondition, hhead⟩ := bind_ok_iff.mp hhead
    obtain ⟨_, m₂, hopen, hhead⟩ := bind_ok_iff.mp hhead
    cases hhead
    exact leavesOpen_head (plain_of_kind_keyword hkind) hcondition hopen
  | next _ _ ih => exact ih

/-- A block that a statement runs is behind one opening brace. -/
theorem leavesOpen_opens {block : Walk Unit} (h : Opens block cap m o) :
    LeavesOpen 1 m.cursor o.cursor := by
  cases h with
  | round hkind htext hin => exact leavesOpen_inLoop hkind hin
  | branch hkind htext hchoice =>
    have hplain := plain_of_kind_keyword hkind
    cases hchoice with
    | consequent htest =>
      have hhead := leavesOpen_test hplain htest
      exact hhead
    | alternative htest hskip helse hopens =>
      obtain ⟨d, hskipped, rfl⟩ := read_ok_iff.mp hskip
      have hpassed := (leavesOpen_test hplain htest).skipping hskipped
      exact hpassed.trans (leavesOpen_else helse hopens)

/-- A block that a statement passes over is behind an opening brace. -/
theorem leavesOpen_skips (h : Skips (block cap nesting) cap m c) :
    ∃ k, LeavesOpen (k + 1) m.cursor c := by
  cases h with
  | body hkind htext hin => exact ⟨0, leavesOpen_inLoop hkind hin⟩
  | consequent hkind htext htest =>
    exact ⟨0, leavesOpen_test (plain_of_kind_keyword hkind) htest⟩
  | alternative hkind htext htest hbranch helse hopens =>
    have hhead := leavesOpen_test (plain_of_kind_keyword hkind) htest
    obtain ⟨k, hk, -⟩ := leavesOpen_branch (counted_block cap nesting) hhead hbranch
    exact ⟨k, hk.trans (leavesOpen_else helse hopens)⟩

end Walk

/-! ## The course of a run -/

namespace Spot

variable {cap : Int} {s t : Spot} {stop : Stop}

/-- The tokens ahead close all open blocks, and at least one if the spot is in a block. -/
def Covered (s : Spot) : Prop :=
  ∃ depth, s.machine.cursor.Closed depth ∧ (s.inner = true → 1 ≤ depth)

/-- One move keeps the open blocks covered. -/
theorem Covered.next (h : s.Covered) (hnext : Next cap s t) : t.Covered := by
  obtain ⟨depth, hclosed, hinner⟩ := h
  cases hnext with
  | @after inner nesting m m' hactive hstatement =>
    cases hcloses : m.cursor.token.closesBlock with
    | false =>
      obtain ⟨k, hk, -⟩ := Walk.leavesOpen_statementWith (Walk.counted_block cap nesting) hcloses
        hactive.1 hstatement
      exact ⟨depth + k, hclosed.of_leavesOpen hk, fun h => Nat.le_add_right_of_le (hinner h)⟩
    | true =>
      -- Only at the top level is a closing brace no end, and there it is passed over.
      have htop : inner ≠ true := by
        intro h
        have hnot := hactive.2 h
        rw [hcloses] at hnot
        cases hnot
      have hkind := Token.kind_of_closesBlock hcloses
      rw [Walk.statementWith_stray (by simp [hkind]) (by simp [hkind])] at hstatement
      cases hstatement
      obtain ⟨depth', hclosed'⟩ := hclosed.closing hcloses
      exact ⟨depth', hclosed', fun h => absurd h htop⟩
  | into hactive ho =>
    exact ⟨depth + 1, hclosed.of_leavesOpen (Walk.leavesOpen_opens ho),
      fun _ => Nat.le_add_left 1 depth⟩

theorem Covered.reaches (h : s.Covered) (hreaches : Reaches cap s t) : t.Covered := by
  induction hreaches with
  | refl => exact h
  | tail _ hnext ih => exact ih.next hnext

/-- Where the open blocks are covered, none is found unclosed. -/
theorem Covered.family_ne {fault : Fault} (h : s.Covered) (hraises : Raises cap s (.fault fault)) :
    fault.cause.family ≠ .unclosedBlock := by
  obtain ⟨depth, hclosed, hinner⟩ := h
  generalize hstop : Stop.fault fault = stop at hraises
  cases hraises with
  | statement hactive hstops =>
    subst hstop
    obtain ⟨hfamily, -⟩ | ⟨c, d, hc, hskip⟩ := hstops.isOf
    · intro heq
      rw [heq] at hfamily
      exact absurd hfamily (by decide)
    · obtain ⟨k, hk⟩ := Walk.leavesOpen_skips hc
      obtain ⟨d', hskip'⟩ := (hclosed.of_leavesOpen hk).skipBlock
      rw [hskip] at hskip'
      cases hskip'
  | unclosed hend =>
    obtain ⟨depth, rfl⟩ : ∃ d, depth = d + 1 := ⟨depth - 1, by have := hinner rfl; omega⟩
    exact absurd hend hclosed.not_end
  | tooDeep =>
    cases hstop
    exact nofun

end Spot

/-! ## Complete fragments -/

namespace Fragment

variable {source : String} {tokens : List Token}

/-- No string literal and no comment of the text holds a brace. -/
def BracesOutside (source : String) : Prop :=
  ∀ piece ∈ pieces .start source.toList, piece.rule.isEnclosing = true →
    '{' ∉ piece.text ∧ '}' ∉ piece.text

theorem upToFailure_of_not_isFailure {ls : List Lexeme}
    (h : ∀ l ∈ ls, l.rule.isFailure = false) : upToFailure ls = ls := by
  induction ls with
  | nil => rfl
  | cons l ls ih =>
    rw [List.forall_mem_cons] at h
    rw [upToFailure, h.1, ih h.2]
    rfl

/-- In a text with balanced braces outside string literals and comments, the tokens have balanced
braces, too. -/
theorem closed_start (hbraces : BracesOutside source) (hfronts : Fronts 0 source.toList)
    (hcount : source.toList.count '{' = source.toList.count '}')
    (htokens : Token.ofSource source = .ok tokens) : (Cursor.start tokens).Closed 0 := by
  obtain ⟨ls, hcut⟩ := exists_cut source.toList
  have hmem : ∀ l ∈ ls, l.text ∈ l.rule.language := fun l hl => hcut.mem_language hl
  rcases Token.ofSource_cut hcut with ⟨body, hsource, hsound, hmarks⟩ |
    ⟨_, _, _, _, _, _, _, hsource⟩
  · rw [htokens] at hsource
    cases hsource
    have hfailure : ∀ l ∈ ls, l.rule.isFailure = false := fun l hl =>
      (hsound l hl).isFailure (hmem l hl)
    have hpieces := (map_lexeme_pieces hcut .start).trans (upToFailure_of_not_isFailure hfailure)
    have henclosed : ∀ l ∈ ls, l.rule.isEnclosing = true → ∀ c ∈ l.text,
        Rule.notBrace c = true := by
      intro l hl hrule c hc
      rw [← hpieces] at hl
      obtain ⟨piece, hpiece, rfl⟩ := List.mem_map.mp hl
      obtain ⟨hopening, hclosing⟩ := hbraces piece hpiece hrule
      simp only [Rule.notBrace, Bool.and_eq_true, bne_iff_ne]
      exact ⟨fun h => hopening (h ▸ hc), fun h => hclosing (h ▸ hc)⟩
    rw [← hcut.flatMap_text] at hfronts hcount
    obtain ⟨depth, hlevel, hdepth⟩ := level_of_counts hmem hfailure henclosed hmarks hfronts
    obtain rfl : depth = 0 := by omega
    exact ⟨body, _, rfl, rfl, hlevel⟩
  · rw [htokens] at hsource
    cases hsource

/-- **A complete fragment has all its braces.**  If the braces of a text stand outside its string
literals and comments, none is closed before it is opened, and the text passes for complete, then
running it in any session never ends with an unclosed block. -/
theorem not_unclosedBlock_of_isComplete (limits : Limits) (source file : String)
    (session : Session) (hbraces : BracesOutside source)
    (hfronts : ∀ front, front <+: source.toList → front.count '}' ≤ front.count '{')
    (hcomplete : isComplete source = true) :
    ¬ ∃ fault session', Session.run limits source file session = .ok (some fault) session' ∧
      fault.cause.family = .unclosedBlock := by
  rintro ⟨fault, session', hrun, hfamily⟩
  cases htokens : Token.ofSource source with
  | error fault' =>
    rw [Session.run_of_error htokens] at hrun
    cases hrun
    cases (Token.lexical_of_ofSource htokens).1.symm.trans hfamily
  | ok tokens =>
    rw [Session.run_of_ok htokens] at hrun
    have hcount : source.toList.count '{' = source.toList.count '}' := by
      simp only [isComplete, Bool.and_eq_true, beq_iff_eq] at hcomplete
      exact hcomplete.1
    have hclosed : (Cursor.start tokens).Closed 0 :=
      closed_start hbraces (fun front h => by simpa using hfronts front h) hcount htokens
    have hcovered : (session.start limits tokens file).Covered := ⟨0, hclosed, nofun⟩
    have hends := Session.ends_runTokens limits tokens file session
    rw [hrun] at hends
    generalize hr : EStateM.Result.ok (some fault) session' = r at hends
    cases hends with
    | done => cases hr
    | abort => cases hr
    | fault houtcome =>
      cases hr
      obtain ⟨t, hreaches, hraises⟩ := Spot.raises_of_outcome houtcome
      exact (hcovered.reaches hreaches).family_ne hraises hfamily

/-- A conditional over three lines, with an `else` and a comment. -/
def choosing : String :=
  "if 1 == 2 \x7b\n  print(\"a\")\n\x7d else \x7b /* b */ \x7d"

theorem choosing_not_unclosedBlock :
    BracesOutside choosing ∧
      (∀ front, front <+: choosing.toList → front.count '}' ≤ front.count '{') ∧
      isComplete choosing = true ∧
      ¬ ∃ fault session', Session.run ⟨10, 10⟩ choosing "a" {} = .ok (some fault) session' ∧
        fault.cause.family = .unclosedBlock := by
  have hbraces : BracesOutside choosing := by
    unfold BracesOutside
    decide +kernel
  have hfronts : ∀ front, front <+: choosing.toList → front.count '}' ≤ front.count '{' := by
    intro front h
    have hall : ∀ front ∈ choosing.toList.inits, front.count '}' ≤ front.count '{' := by
      decide +kernel
    exact hall front ((List.mem_inits _ _).mpr h)
  have hcomplete : isComplete choosing = true := by decide +kernel
  exact ⟨hbraces, hfronts, hcomplete,
    not_unclosedBlock_of_isComplete ⟨10, 10⟩ choosing "a" {} hbraces hfronts hcomplete⟩

end Fragment

end TokenWalk
