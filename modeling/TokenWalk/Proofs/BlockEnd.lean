import TokenWalk.Proofs.Braces

/-!
# Where a block ends

There are two ways to the end of a block.  Passing over it counts braces; running it stops at the
first closing brace that stands where a statement would start.  An opening brace in such a place
starts no statement and is passed over like any other stray token, so a run can stop early: at the
closing brace that belongs to the stray opening one.

`LeavesOpen k` counts what a piece of a run leaves open, and `Strays` says that a run of a block
takes an opening brace for a statement.  A run leaves nothing open exactly when it does not stray
(`leavesOpen_block`), so straying is exactly what separates the two ways.
-/

namespace TokenWalk

variable {α β : Type}

namespace Cursor

/-- The tokens between the cursors close no block that is open before them, and leave `k` of the
blocks that they open. -/
def LeavesOpen (k : Nat) (c d : Cursor) : Prop :=
  ∃ seg, c.rest = seg ++ d.rest ∧ Token.level 0 seg = some k

theorem LeavesOpen.refl (c : Cursor) : LeavesOpen 0 c c :=
  ⟨[], rfl, rfl⟩

theorem LeavesOpen.trans {j k : Nat} {c d e : Cursor} (hcd : LeavesOpen j c d)
    (hde : LeavesOpen k d e) : LeavesOpen (j + k) c e := by
  obtain ⟨xs, hxs, hj⟩ := hcd
  obtain ⟨ys, hys, hk⟩ := hde
  refine ⟨xs ++ ys, ?_, ?_⟩
  · rw [hxs, hys, List.append_assoc]
  · rw [Token.level_append, hj]
    have hlevel := Token.level_add hk j
    rw [Nat.zero_add, Nat.add_comm k j] at hlevel
    exact hlevel

theorem leavesOpen_plain {c : Cursor} (h : c.token.Plain) : LeavesOpen 0 c c.next :=
  ⟨[c.token], rest_eq_cons h.not_end, Token.level_plain h 0 []⟩

theorem leavesOpen_opening {c : Cursor} (h : c.token.opensBlock = true) :
    LeavesOpen 1 c c.next := by
  have hend : c.token.kind ≠ .endOfInput := by
    rw [Token.kind_of_opensBlock h]
    decide
  exact ⟨[c.token], rest_eq_cons hend, Token.level_opening h 0 []⟩

/-- A closing brace closes one of the blocks left open. -/
theorem LeavesOpen.closing {k : Nat} {c d : Cursor} (hcd : LeavesOpen (k + 1) c d)
    (h : d.token.closesBlock = true) : LeavesOpen k c d.next := by
  obtain ⟨seg, hseg, hlevel⟩ := hcd
  have hend : d.token.kind ≠ .endOfInput := by
    rw [Token.kind_of_closesBlock h]
    decide
  refine ⟨seg ++ [d.token], ?_, ?_⟩
  · rw [hseg, rest_eq_cons hend, List.append_assoc]
    rfl
  · rw [Token.level_append, hlevel]
    exact Token.level_closing h k []

/-- Passing over a block closes one of the blocks left open. -/
theorem LeavesOpen.skipping {k : Nat} {c d e : Cursor} (hcd : LeavesOpen (k + 1) c d)
    (h : Reading.skipBlock d = .ok () e) : LeavesOpen k c e := by
  obtain ⟨seg, hseg, hlevel⟩ := hcd
  obtain ⟨inner, t, hinner, ht, hzero⟩ := Reading.level_of_skipBlock h
  refine ⟨seg ++ (inner ++ [t]), ?_, ?_⟩
  · rw [hseg, hinner]
    simp only [List.append_assoc, List.cons_append, List.nil_append]
  · have hdeep := Token.level_add hzero (k + 1)
    rw [Nat.zero_add] at hdeep
    rw [Token.level_append, hlevel, Option.bind_some, Token.level_append, hdeep]
    exact Token.level_closing ht k []

theorem LeavesOpen.unique {j k : Nat} {c d : Cursor} (hj : LeavesOpen j c d)
    (hk : LeavesOpen k c d) : j = k := by
  obtain ⟨xs, hxs, hxlevel⟩ := hj
  obtain ⟨ys, hys, hylevel⟩ := hk
  have heq : xs = ys := List.append_cancel_right (hxs.symm.trans hys)
  rw [heq, hylevel] at hxlevel
  exact (Option.some.inj hxlevel).symm

/-- Behind the end of a block, more is closed than was opened since the block began. -/
theorem not_leavesOpen_of_skipBlock {k : Nat} {c d e : Cursor}
    (hskip : Reading.skipBlock c = .ok () d) (honward : d.Onward e) : ¬ LeavesOpen k c e := by
  rintro ⟨xs, hxs, hxlevel⟩
  obtain ⟨inner, t, hinner, ht, hzero⟩ := Reading.level_of_skipBlock hskip
  obtain ⟨ys, hys⟩ := honward.suffix
  have heq : xs = inner ++ t :: ys := by
    apply List.append_cancel_right (hxs.symm.trans _)
    rw [hinner, ← hys, List.append_assoc]
    rfl
  rw [heq, Token.level_append, hzero, Option.bind_some, Token.level_zero_closing ht] at hxlevel
  cases hxlevel

/-- Passing over the block from the first cursor ends behind the closing brace at the second one
exactly when nothing in between is left open. -/
theorem LeavesOpen.skipBlock_iff {k : Nat} {c d : Cursor} (h : LeavesOpen k c d)
    (honward : c.Onward d) (hcloses : d.token.closesBlock = true) :
    Reading.skipBlock c = .ok () d.next ↔ k = 0 := by
  obtain ⟨seg, hseg, hlevel⟩ := h
  have hend : d.token.kind ≠ .endOfInput := by
    rw [Token.kind_of_closesBlock hcloses]
    decide
  rw [rest_eq_cons hend] at hseg
  constructor
  · intro hskip
    obtain ⟨inner, t, hinner, -, hzero⟩ := Reading.level_of_skipBlock hskip
    have hsplit : seg ++ d.token :: d.next.rest = inner ++ t :: d.next.rest :=
      hseg.symm.trans hinner
    obtain ⟨rfl, -⟩ := List.append_inj' hsplit rfl
    rw [hlevel] at hzero
    exact Option.some.inj hzero
  · rintro rfl
    obtain ⟨e, hce, he, hskip⟩ := Reading.skipBlock_of_level hlevel hcloses hseg
    have heq : e = d.next :=
      ext_rest (hce.tokens_eq.trans honward.tokens_eq.symm) he
    rw [hskip, heq]

end Cursor

open Cursor (LeavesOpen)

/-! ## Expressions hold no braces -/

namespace Reading

/-- The reading takes no brace, if it ends with a value. -/
def Flat (x : Reading α) : Prop :=
  ∀ c, Meets (fun _ d => LeavesOpen 0 c d) (fun _ _ => True) (x c)

theorem Flat.bind {x : Reading α} {f : α → Reading β} (hx : Flat x) (hf : ∀ a, Flat (f a)) :
    Flat (x >>= f) := by
  intro c
  refine (hx c).bind fun a d hd => ?_
  exact (hf a d).mono (fun _ _ he => hd.trans he) (fun _ _ _ => trivial)

theorem flat_pure (a : α) : Flat (pure a) := fun c => .refl c

theorem flat_fail (token : Token) (cause : Cause) : Flat (fail token cause : Reading α) :=
  fun _ => trivial

theorem flat_get_bind {f : Cursor → Reading β} (hf : ∀ c, Flat (f c)) : Flat (get >>= f) :=
  fun c => hf c c

/-- The same of a reading that starts at the given token. -/
def FlatAt (token : Token) (x : Reading α) : Prop :=
  ∀ c, c.token = token → Meets (fun _ d => LeavesOpen 0 c d) (fun _ _ => True) (x c)

theorem Flat.at {x : Reading α} (hx : Flat x) (token : Token) : FlatAt token x :=
  fun c _ => hx c

theorem flat_current_bind {f : Token → Reading β} (hf : ∀ token, FlatAt token (f token)) :
    Flat (current >>= f) :=
  fun c => hf c.token c rfl

theorem flatAt_advance_bind {token : Token} {f : Token → Reading β} (hplain : token.Plain)
    (hf : ∀ t, Flat (f t)) : FlatAt token (advance >>= f) := by
  rintro c rfl
  rw [bind_of_ok (advance_apply c)]
  refine (hf c.token c.next).mono (fun _ _ he => ?_) (fun _ _ _ => trivial)
  exact (Cursor.leavesOpen_plain hplain).trans he

theorem flat_ofExcept (token : Token) (r : Except Stop α) : Flat (ofExcept token r) := by
  cases r with
  | ok a => exact flat_pure a
  | error stop => exact fun _ => trivial

theorem flat_expect {kind : Kind} {text? : Option String}
    (h : ∀ t : Token, t.is kind text? = true → t.Plain) : Flat (expect kind text?) := by
  intro c
  rw [expect_apply]
  split
  next hc => exact Cursor.leavesOpen_plain (h c.token hc)
  next => trivial

theorem flat_term (scopes : Scopes) : Flat (term scopes) := by
  refine flat_current_bind fun token => ?_
  split
  next hvalue => exact flatAt_advance_bind (plain_of_value? hvalue) fun _ => flat_ofExcept _ _
  next => exact (flat_fail _ _).at token

theorem flat_operations (scopes : Scopes) (bound : List Token) (left : Value) :
    Flat (operations scopes bound left) := by
  induction bound generalizing left with
  | nil => exact flat_pure left
  | cons _ bound ih =>
    refine flat_current_bind fun token => ?_
    split
    next hjoins =>
      have hplain : token.Plain := by
        simp only [joins, Bool.and_eq_true, beq_iff_eq] at hjoins
        exact plain_of_operator hjoins.1
      refine flatAt_advance_bind hplain fun _ => ?_
      split
      · exact flat_fail _ _
      · refine (flat_term scopes).bind fun _ => ?_
        exact (flat_ofExcept _ _).bind fun _ => ih _
    next => exact (flat_pure left).at token

theorem flat_expression (scopes : Scopes) : Flat (expression scopes) :=
  (flat_term scopes).bind fun _ => flat_get_bind fun _ => flat_operations _ _ _

theorem flat_condition (scopes : Scopes) : Flat (condition scopes) := by
  refine (flat_expression scopes).bind fun _ => flat_current_bind fun token => ?_
  split
  next hkind _ =>
    refine flatAt_advance_bind (plain_of_operator hkind) fun _ => ?_
    exact (flat_expression scopes).bind fun _ => flat_ofExcept _ _
  next => exact (flat_fail _ _).at token

end Reading

/-! ## Statements without blocks -/

namespace Walk

/-- The walk takes no brace, if it ends with a value. -/
def Flat (w : Walk α) : Prop :=
  ∀ m, Meets (fun _ m' => LeavesOpen 0 m.cursor m'.cursor) (fun _ _ => True) (w m)

theorem Flat.bind {x : Walk α} {f : α → Walk β} (hx : Flat x) (hf : ∀ a, Flat (f a)) :
    Flat (x >>= f) := by
  intro m
  refine (hx m).bind fun a m' hm' => ?_
  exact (hf a m').mono (fun _ _ he => hm'.trans he) (fun _ _ _ => trivial)

theorem flat_get_bind {f : Machine → Walk β} (hf : ∀ m, Flat (f m)) : Flat (get >>= f) :=
  fun m => hf m m

theorem flat_read {x : Reading α} (hx : x.Flat) : Flat (read x) := by
  intro m
  have h := hx m.cursor
  unfold read
  cases hr : x m.cursor with
  | ok a c =>
    rw [hr] at h
    exact h
  | error e c => trivial

theorem flat_modify {f : Machine → Machine} (hf : ∀ m, (f m).cursor = m.cursor) :
    Flat (modify f) := by
  intro m
  show LeavesOpen 0 m.cursor (f m).cursor
  rw [hf]
  exact .refl _

theorem flat_expression : Flat expression :=
  flat_get_bind fun _ => flat_read (Reading.flat_expression _)

theorem flat_condition : Flat condition :=
  flat_get_bind fun _ => flat_read (Reading.flat_condition _)

theorem flat_identifier : Flat (read (.expect .identifier none)) := by
  refine flat_read (Reading.flat_expect fun t ht => ?_)
  simp only [Token.is, Bool.and_eq_true, beq_iff_eq] at ht
  exact Token.plain_of_kind (by simp [ht.1]) (by simp [ht.1])

theorem flat_equals : Flat (read (.expect .operator (some "="))) := by
  refine flat_read (Reading.flat_expect fun t ht => ?_)
  simp only [Token.is, Bool.and_eq_true, beq_iff_eq] at ht
  exact Reading.plain_of_operator ht.1

theorem flat_mark {text : String} (hopening : text ≠ "\x7b") (hclosing : text ≠ "\x7d") :
    Flat (read (.expect .punctuation (some text))) := by
  refine flat_read (Reading.flat_expect fun t ht => ?_)
  simp only [Token.is, Option.all_some, Bool.and_eq_true, beq_iff_eq] at ht
  obtain ⟨hkind, rfl⟩ := ht
  refine ⟨by simp [hkind], ?_, ?_⟩
  · simp [Token.opensBlock, Token.is, hopening]
  · simp [Token.closesBlock, Token.is, hclosing]

/-- The statement under the cursor takes no brace, if its first token is none and what follows takes
none. -/
theorem meets_advance_bind {f : Token → Walk β} {m : Machine} (hplain : m.cursor.token.Plain)
    (hf : ∀ token, Flat (f token)) :
    Meets (fun _ m' => LeavesOpen 0 m.cursor m'.cursor) (fun _ _ => True)
      ((read .advance >>= f) m) := by
  rw [bind_of_ok (read_advance m)]
  refine (hf m.cursor.token _).mono (fun _ _ he => ?_) (fun _ _ _ => trivial)
  exact (Cursor.leavesOpen_plain hplain).trans he

theorem meets_declaration {m : Machine} (hplain : m.cursor.token.Plain) :
    Meets (fun _ m' => LeavesOpen 0 m.cursor m'.cursor) (fun _ _ => True) (declaration m) := by
  refine meets_advance_bind hplain fun _ => ?_
  refine flat_identifier.bind fun name => flat_equals.bind fun _ => ?_
  refine flat_expression.bind fun value => flat_get_bind fun m => ?_
  split
  · exact fun _ => trivial
  · refine Flat.bind ?_ fun _ => flat_modify fun _ => rfl
    exact flat_modify fun _ => rfl

theorem meets_assignment {m : Machine} (hplain : m.cursor.token.Plain) :
    Meets (fun _ m' => LeavesOpen 0 m.cursor m'.cursor) (fun _ _ => True) (assignment m) := by
  unfold assignment
  rw [bind_of_ok (read_current m), bind_of_ok (get_apply m)]
  split
  · trivial
  · refine meets_advance_bind hplain fun _ => flat_equals.bind fun _ => ?_
    refine flat_expression.bind fun value => flat_get_bind fun m => ?_
    split
    · exact fun _ => trivial
    · refine Flat.bind ?_ fun _ => flat_modify fun _ => rfl
      exact flat_modify fun _ => rfl

theorem meets_printing {m : Machine} (hplain : m.cursor.token.Plain) :
    Meets (fun _ m' => LeavesOpen 0 m.cursor m'.cursor) (fun _ _ => True) (printing m) := by
  refine meets_advance_bind hplain fun _ => ?_
  refine (flat_mark (by decide) (by decide)).bind fun _ => ?_
  refine flat_expression.bind fun value => ?_
  refine (flat_mark (by decide) (by decide)).bind fun _ => ?_
  exact flat_modify fun _ => rfl

/-! ## Loops and conditionals -/

/-- The head of a loop or a conditional opens one block. -/
theorem leavesOpen_head {m m₁ m₂ : Machine} {holds : Bool} (hplain : m.cursor.token.Plain)
    (hcondition : condition { m with cursor := m.cursor.next } = .ok holds m₁)
    (hopen : read .openBrace m₁ = .ok () m₂) : LeavesOpen 1 m.cursor m₂.cursor := by
  have hnext := Cursor.leavesOpen_plain hplain
  have htaken := (flat_condition { m with cursor := m.cursor.next }).of_ok hcondition
  obtain ⟨hopens, rfl⟩ := read_openBrace_ok_iff.mp hopen
  exact (hnext.trans htaken).trans (Cursor.leavesOpen_opening hopens)

/-- A loop ends by passing over its body, however the rounds went. -/
theorem leavesOpen_loop {block : Walk Unit} {cap : Int} {m m' : Machine}
    (hplain : m.cursor.token.Plain) (h : loop block cap m = .ok () m') :
    LeavesOpen 0 m.cursor m'.cursor := by
  unfold loop at h
  rw [bind_of_ok (read_advance m), bind_of_ok (get_apply _)] at h
  obtain ⟨holds, m₁, hcondition, h⟩ := bind_ok_iff.mp h
  obtain ⟨_, m₂, hopen, h⟩ := bind_ok_iff.mp h
  rw [bind_of_ok (get_apply m₂)] at h
  obtain ⟨left, m₃, -, h⟩ := bind_ok_iff.mp h
  obtain ⟨c, hskip, rfl⟩ := read_ok_iff.mp (h : read .skipBlock { m₃ with
    journal := m₃.journal.push _, cursor := m₂.cursor } = _)
  exact (leavesOpen_head hplain hcondition hopen).skipping hskip

theorem leavesOpen_test {m m' : Machine} {holds : Bool} (hplain : m.cursor.token.Plain)
    (h : test m = .ok holds m') : LeavesOpen 1 m.cursor m'.cursor := by
  unfold test at h
  rw [bind_of_ok (read_advance m)] at h
  obtain ⟨holds', m₁, hcondition, h⟩ := bind_ok_iff.mp h
  obtain ⟨_, m₂, hopen, h⟩ := bind_ok_iff.mp h
  cases h
  exact (leavesOpen_head hplain hcondition hopen : LeavesOpen 1 m.cursor m₂.cursor)

/-! ## Straying -/

/-- The conditional under the cursor runs a branch, which begins at the second machine. -/
inductive Enters (m : Machine) : Machine → Prop where
  | consequent {e : Machine} (htest : test m = .ok true e) :
      Enters m { e with scopes := e.scopes.push }
  | alternative {e e₁ : Machine} (htest : test m = .ok false e)
      (hskip : read .skipBlock e = .ok () e₁)
      (helse : e₁.cursor.token.is .keyword (some "else") = true)
      (hopens : e₁.cursor.next.token.opensBlock = true) :
      Enters m { e₁ with scopes := e₁.scopes.push, cursor := e₁.cursor.next.next }

/-- Run from the machine, a block takes an opening brace for a statement: among its own statements
or in a branch that it runs.  What happens in the body of a loop does not count, because a loop ends
by passing over its body. -/
inductive Strays (cap : Int) : (nesting : Nat) → Machine → Prop where
  | opening {nesting : Nat} {m : Machine} (hopens : m.cursor.token.opensBlock = true) :
      Strays cap (nesting + 1) m
  | inside {nesting : Nat} {m e : Machine} (hif : m.cursor.token.is .keyword (some "if") = true)
      (henters : Enters m e) (hinside : Strays cap nesting e) : Strays cap (nesting + 1) m
  | later {nesting : Nat} {m m' : Machine} (hcloses : m.cursor.token.closesBlock = false)
      (hend : m.cursor.token.kind ≠ .endOfInput)
      (hstatement : statementWith (block cap nesting) cap m = .ok () m')
      (hlater : Strays cap (nesting + 1) m') : Strays cap (nesting + 1) m

/-- The same of the one statement under the cursor. -/
def StraysAt (cap : Int) (nesting : Nat) (m : Machine) : Prop :=
  m.cursor.token.opensBlock = true ∨
    m.cursor.token.is .keyword (some "if") = true ∧ ∃ e, Enters m e ∧ Strays cap nesting e

theorem Enters.unique {m e e' : Machine} (h : Enters m e) (h' : Enters m e') : e = e' := by
  cases h with
  | consequent htest =>
    cases h' with
    | consequent htest' =>
      rw [htest] at htest'
      cases htest'
      rfl
    | alternative htest' =>
      rw [htest] at htest'
      cases htest'
  | alternative htest hskip =>
    cases h' with
    | consequent htest' =>
      rw [htest] at htest'
      cases htest'
    | alternative htest' hskip' =>
      rw [htest] at htest'
      cases htest'
      rw [hskip] at hskip'
      cases hskip'
      rfl

theorem exists_enters_iff {cap : Int} {nesting : Nat} {m e : Machine} (h : Enters m e) :
    (∃ e', Enters m e' ∧ Strays cap nesting e') ↔ Strays cap nesting e := by
  constructor
  · rintro ⟨e', henters, hstrays⟩
    rw [h.unique henters]
    exact hstrays
  · intro hstrays
    exact ⟨e, h, hstrays⟩

/-- A block that is at its end does not stray. -/
theorem not_strays_of_closesBlock {cap : Int} {nesting : Nat} {m : Machine}
    (hcloses : m.cursor.token.closesBlock = true) : ¬ Strays cap nesting m := by
  intro h
  cases h with
  | opening hopens =>
    rw [Token.not_opensBlock_of_closesBlock hcloses] at hopens
    cases hopens
  | inside hif =>
    simp [Token.is, Token.kind_of_closesBlock hcloses] at hif
  | later hnot =>
    rw [hcloses] at hnot
    cases hnot

/-- A block strays at its first statement or after it. -/
theorem strays_iff {cap : Int} {nesting : Nat} {m m' : Machine}
    (hcloses : m.cursor.token.closesBlock = false) (hend : m.cursor.token.kind ≠ .endOfInput)
    (hstatement : statementWith (block cap nesting) cap m = .ok () m') :
    Strays cap (nesting + 1) m ↔ StraysAt cap nesting m ∨ Strays cap (nesting + 1) m' := by
  constructor
  · intro h
    cases h with
    | opening hopens => exact .inl (.inl hopens)
    | inside hif henters hinside => exact .inl (.inr ⟨hif, _, henters, hinside⟩)
    | later _ _ hother hlater =>
      rw [hstatement] at hother
      cases hother
      exact .inr hlater
  · rintro ((hopens | ⟨hif, e, henters, hinside⟩) | hlater)
    · exact .opening hopens
    · exact .inside hif henters hinside
    · exact .later hcloses hend hstatement hlater

/-! ## What a run leaves open -/

/-- A block ends at a closing brace, and it has left something open exactly if it strayed. -/
def Counted (cap : Int) (nesting : Nat) : Prop :=
  ∀ ⦃m m' : Machine⦄, block cap nesting m = .ok () m' →
    m'.cursor.token.closesBlock = true ∧
      ∃ k, LeavesOpen k m.cursor m'.cursor ∧ (Strays cap nesting m ↔ k ≠ 0)

section Counting

variable {cap : Int} {nesting : Nat} {m m' : Machine}

/-- A branch takes the closing brace at which its block ends. -/
theorem branch_ok_iff {block : Walk Unit} :
    branch block m = .ok () m' ↔
      ∃ m₁, block { m with scopes := m.scopes.push } = .ok () m₁ ∧
        m₁.cursor.token.closesBlock = true ∧
        m' = { m₁ with scopes := m₁.scopes.pop, cursor := m₁.cursor.next } := by
  unfold branch
  rw [inFrame_ok_iff]
  constructor
  · rintro ⟨m₂, h, rfl⟩
    obtain ⟨_, m₁, hblock, hclose⟩ := bind_ok_iff.mp h
    obtain ⟨hcloses, rfl⟩ := read_closeBrace_ok_iff.mp hclose
    exact ⟨m₁, hblock, hcloses, rfl⟩
  · rintro ⟨m₁, hblock, hcloses, rfl⟩
    refine ⟨{ m₁ with cursor := m₁.cursor.next }, ?_, rfl⟩
    rw [bind_of_ok hblock]
    exact read_closeBrace_ok_iff.mpr ⟨hcloses, rfl⟩

theorem leavesOpen_branch (hcounted : Counted cap nesting) {c : Cursor}
    (hc : LeavesOpen 1 c m.cursor) (h : branch (block cap nesting) m = .ok () m') :
    ∃ k, LeavesOpen k c m'.cursor ∧
      (Strays cap nesting { m with scopes := m.scopes.push } ↔ k ≠ 0) := by
  obtain ⟨m₁, hblock, hcloses, rfl⟩ := branch_ok_iff.mp h
  obtain ⟨-, k, hk, hstrays⟩ := hcounted hblock
  have hall : LeavesOpen (k + 1) c m₁.cursor := by
    rw [Nat.add_comm]
    exact hc.trans hk
  exact ⟨k, hall.closing hcloses, hstrays⟩

theorem plain_of_keyword {t : Token} {text? : Option String} (h : t.is .keyword text? = true) :
    t.Plain := by
  simp only [Token.is, Bool.and_eq_true, beq_iff_eq] at h
  exact Token.plain_of_kind (by simp [h.1]) (by simp [h.1])

/-- An `else` and the opening brace after it open one block. -/
theorem leavesOpen_else {c : Cursor} (helse : c.token.is .keyword (some "else") = true)
    (hopens : c.next.token.opensBlock = true) : LeavesOpen 1 c c.next.next :=
  (Cursor.leavesOpen_plain (plain_of_keyword helse)).trans (Cursor.leavesOpen_opening hopens)

theorem leavesOpen_alternative_skipBlock (h : alternative (read .skipBlock) m = .ok () m') :
    LeavesOpen 0 m.cursor m'.cursor := by
  rcases alternative_ok_iff.mp h with ⟨-, rfl⟩ | ⟨helse, hopens, hskip⟩
  · exact .refl _
  · obtain ⟨d, hskipped, rfl⟩ := read_ok_iff.mp hskip
    exact (leavesOpen_else helse hopens).skipping hskipped

/-- A conditional leaves something open exactly if the branch it runs strays. -/
theorem leavesOpen_conditional (hcounted : Counted cap nesting) (hplain : m.cursor.token.Plain)
    (h : conditional (block cap nesting) m = .ok () m') :
    ∃ k, LeavesOpen k m.cursor m'.cursor ∧
      ((∃ e, Enters m e ∧ Strays cap nesting e) ↔ k ≠ 0) := by
  rw [conditional_eq] at h
  obtain ⟨holds, e, htest, hsettle⟩ := bind_ok_iff.mp h
  have hhead := leavesOpen_test hplain htest
  cases holds with
  | true =>
    obtain ⟨_, m₁, hbranch, hrest⟩ := bind_ok_iff.mp hsettle
    obtain ⟨k, hk, hstrays⟩ := leavesOpen_branch hcounted hhead hbranch
    refine ⟨k, hk.trans (leavesOpen_alternative_skipBlock hrest), ?_⟩
    rw [exists_enters_iff (.consequent htest)]
    exact hstrays
  | false =>
    obtain ⟨_, e₁, hskip, hrest⟩ := bind_ok_iff.mp hsettle
    obtain ⟨d, hskipped, rfl⟩ := read_ok_iff.mp hskip
    have hpassed := hhead.skipping hskipped
    rcases alternative_ok_iff.mp hrest with ⟨helse, rfl⟩ | ⟨helse, hopens, hbranch⟩
    · refine ⟨0, hpassed, ?_⟩
      simp only [ne_eq, not_true_eq_false, iff_false]
      rintro ⟨_, henters, -⟩
      -- Without an `else` the conditional runs no branch.
      cases henters with
      | consequent htest' =>
        rw [htest] at htest'
        cases htest'
      | alternative htest' hskip' helse' =>
        rw [htest] at htest'
        cases htest'
        rw [hskip] at hskip'
        cases hskip'
        rw [helse] at helse'
        cases helse'
    · have hopened := hpassed.trans (leavesOpen_else helse hopens)
      obtain ⟨k, hk, hstrays⟩ := leavesOpen_branch hcounted hopened hbranch
      refine ⟨k, hk, ?_⟩
      rw [exists_enters_iff (.alternative htest hskip helse hopens)]
      exact hstrays

/-- A statement leaves something open exactly if it strays. -/
theorem leavesOpen_statementWith (hcounted : Counted cap nesting)
    (hcloses : m.cursor.token.closesBlock = false) (hend : m.cursor.token.kind ≠ .endOfInput)
    (h : statementWith (block cap nesting) cap m = .ok () m') :
    ∃ k, LeavesOpen k m.cursor m'.cursor ∧ (StraysAt cap nesting m ↔ k ≠ 0) := by
  -- All statements but stray tokens start with a plain one; only an `if` can stray behind it.
  have hflat : m.cursor.token.opensBlock = false →
      m.cursor.token.is .keyword (some "if") = false → LeavesOpen 0 m.cursor m'.cursor →
      ∃ k, LeavesOpen k m.cursor m'.cursor ∧ (StraysAt cap nesting m ↔ k ≠ 0) := by
    intro hopens hif hm'
    exact ⟨0, hm', by simp [StraysAt, hopens, hif]⟩
  have hdispatch := dispatch (block cap nesting) cap m
  rw [h] at hdispatch
  generalize hr : EStateM.Result.ok () m' = r at hdispatch
  cases hdispatch with
  | declaration hkind htext =>
    have hplain : m.cursor.token.Plain := Token.plain_of_kind hend (by simp [hkind])
    refine hflat hplain.not_opening ?_ ((meets_declaration hplain).of_ok hr.symm)
    rcases htext with htext | htext
    · simp [Token.is, htext]
    · simp [Token.is, htext]
  | printing hkind htext =>
    have hplain : m.cursor.token.Plain := Token.plain_of_kind hend (by simp [hkind])
    refine hflat hplain.not_opening ?_ ((meets_printing hplain).of_ok hr.symm)
    simp [Token.is, htext]
  | loop hkind htext =>
    have hplain : m.cursor.token.Plain := Token.plain_of_kind hend (by simp [hkind])
    refine hflat hplain.not_opening ?_ (leavesOpen_loop hplain hr.symm)
    simp [Token.is, htext]
  | conditional hkind htext =>
    have hplain : m.cursor.token.Plain := Token.plain_of_kind hend (by simp [hkind])
    obtain ⟨k, hk, hstrays⟩ := leavesOpen_conditional hcounted hplain hr.symm
    have hif : m.cursor.token.is .keyword (some "if") = true := by simp [Token.is, hkind, htext]
    refine ⟨k, hk, ?_⟩
    unfold StraysAt
    rw [hplain.not_opening, hif]
    simpa using hstrays
  | unhandled => cases hr
  | assignment hkind =>
    have hplain : m.cursor.token.Plain := Token.plain_of_kind hend (by simp [hkind])
    refine hflat hplain.not_opening ?_ ((meets_assignment hplain).of_ok hr.symm)
    simp [Token.is, hkind]
  | stray hkeyword =>
    cases hr
    cases hopens : m.cursor.token.opensBlock with
    | true => exact ⟨1, Cursor.leavesOpen_opening hopens, by simp [StraysAt, hopens]⟩
    | false =>
      refine hflat hopens ?_ (Cursor.leavesOpen_plain ⟨hend, hopens, hcloses⟩)
      simp [Token.is, hkeyword]

/-- The statements of a block leave something open exactly if they stray.  The induction is on the
bound, which a run that ends does not use up. -/
theorem counted_untilBrace (hcounted : Counted cap nesting) (bound : List Token)
    (h : untilBrace (statementWith (block cap nesting) cap) bound m = .ok () m') :
    m'.cursor.token.closesBlock = true ∧
      ∃ k, LeavesOpen k m.cursor m'.cursor ∧ (Strays cap (nesting + 1) m ↔ k ≠ 0) := by
  induction bound generalizing m with
  | nil => cases h
  | cons b bound ih =>
    cases hcloses : m.cursor.token.closesBlock with
    | true =>
      rw [untilBrace_closing hcloses] at h
      cases h
      exact ⟨hcloses, 0, .refl _, by simp [not_strays_of_closesBlock hcloses]⟩
    | false =>
      by_cases hend : m.cursor.token.kind = .endOfInput
      · rw [untilBrace_end hend] at h
        cases h
      · rw [untilBrace_step hcloses hend] at h
        obtain ⟨_, m₁, hstatement, hrest⟩ := bind_ok_iff.mp h
        obtain ⟨j, hj, hat⟩ := leavesOpen_statementWith hcounted hcloses hend hstatement
        obtain ⟨hclosed, k, hk, hstrays⟩ := ih hrest
        refine ⟨hclosed, j + k, hj.trans hk, ?_⟩
        rw [strays_iff hcloses hend hstatement, hat, hstrays]
        omega

end Counting

/-- Blocks at every depth leave something open exactly if they stray. -/
theorem counted_block (cap : Int) (nesting : Nat) : Counted cap nesting := by
  induction nesting with
  | zero =>
    intro m m' h
    cases h
  | succ nesting ih =>
    intro m m' h
    exact counted_untilBrace ih m.cursor.rest h

/-- Passing over a block ends behind the closing brace at which a run of it ends, exactly if the run
does not stray. -/
theorem skipBlock_iff_of_block {cap : Int} {nesting : Nat} {m m' : Machine}
    (h : block cap nesting m = .ok () m') :
    Reading.skipBlock m.cursor = .ok () m'.cursor.next ↔ ¬ Strays cap nesting m := by
  obtain ⟨hcloses, k, hk, hstrays⟩ := counted_block cap nesting h
  have honward : m.cursor.Onward m'.cursor :=
    (forward_block cap nesting m.cursor m (.refl _)).of_ok h
  rw [hk.skipBlock_iff honward hcloses, hstrays]
  omega

/-- Passing over a block ends where a run of it in a frame of its own ends, exactly if the run does
not stray. -/
theorem skipBlock_iff_of_branch {cap : Int} {nesting : Nat} {m m' : Machine}
    (h : branch (block cap nesting) m = .ok () m') :
    Reading.skipBlock m.cursor = .ok () m'.cursor ↔
      ¬ Strays cap nesting { m with scopes := m.scopes.push } := by
  obtain ⟨m₁, hblock, -, rfl⟩ := branch_ok_iff.mp h
  exact skipBlock_iff_of_block hblock

end Walk

/-! ## Readings that keep abreast

Which tokens an expression takes does not depend on the values in it. -/

namespace Reading

/-- Started together, the two readings end together, if both end with a value. -/
def Abreast (x : Reading α) (y : Reading β) : Prop :=
  ∀ ⦃c d e : Cursor⦄ ⦃a : α⦄ ⦃b : β⦄, x c = .ok a d → y c = .ok b e → d = e

variable {γ δ : Type}

theorem Abreast.bind {x : Reading α} {y : Reading β} {f : α → Reading γ} {g : β → Reading δ}
    (hxy : Abreast x y) (hfg : ∀ a b, Abreast (f a) (g b)) : Abreast (x >>= f) (y >>= g) := by
  intro c d e _ _ hx hy
  obtain ⟨a, c₁, hxc, hf⟩ := bind_ok_iff.mp hx
  obtain ⟨b, c₂, hyc, hg⟩ := bind_ok_iff.mp hy
  cases hxy hxc hyc
  exact hfg a b hf hg

theorem abreast_self (x : Reading α) : Abreast x x := by
  intro c d e a b hx hy
  rw [hx] at hy
  cases hy
  rfl

/-- Both look at the same token. -/
theorem abreast_current_bind {f : Token → Reading γ} {g : Token → Reading δ}
    (hfg : ∀ token, Abreast (f token) (g token)) : Abreast (current >>= f) (current >>= g) :=
  fun c _ _ _ _ hf hg => hfg c.token hf hg

theorem abreast_get_bind {f : Cursor → Reading γ} {g : Cursor → Reading δ}
    (hfg : ∀ c, Abreast (f c) (g c)) : Abreast (get >>= f) (get >>= g) :=
  fun c _ _ _ _ hf hg => hfg c hf hg

theorem abreast_fail {token : Token} {cause : Cause} {y : Reading β} :
    Abreast (fail token cause : Reading α) y := by
  intro c d e a b hx
  cases hx

theorem abreast_ofExcept (token : Token) (r : Except Stop α) (r' : Except Stop β) :
    Abreast (ofExcept token r) (ofExcept token r') := by
  intro c d e a b hx hy
  cases r with
  | error => cases hx
  | ok =>
    cases r' with
    | error => cases hy
    | ok =>
      cases hx
      cases hy
      rfl

theorem abreast_term (scopes scopes' : Scopes) : Abreast (term scopes) (term scopes') := by
  refine abreast_current_bind fun token => ?_
  cases token.value? scopes with
  | none => exact abreast_fail
  | some r =>
    cases token.value? scopes' with
    | none =>
      intro c d e a b _ hy
      cases hy
    | some r' => exact (abreast_self advance).bind fun _ _ => abreast_ofExcept token r r'

theorem abreast_operations (scopes scopes' : Scopes) (bound : List Token) (left left' : Value) :
    Abreast (operations scopes bound left) (operations scopes' bound left') := by
  induction bound generalizing left left' with
  | nil =>
    intro c d e a b hx hy
    cases hx
    cases hy
    rfl
  | cons _ bound ih =>
    refine abreast_current_bind fun token => ?_
    split
    · refine (abreast_self advance).bind fun _ _ => ?_
      split
      · exact abreast_fail
      · refine (abreast_term scopes scopes').bind fun _ _ => ?_
        exact (abreast_ofExcept token _ _).bind fun _ _ => ih _ _
    · intro c d e a b hx hy
      cases hx
      cases hy
      rfl

theorem abreast_expression (scopes scopes' : Scopes) :
    Abreast (expression scopes) (expression scopes') := by
  refine (abreast_term scopes scopes').bind fun _ _ => abreast_get_bind fun c => ?_
  exact abreast_operations scopes scopes' c.rest _ _

theorem abreast_condition (scopes scopes' : Scopes) :
    Abreast (condition scopes) (condition scopes') := by
  refine (abreast_expression scopes scopes').bind fun _ _ => abreast_current_bind fun token => ?_
  split
  · refine (abreast_self advance).bind fun _ _ => ?_
    exact (abreast_expression scopes scopes').bind fun _ _ => abreast_ofExcept token _ _
  · exact abreast_fail

end Reading

namespace Walk

/-- The head of a conditional ends at the same token whatever its condition gives. -/
theorem cursor_eq_of_test {m₁ m₂ e₁ e₂ : Machine} {holds₁ holds₂ : Bool}
    (hcursor : m₁.cursor = m₂.cursor) (h₁ : test m₁ = .ok holds₁ e₁)
    (h₂ : test m₂ = .ok holds₂ e₂) : e₁.cursor = e₂.cursor := by
  have hreads : ∀ {m e : Machine} {holds : Bool}, test m = .ok holds e →
      ∃ c d, Reading.condition m.scopes m.cursor.next = .ok holds c ∧
        Reading.openBrace c = .ok () d ∧ e.cursor = d := by
    intro m e holds h
    unfold test at h
    rw [bind_of_ok (read_advance m)] at h
    obtain ⟨holds', m₁, hcondition, h⟩ := bind_ok_iff.mp h
    obtain ⟨c, hc, rfl⟩ := read_ok_iff.mp hcondition
    obtain ⟨_, m₂, hopen, h⟩ := bind_ok_iff.mp h
    obtain ⟨d, hd, rfl⟩ := read_ok_iff.mp hopen
    cases h
    exact ⟨c, d, hc, hd, rfl⟩
  obtain ⟨c₁, d₁, hc₁, hd₁, rfl⟩ := hreads h₁
  obtain ⟨c₂, d₂, hc₂, hd₂, rfl⟩ := hreads h₂
  rw [hcursor] at hc₁
  cases Reading.abreast_condition _ _ hc₁ hc₂
  exact Reading.abreast_self _ hd₁ hd₂

/-- Let the condition of a conditional hold in one run and fail in another.  The two runs end at the
same token exactly if neither of the branches they run strays. -/
theorem conditional_end_eq_iff {cap : Int} {nesting : Nat} {m₁ m₂ e₁ e₂ m₁' m₂' : Machine}
    (hcursor : m₁.cursor = m₂.cursor) (hif : m₁.cursor.token.is .keyword (some "if") = true)
    (htest₁ : test m₁ = .ok true e₁) (htest₂ : test m₂ = .ok false e₂)
    (h₁ : conditional (block cap nesting) m₁ = .ok () m₁')
    (h₂ : conditional (block cap nesting) m₂ = .ok () m₂') :
    m₁'.cursor = m₂'.cursor ↔ ∀ e, Enters m₁ e ∨ Enters m₂ e → ¬ Strays cap nesting e := by
  have hplain : m₁.cursor.token.Plain := plain_of_keyword hif
  have hcounted := counted_block cap nesting
  obtain ⟨k₁, hk₁, hstrays₁⟩ := leavesOpen_conditional hcounted hplain h₁
  obtain ⟨k₂, hk₂, hstrays₂⟩ := leavesOpen_conditional hcounted (hcursor ▸ hplain) h₂
  have hhead : e₁.cursor = e₂.cursor := cursor_eq_of_test hcursor htest₁ htest₂
  rw [conditional_eq, bind_of_ok htest₁] at h₁
  rw [conditional_eq, bind_of_ok htest₂] at h₂
  obtain ⟨_, n₁, hbranch, hrest₁⟩ := bind_ok_iff.mp h₁
  obtain ⟨_, n₂, hskip, hrest₂⟩ := bind_ok_iff.mp h₂
  obtain ⟨d, hskipped, rfl⟩ := read_ok_iff.mp hskip
  rw [← hhead] at hskipped
  constructor
  · intro hend
    -- A first branch that strays ends inside the block that the second run passes over.
    have hfirst : ¬ Strays cap nesting { e₁ with scopes := e₁.scopes.push } := by
      intro hstrays
      obtain ⟨b, hblock, hcloses, rfl⟩ := branch_ok_iff.mp hbranch
      obtain ⟨-, k, hk, hiff⟩ := hcounted hblock
      obtain ⟨j, rfl⟩ := Nat.exists_eq_succ_of_ne_zero (hiff.mp hstrays)
      have hinside := (hk.closing hcloses).trans (leavesOpen_alternative_skipBlock hrest₁)
      have hforward := forward_alternative (forward_branch (forward_block cap nesting))
      have honward : d.Onward m₂'.cursor := (hforward d _ (.refl _)).of_ok hrest₂
      rw [← hend] at honward
      exact Cursor.not_leavesOpen_of_skipBlock hskipped honward hinside
    have hzero₁ : k₁ = 0 := by
      rw [exists_enters_iff (.consequent htest₁)] at hstrays₁
      exact Decidable.not_not.mp fun hne => hfirst (hstrays₁.mpr hne)
    have hzero₂ : k₂ = 0 := by
      rw [hcursor, hend] at hk₁
      exact (hk₂.unique hk₁).trans hzero₁
    rintro e (henters | henters) hstrays
    · exact hstrays₁.mp ⟨e, henters, hstrays⟩ hzero₁
    · exact hstrays₂.mp ⟨e, henters, hstrays⟩ hzero₂
  · intro hnone
    have hskip₁ := (skipBlock_iff_of_branch hbranch).mpr (hnone _ (.inl (.consequent htest₁)))
    rw [hskipped] at hskip₁
    cases hskip₁
    rcases alternative_ok_iff.mp hrest₂ with ⟨helse, rfl⟩ | ⟨helse, hopens, hbranch₂⟩
    · rw [alternative_without (m := n₁) helse] at hrest₁
      cases hrest₁
      rfl
    · rcases alternative_ok_iff.mp hrest₁ with ⟨hwithout, -⟩ | ⟨-, -, hskip₁⟩
      · exact absurd (helse.symm.trans hwithout) (by decide)
      · obtain ⟨d₁, hd₁, rfl⟩ := read_ok_iff.mp hskip₁
        have hskip₂ := (skipBlock_iff_of_branch hbranch₂).mpr
          (hnone _ (.inr (.alternative htest₂ hskip helse hopens)))
        rw [hd₁] at hskip₂
        cases hskip₂
        rfl

/-! ## The two ways to the end -/

/-- Running a block and passing over it end at the same token exactly if the run does not stray.
This holds of a block with a frame and a closing brace of its own, of the body of a loop, which
stops at its closing brace, and of a conditional, whichever branch its condition selects. -/
theorem block_end_iff_not_strays (cap : Int) (nesting : Nat) :
    (∀ m m', branch (block cap nesting) m = .ok () m' →
      (Reading.skipBlock m.cursor = .ok () m'.cursor ↔
        ¬ Strays cap nesting { m with scopes := m.scopes.push })) ∧
    (∀ m m', block cap nesting m = .ok () m' →
      m'.cursor.token.closesBlock = true ∧
        (Reading.skipBlock m.cursor = .ok () m'.cursor.next ↔ ¬ Strays cap nesting m)) ∧
    (∀ m₁ m₂ e₁ e₂ m₁' m₂', m₁.cursor = m₂.cursor →
      m₁.cursor.token.is .keyword (some "if") = true →
      test m₁ = .ok true e₁ → test m₂ = .ok false e₂ →
      conditional (block cap nesting) m₁ = .ok () m₁' →
      conditional (block cap nesting) m₂ = .ok () m₂' →
      (m₁'.cursor = m₂'.cursor ↔ ∀ e, Enters m₁ e ∨ Enters m₂ e → ¬ Strays cap nesting e)) := by
  refine ⟨?_, ?_, ?_⟩
  · intro m m' h
    exact skipBlock_iff_of_branch h
  · intro m m' h
    exact ⟨(counted_block cap nesting h).1, skipBlock_iff_of_block h⟩
  · intro m₁ m₂ e₁ e₂ m₁' m₂' hcursor hif htest₁ htest₂ h₁ h₂
    exact conditional_end_eq_iff hcursor hif htest₁ htest₂ h₁ h₂

/-- The machine before `if x == "a" { ; } else { }`, with a value for `x`. -/
def beforeChoice (x : String) : Machine :=
  let tokens : List Token :=
    [⟨.keyword, "if", ⟨1, 1⟩⟩, ⟨.identifier, "x", ⟨1, 4⟩⟩, ⟨.operator, "==", ⟨1, 6⟩⟩,
      ⟨.string, "a", ⟨1, 9⟩⟩, ⟨.punctuation, "\x7b", ⟨1, 13⟩⟩, ⟨.punctuation, ";", ⟨1, 15⟩⟩,
      ⟨.punctuation, "\x7d", ⟨1, 17⟩⟩, ⟨.keyword, "else", ⟨1, 19⟩⟩,
      ⟨.punctuation, "\x7b", ⟨1, 24⟩⟩, ⟨.punctuation, "\x7d", ⟨1, 26⟩⟩, .endAt ⟨1, 27⟩]
  ({ scopes := { globals := [("x", .str x)] } } : Session).load tokens

/-- Both branches of the conditional end at the same token, so neither strays. -/
theorem beforeChoice_not_strays :
    ∃ m₁ m₂, conditional (block 1 1) (beforeChoice "a") = .ok () m₁ ∧
      conditional (block 1 1) (beforeChoice "b") = .ok () m₂ ∧ m₁.cursor = m₂.cursor ∧
      ∀ e, Enters (beforeChoice "a") e ∨ Enters (beforeChoice "b") e → ¬ Strays 1 1 e := by
  refine ⟨_, _, rfl, rfl, rfl, ?_⟩
  have hiff := (block_end_iff_not_strays 1 1).2.2 (beforeChoice "a") (beforeChoice "b")
  exact (hiff _ _ _ _ rfl rfl rfl rfl rfl rfl).mp rfl

/-- The machine inside the first brace of `{ { } }`. -/
def insideTwoBraces : Machine :=
  let tokens : List Token :=
    [⟨.punctuation, "\x7b", ⟨1, 1⟩⟩, ⟨.punctuation, "\x7b", ⟨1, 3⟩⟩, ⟨.punctuation, "\x7d", ⟨1, 5⟩⟩,
      ⟨.punctuation, "\x7d", ⟨1, 7⟩⟩, .endAt ⟨1, 8⟩]
  { ({} : Session) with cursor := (Cursor.start tokens).next }

/-- A run of the block in `{ { } }` ends behind the third token, passing over it behind the fourth,
though the braces are properly nested. -/
theorem block_end_differs :
    Token.level 0 (insideTwoBraces.cursor.tokens.take 4) = some 0 ∧
      ∃ m' d, branch (block 1 1) insideTwoBraces = .ok () m' ∧
        Reading.skipBlock insideTwoBraces.cursor = .ok () d ∧
        m'.cursor.position = 3 ∧ d.position = 4 := by
  refine ⟨by decide, ?_⟩
  exact ⟨_, _, rfl, rfl, rfl, rfl⟩

end Walk

end TokenWalk
