import TokenWalk.Proofs.Braces
import TokenWalk.Proofs.Frames
import TokenWalk.Proofs.Program

/-!
# Walking the tokens of a tree is running the tree

The machine has no tree: it evaluates from the cursor, finds the end of a block by scanning and goes
back for the rounds of a loop.  On the tokens that write a tree down it does what the run of the
tree does.  `Reads` says so for what is evaluated and `Follows` for walks: the same value or the
same stop, and the same bindings and printed values.

A walk also has to end before the tokens that come next, `k` below.  That takes one fact about them:
they are `Fresh`, that is, their first token neither goes on with an expression nor is an `else`.
-/

namespace TokenWalk

/-- The part of a session that a run of a tree works on. -/
def Session.store (s : Session) : Tree.Store :=
  ⟨s.scopes, s.printed⟩

@[simp] theorem Session.scopes_store (s : Session) : s.store.scopes = s.scopes := rfl

namespace Tree

variable {α β : Type}

@[simp] theorem Name.text_token (n : Name) : n.token.text = n.text := rfl

theorem get_store (s : Store) : (get : Effect Store) s = .ok s s := rfl

/-! ## Evaluating -/

/-- A reading ends as an evaluation does; if with a value, then before the given tokens. -/
def Reads (k : List Token) (result : Except Stop α) : EStateM.Result Stop Cursor α → Prop :=
  Meets (fun a d => result = .ok a ∧ d.rest = k) (fun stop _ => result = .error stop)

theorem Reads.bind {k k' : List Token} {r : Except Stop α} {g : α → Except Stop β}
    {x : Reading α} {f : α → Reading β} {c : Cursor} (hx : Reads k r (x c))
    (hf : ∀ a d, d.rest = k → Reads k' (g a) (f a d)) : Reads k' (r >>= g) ((x >>= f) c) := by
  cases h : x c with
  | ok a d =>
    rw [h] at hx
    obtain ⟨rfl, hd⟩ := hx
    rw [bind_of_ok h]
    exact hf a d hd
  | error stop d =>
    rw [h] at hx
    rw [bind_of_error h, show r = .error stop from hx]
    rfl

/-- A result that points at a token is read as it is. -/
theorem reads_ofExcept {c : Cursor} {k : List Token} (hc : c.rest = k) (token : Token)
    (r : Except Stop α) : Reads k (pointedAt token.place r) (Reading.ofExcept token r c) := by
  cases r with
  | ok a => exact ⟨rfl, hc⟩
  | error stop => exact rfl

/-- The token of a term has the value of the term. -/
theorem value?_token (scopes : Scopes) (t : Term) :
    ∃ r, t.token.value? scopes = some r ∧ pointedAt t.token.place r = t.value scopes := by
  cases t with
  | literal l =>
    obtain ⟨kind, text, place⟩ := l
    cases kind with
    | integer => exact ⟨_, rfl, rfl⟩
    | float => exact ⟨_, rfl, rfl⟩
    | string => exact ⟨_, rfl, rfl⟩
  | mention n =>
    refine ⟨_, rfl, ?_⟩
    simp only [Term.value, Term.token, Name.token]
    cases scopes.lookup n.text with
    | none => rfl
    | some value => rfl

theorem reads_term (scopes : Scopes) (t : Term) {c : Cursor} {k : List Token}
    (hc : c.rest = t.token :: k) : Reads k (t.value scopes) (Reading.term scopes c) := by
  obtain ⟨r, hr, hvalue⟩ := value?_token scopes t
  unfold Reading.term
  rw [bind_of_ok (Reading.current_apply c), Cursor.token_of_rest hc]
  simp only [hr]
  rw [bind_of_ok (Reading.advance_apply c), ← hvalue]
  exact reads_ofExcept (Cursor.rest_next_of_rest hc) _ r

/-- An arithmetic operator goes on with an expression. -/
theorem joins_arithmetic (op : Arithmetic) (place : Place) :
    Reading.joins ⟨.operator, op.symbol, place⟩ = true := by
  cases op <;> rfl

/-- A comparison ends an expression. -/
theorem joins_comparison (op : Comparison) (place : Place) :
    Reading.joins ⟨.operator, op.symbol, place⟩ = false := by
  cases op <;> rfl

theorem joins_of_kind {t : Token} (h : t.kind ≠ .operator) : Reading.joins t = false := by
  simp [Reading.joins, h]

/-- An operation and the operations after it, as one fold. -/
theorem foldlM_operations (scopes : Scopes) (left : Value) (o : Operation)
    (operations : List Operation) :
    (o :: operations).foldlM (Operation.apply scopes) left =
      o.right.value scopes >>= fun right =>
        pointedAt o.place (left.apply (.arithmetic o.op) right) >>= fun n =>
          operations.foldlM (Operation.apply scopes) (.int n) := by
  simp only [List.foldlM_cons, Operation.apply, bind_assoc, pure_bind]

/-- Operations are read one after the other, as the fold applies them. -/
theorem reads_operations (scopes : Scopes) {t : Token} (ht : Reading.joins t = false)
    (k : List Token) (operations : List Operation) (left : Value) (bound : List Token) {c : Cursor}
    (hc : c.rest = operations.flatMap Operation.tokens ++ t :: k)
    (hbound : c.rest.length ≤ bound.length) :
    Reads (t :: k) (operations.foldlM (Operation.apply scopes) left)
      (Reading.operations scopes bound left c) := by
  -- Both sides take one operation off: the tokens by two, the bound by one.
  induction operations generalizing left bound c with
  | nil =>
    cases bound with
    | nil => exact ⟨rfl, hc⟩
    | cons _ bound =>
      rw [Reading.operations, bind_of_ok (Reading.current_apply c), Cursor.token_of_rest hc]
      simp only [ht]
      exact ⟨rfl, hc⟩
  | cons o operations ih =>
    have hc : c.rest = ⟨.operator, o.op.symbol, o.place⟩ ::
        (o.right.token :: (operations.flatMap Operation.tokens ++ t :: k)) := by
      rw [hc]
      rfl
    have hnext := Cursor.rest_next_of_rest hc
    rw [hc] at hbound
    cases bound with
    | nil => exact absurd hbound (by simp)
    | cons _ bound =>
      rw [Reading.operations, bind_of_ok (Reading.current_apply c), Cursor.token_of_rest hc]
      simp only [joins_arithmetic, if_true, Arithmetic.ofSymbol?_symbol]
      rw [bind_of_ok (Reading.advance_apply c), foldlM_operations]
      refine (reads_term scopes o.right hnext).bind fun right d hd => ?_
      refine (reads_ofExcept hd _ _).bind fun n e he => ih (.int n) bound he ?_
      rw [he]
      simp only [List.length_cons] at hbound
      omega

theorem reads_expression (scopes : Scopes) (e : Expression) {t : Token}
    (ht : Reading.joins t = false) {k : List Token} {c : Cursor}
    (hc : c.rest = e.tokens ++ t :: k) :
    Reads (t :: k) (e.value scopes) (Reading.expression scopes c) := by
  refine (reads_term scopes e.first hc).bind fun first d hd => ?_
  exact reads_operations scopes ht k e.operations first d.rest hd (Nat.le_refl _)

theorem reads_condition (scopes : Scopes) (condition : Condition) {t : Token}
    (ht : Reading.joins t = false) {k : List Token} {c : Cursor}
    (hc : c.rest = condition.tokens ++ t :: k) :
    Reads (t :: k) (condition.holds scopes) (Reading.condition scopes c) := by
  have hc : c.rest = condition.left.tokens ++
      ⟨.operator, condition.op.symbol, condition.place⟩ :: (condition.right.tokens ++ t :: k) := by
    rw [hc]
    simp [Condition.tokens]
  refine (reads_expression scopes condition.left (joins_comparison _ _) hc).bind
    fun left d hd => ?_
  rw [bind_of_ok (Reading.current_apply d), Cursor.token_of_rest hd]
  simp only [Comparison.ofSymbol?_symbol]
  rw [bind_of_ok (Reading.advance_apply d)]
  have hnext := Cursor.rest_next_of_rest hd
  refine (reads_expression scopes condition.right ht hnext).bind fun right e he => ?_
  exact reads_ofExcept he _ _

/-! ## Following a run -/

/-- The stop of a walk and the stop of a run, with the same store. -/
def SameStop (e : Stop) (m : Machine) (f : Stop) (s : Store) : Prop :=
  e = f ∧ m.store = s

/-- A walk ends as a run does, with the same store; if it is not stopped, then before the given
tokens. -/
def Follows (k : List Token) :
    EStateM.Result Stop Machine Unit → EStateM.Result Stop Store Unit → Prop :=
  Answers False (fun _ m _ s => m.cursor.rest = k ∧ m.store = s) SameStop

/-- The same value on both sides.  Of the machine only the cursor has moved, to where it stands
before the given tokens. -/
def SameValue (m : Machine) (k : List Token) (a : α) (m' : Machine) (b : α) (s : Store) : Prop :=
  a = b ∧ s = m.store ∧ ∃ c : Cursor, c.rest = k ∧ m' = { m with cursor := c }

theorem answers_read {k : List Token} {x : Reading α} (value : Scopes → Except Stop α)
    {m : Machine} (h : Reads k (value m.scopes) (x m.cursor)) :
    Answers False (SameValue m k) SameStop (Walk.read x m) (evaluate value m.store) := by
  unfold evaluate
  rw [Session.scopes_store]
  cases hx : x m.cursor with
  | ok a c =>
    rw [hx] at h
    obtain ⟨hvalue, hc⟩ := h
    rw [Walk.read_of_ok hx, hvalue]
    exact ⟨rfl, rfl, c, hc, rfl⟩
  | error e c =>
    rw [hx] at h
    rw [Walk.read_of_error hx, show value m.scopes = .error e from h]
    exact Or.inr ⟨rfl, rfl⟩

theorem answers_expression (e : Expression) {t : Token} (ht : Reading.joins t = false)
    {k : List Token} {m : Machine} (hm : m.cursor.rest = e.tokens ++ t :: k) :
    Answers False (SameValue m (t :: k)) SameStop (Walk.expression m)
      (evaluate e.value m.store) := by
  unfold Walk.expression
  rw [bind_of_ok (Walk.get_apply m)]
  exact answers_read (fun scopes => e.value scopes) (reads_expression m.scopes e ht hm)

theorem answers_condition (condition : Condition) {t : Token} (ht : Reading.joins t = false)
    {k : List Token} {m : Machine} (hm : m.cursor.rest = condition.tokens ++ t :: k) :
    Answers False (SameValue m (t :: k)) SameStop (Walk.condition m)
      (evaluate condition.holds m.store) := by
  unfold Walk.condition
  rw [bind_of_ok (Walk.get_apply m)]
  exact answers_read (fun scopes => condition.holds scopes)
    (reads_condition m.scopes condition ht hm)

theorem read_expect {kind : Kind} {text? : Option String} {t : Token} {k : List Token}
    {m : Machine} (hm : m.cursor.rest = t :: k) (ht : t.is kind text? = true) :
    Walk.read (.expect kind text?) m = .ok t { m with cursor := m.cursor.next } := by
  apply Walk.read_of_ok
  rw [Reading.expect_ok_iff, Cursor.token_of_rest hm]
  exact ⟨ht, rfl, rfl⟩

theorem read_openBrace {t : Token} {k : List Token} {m : Machine} (hm : m.cursor.rest = t :: k)
    (ht : t.opensBlock = true) :
    Walk.read .openBrace m = .ok () { m with cursor := m.cursor.next } := by
  rw [← Cursor.token_of_rest hm] at ht
  exact Walk.read_openBrace_ok_iff.mpr ⟨ht, rfl⟩

theorem read_closeBrace {t : Token} {k : List Token} {m : Machine} (hm : m.cursor.rest = t :: k)
    (ht : t.closesBlock = true) :
    Walk.read .closeBrace m = .ok () { m with cursor := m.cursor.next } := by
  rw [← Cursor.token_of_rest hm] at ht
  exact Walk.read_closeBrace_ok_iff.mpr ⟨ht, rfl⟩

/-! ## Simple statements -/

theorem follows_declaration (cap : Int) (room : Nat) (keyword : Declarator) (place : Place)
    (name : Name) (equals : Place) (value : Expression) {t : Token}
    (ht : Reading.joins t = false) {k : List Token} {m : Machine}
    (hm : m.cursor.rest = ⟨.keyword, keyword.text, place⟩ :: name.token ::
      ⟨.operator, "=", equals⟩ :: (value.tokens ++ t :: k)) :
    Follows (t :: k) (Walk.declaration m)
      ((Statement.declare keyword place name equals value).run cap room m.store) := by
  have h₁ := Cursor.rest_next_of_rest hm
  have h₂ := Cursor.rest_next_of_rest h₁
  have h₃ := Cursor.rest_next_of_rest h₂
  unfold Walk.declaration Statement.run
  rw [bind_of_ok (Walk.read_advance m), bind_of_ok (read_expect h₁ rfl),
    bind_of_ok (read_expect h₂ rfl)]
  refine (answers_expression value ht h₃).bind ?_
  rintro v _ _ _ ⟨rfl, rfl, c, hc, rfl⟩
  rw [bind_of_ok (Walk.get_apply _), bind_of_ok (get_store _), Session.scopes_store,
    Name.text_token]
  cases m.scopes.declare? name.text v with
  | none => exact Or.inr ⟨rfl, rfl⟩
  | some scopes => exact ⟨hc, rfl⟩

theorem follows_assignment (cap : Int) (room : Nat) (name : Name) (equals : Place)
    (value : Expression) {t : Token} (ht : Reading.joins t = false) {k : List Token} {m : Machine}
    (hm : m.cursor.rest = name.token :: ⟨.operator, "=", equals⟩ :: (value.tokens ++ t :: k)) :
    Follows (t :: k) (Walk.assignment m)
      ((Statement.assign name equals value).run cap room m.store) := by
  have h₁ := Cursor.rest_next_of_rest hm
  have h₂ := Cursor.rest_next_of_rest h₁
  unfold Walk.assignment Statement.run
  rw [bind_of_ok (Walk.read_current m), bind_of_ok (Walk.get_apply m),
    bind_of_ok (get_store m.store), Session.scopes_store, Cursor.token_of_rest hm,
    Name.text_token]
  cases hname : m.scopes.contains name.text with
  | false => exact Or.inr ⟨rfl, rfl⟩
  | true =>
    simp only [Bool.not_true, Bool.false_eq_true, if_false, if_true]
    rw [bind_of_ok (Walk.read_advance m), bind_of_ok (read_expect h₁ rfl)]
    refine (answers_expression value ht h₂).bind ?_
    rintro v _ _ _ ⟨rfl, rfl, c, hc, rfl⟩
    obtain ⟨scopes, hscopes⟩ := Scopes.exists_update? hname v
    rw [bind_of_ok (Walk.get_apply _)]
    simp only [hscopes]
    refine ⟨hc, ?_⟩
    simp only [Session.store, hscopes, Option.getD_some]

theorem follows_printing (cap : Int) (room : Nat) (place opening : Place) (value : Expression)
    (closing : Place) {k : List Token} {m : Machine}
    (hm : m.cursor.rest = ⟨.keyword, "print", place⟩ :: ⟨.punctuation, "(", opening⟩ ::
      (value.tokens ++ ⟨.punctuation, ")", closing⟩ :: k)) :
    Follows k (Walk.printing m)
      ((Statement.print place opening value closing).run cap room m.store) := by
  have h₁ := Cursor.rest_next_of_rest hm
  have h₂ := Cursor.rest_next_of_rest h₁
  unfold Walk.printing Statement.run
  rw [bind_of_ok (Walk.read_advance m), bind_of_ok (read_expect h₁ rfl)]
  refine (answers_expression value (joins_of_kind (by simp)) h₂).bind ?_
  rintro v _ _ _ ⟨rfl, rfl, c, hc, rfl⟩
  rw [bind_of_ok (read_expect hc rfl)]
  exact ⟨Cursor.rest_next_of_rest hc, rfl⟩

/-! ## Levels -/

theorem plain_literal (l : Literal) : l.token.Plain := by
  obtain ⟨kind, text, place⟩ := l
  apply Token.plain_of_kind
  · cases kind <;> simp [Literal.token, LiteralKind.toKind]
  · cases kind <;> simp [Literal.token, LiteralKind.toKind]

theorem plain_term (t : Term) : t.token.Plain := by
  cases t with
  | literal l => exact plain_literal l
  | mention n =>
    apply Token.plain_of_kind
    · simp [Term.token, Name.token]
    · simp [Term.token, Name.token]

theorem plain_stray (stray : Stray) : stray.token.Plain := by
  cases stray with
  | literal l => exact plain_literal l
  | mark mark =>
    obtain ⟨text, place, hopening, hclosing⟩ := mark
    refine ⟨by simp [Stray.token], ?_, ?_⟩
    · simp [Stray.token, Token.opensBlock, Token.is, hopening]
    · simp [Stray.token, Token.closesBlock, Token.is, hclosing]

theorem plain_expression (e : Expression) : ∀ t ∈ e.tokens, t.Plain := by
  intro t ht
  simp only [Expression.tokens, Operation.tokens, List.mem_cons, List.mem_flatMap,
    List.not_mem_nil, or_false] at ht
  rcases ht with rfl | ⟨o, _, rfl | rfl⟩
  · exact plain_term e.first
  · exact Token.plain_of_kind (by simp) (by simp)
  · exact plain_term o.right

theorem plain_condition (c : Condition) : ∀ t ∈ c.tokens, t.Plain := by
  intro t ht
  simp only [Condition.tokens, List.mem_append, List.mem_cons] at ht
  rcases ht with ht | rfl | ht
  · exact plain_expression c.left t ht
  · exact Token.plain_of_kind (by simp) (by simp)
  · exact plain_expression c.right t ht

/-- A block is closed at its end. -/
theorem level_around (b : Braces) {body : List Token} {depth : Nat}
    (h : Token.level (depth + 1) body = some (depth + 1)) :
    Token.level depth (b.around body) = some depth := by
  have hopens : b.openingToken.opensBlock = true := rfl
  have hcloses : b.closingToken.closesBlock = true := rfl
  rw [Braces.around, Token.level_opening hopens, Token.level_append, h]
  exact Token.level_closing hcloses depth []

mutual

/-- The tokens of a statement close the blocks they open. -/
theorem level_tokens : ∀ (statement : Statement) (depth : Nat),
    Token.level depth statement.tokens = some depth
  | .declare keyword place name equals value, depth => by
    apply Token.level_of_plain
    intro t ht
    simp only [Statement.tokens, List.mem_cons] at ht
    rcases ht with rfl | rfl | rfl | ht
    · exact Token.plain_of_kind (by simp) (by simp)
    · exact plain_term (.mention name)
    · exact Token.plain_of_kind (by simp) (by simp)
    · exact plain_expression value t ht
  | .assign name equals value, depth => by
    apply Token.level_of_plain
    intro t ht
    simp only [Statement.tokens, List.mem_cons] at ht
    rcases ht with rfl | rfl | ht
    · exact plain_term (.mention name)
    · exact Token.plain_of_kind (by simp) (by simp)
    · exact plain_expression value t ht
  | .print place opening value closing, depth => by
    apply Token.level_of_plain
    intro t ht
    simp only [Statement.tokens, List.mem_cons, List.mem_append, List.not_mem_nil, or_false] at ht
    rcases ht with rfl | rfl | ht | rfl
    · exact Token.plain_of_kind (by simp) (by simp)
    · exact ⟨by simp, rfl, rfl⟩
    · exact plain_expression value t ht
    · exact ⟨by simp, rfl, rfl⟩
  | .loop place condition braces body, depth => by
    have hkeyword : Token.Plain ⟨.keyword, "while", place⟩ :=
      Token.plain_of_kind (by simp) (by simp)
    rw [Statement.tokens, Token.level_plain hkeyword, Token.level_append,
      Token.level_of_plain (plain_condition condition)]
    exact level_around braces (level_tokensOf body (depth + 1))
  | .branch place condition braces body, depth => by
    have hkeyword : Token.Plain ⟨.keyword, "if", place⟩ :=
      Token.plain_of_kind (by simp) (by simp)
    rw [Statement.tokens, Token.level_plain hkeyword, Token.level_append,
      Token.level_of_plain (plain_condition condition)]
    exact level_around braces (level_tokensOf body (depth + 1))
  | .choice place condition braces body otherwise otherBraces other, depth => by
    have hkeyword : Token.Plain ⟨.keyword, "if", place⟩ :=
      Token.plain_of_kind (by simp) (by simp)
    have helse : Token.Plain ⟨.keyword, "else", otherwise⟩ :=
      Token.plain_of_kind (by simp) (by simp)
    rw [Statement.tokens, Token.level_plain hkeyword, Token.level_append, Token.level_append,
      Token.level_of_plain (plain_condition condition), Option.bind_some,
      level_around braces (level_tokensOf body (depth + 1)), Option.bind_some,
      Token.level_plain helse]
    exact level_around otherBraces (level_tokensOf other (depth + 1))
  | .stray stray, depth => by
    apply Token.level_of_plain
    intro t ht
    simp only [Statement.tokens, List.mem_cons, List.not_mem_nil, or_false] at ht
    subst ht
    exact plain_stray stray

theorem level_tokensOf : ∀ (body : List Statement) (depth : Nat),
    Token.level depth (tokensOf body) = some depth
  | [], _ => rfl
  | statement :: rest, depth => by
    rw [tokensOf, Token.level_append, level_tokens statement depth]
    exact level_tokensOf rest depth

end

/-! ## Blocks

Here a block is given by the tokens between its braces, a walk over them and a run of what they
say.  The walk `Covers` them if it follows the run up to the closing brace. -/

/-- The walk follows the run over the tokens of a block. -/
def Covers (b : Braces) (inner : List Token) (walk : Walk Unit) (run : Effect Unit) : Prop :=
  ∀ (m : Machine) (k : List Token), m.cursor.rest = inner ++ b.closingToken :: k →
    Follows (b.closingToken :: k) (walk m) (run m.store)

theorem follows_inFrame {k : List Token} {body : Walk Unit} {run : Effect Unit} {m : Machine}
    (h : Follows k (body { m with scopes := m.scopes.push })
      (run { m.store with scopes := m.scopes.push })) :
    Follows k (Walk.inFrame body m) (inScope run m.store) := by
  unfold Walk.inFrame inScope
  rw [Session.scopes_store]
  cases hbody : body { m with scopes := m.scopes.push } with
  | ok a m' =>
    cases hrun : run { m.store with scopes := m.scopes.push } with
    | ok b s =>
      rw [hbody, hrun] at h
      obtain ⟨hk, rfl⟩ := h
      exact ⟨hk, rfl⟩
    | error f s =>
      rw [hbody, hrun] at h
      exact h.elim
  | error e m' =>
    cases hrun : run { m.store with scopes := m.scopes.push } with
    | ok b s =>
      rw [hbody, hrun] at h
      exact h.elim
    | error f s =>
      rw [hbody, hrun] at h
      obtain ⟨rfl, rfl⟩ := h.resolve_left id
      exact Or.inr ⟨rfl, rfl⟩

theorem follows_branch {b : Braces} {inner k : List Token} {walk : Walk Unit} {run : Effect Unit}
    (hcovers : Covers b inner walk run) {m : Machine}
    (hm : m.cursor.rest = inner ++ b.closingToken :: k) :
    Follows k (Walk.branch walk m) (inScope run m.store) := by
  apply follows_inFrame
  refine (hcovers { m with scopes := m.scopes.push } k hm).then_left ?_
  rintro _ m' _ _ ⟨hk, rfl⟩
  exact ⟨(), _, read_closeBrace hk rfl, Cursor.rest_next_of_rest hk, rfl⟩

/-- Passing over the tokens of a block changes nothing but the cursor. -/
theorem read_skipBlock {b : Braces} {inner k : List Token} (hlevel : Token.level 0 inner = some 0)
    {m : Machine} (hm : m.cursor.rest = inner ++ b.closingToken :: k) :
    ∃ c : Cursor, c.rest = k ∧ Walk.read .skipBlock m = .ok () { m with cursor := c } := by
  obtain ⟨c, _, hc, hskip⟩ := Reading.skipBlock_of_level hlevel rfl hm
  exact ⟨c, hc, Walk.read_of_ok hskip⟩

/-! ## Loops -/

/-- What a loop does once its condition is known. -/
def goOn (test : Effect Bool) (overrun : Stop) (body : Effect Unit) (times : Nat) (holds : Bool) :
    Effect Unit :=
  if holds then
    match times with
    | 0 => throw overrun
    | times + 1 => do
        body
        repeated test overrun body times
  else pure ()

theorem repeated_eq (test : Effect Bool) (overrun : Stop) (body : Effect Unit) (times : Nat) :
    repeated test overrun body times = test >>= goOn test overrun body times := by
  cases times with
  | zero => rfl
  | succ times => rfl

/-- The rounds of a loop are those of the repetition, though the machine goes back for each. -/
theorem answers_rounds {condition : Condition} {b : Braces} {inner k : List Token}
    {walk : Walk Unit} {run : Effect Unit} (hcovers : Covers b inner walk run) (cap : Int)
    (place : Place) {conditionStart bodyStart : Cursor}
    (hcondition : conditionStart.rest =
      condition.tokens ++ b.openingToken :: (inner ++ b.closingToken :: k))
    (hbody : bodyStart.rest = inner ++ b.closingToken :: k) (left : Nat) (holds : Bool)
    (m : Machine) :
    Answers False (fun _ m _ s => m.store = s) SameStop
      (Walk.rounds walk cap ⟨.keyword, "while", place⟩ conditionStart bodyStart left holds m)
      (goOn (evaluate condition.holds) (.overrun place cap) (inScope run) left holds
        m.store) := by
  -- One round less is left each time; the machine may stand anywhere, since it goes back first.
  induction left generalizing holds m with
  | zero =>
    cases holds with
    | false => exact rfl
    | true => exact Or.inr ⟨rfl, rfl⟩
  | succ left ih =>
    cases holds with
    | false => exact rfl
    | true =>
      rw [Walk.rounds]
      show Answers False _ SameStop _
        ((inScope run >>= fun _ => repeated (evaluate condition.holds)
          (.overrun place cap) (inScope run) left) m.store)
      have hround : Follows (b.closingToken :: k)
          (Walk.inFrame (do Walk.moveTo bodyStart; walk) m) (inScope run m.store) := by
        apply follows_inFrame
        exact hcovers { m with scopes := m.scopes.push, cursor := bodyStart } k hbody
      refine hround.bind ?_
      rintro _ m' _ _ ⟨_, rfl⟩
      rw [repeated_eq]
      have htest := answers_condition condition (joins_of_kind (t := b.openingToken)
        (by simp [Braces.openingToken])) (m := { m' with cursor := conditionStart }) hcondition
      refine htest.bind ?_
      rintro holds' _ _ _ ⟨rfl, rfl, c, _, rfl⟩
      exact ih holds' { m' with cursor := c }

theorem follows_loop {condition : Condition} {b : Braces} {inner k : List Token}
    {walk : Walk Unit} {run : Effect Unit} (hcovers : Covers b inner walk run)
    (hlevel : Token.level 0 inner = some 0) (cap : Int) (place : Place) {m : Machine}
    (hm : m.cursor.rest = ⟨.keyword, "while", place⟩ ::
      (condition.tokens ++ b.openingToken :: (inner ++ b.closingToken :: k))) :
    Follows k (Walk.loop walk cap m)
      (repeated (evaluate condition.holds) (.overrun place cap) (inScope run) cap.toNat
        m.store) := by
  have h₁ := Cursor.rest_next_of_rest hm
  unfold Walk.loop
  rw [bind_of_ok (Walk.read_advance m), bind_of_ok (Walk.get_apply _), Cursor.token_of_rest hm,
    repeated_eq]
  have htest := answers_condition condition (joins_of_kind (t := b.openingToken)
    (by simp [Braces.openingToken])) (m := { m with cursor := m.cursor.next }) h₁
  refine htest.bind ?_
  rintro holds _ _ _ ⟨rfl, rfl, c, hc, rfl⟩
  have h₂ := Cursor.rest_next_of_rest hc
  rw [bind_of_ok (read_openBrace hc rfl), bind_of_ok (Walk.get_apply _)]
  refine (answers_rounds hcovers cap place h₁ h₂ cap.toNat holds
    { m with cursor := c.next }).then_left ?_
  rintro left m' _ _ rfl
  -- The machine goes back to the body once more, to pass over it.
  obtain ⟨d, hd, hskip⟩ := read_skipBlock (b := b) hlevel (m := { m' with
    journal := m'.journal.push (.looped place.line (cap.toNat - left)), cursor := c.next }) h₂
  exact ⟨(), _, hskip, hd, rfl⟩

/-! ## Conditionals -/

theorem alternative_with {body : Walk Unit} {place : Place} {b : Braces} {k : List Token}
    {m : Machine} (hm : m.cursor.rest = ⟨.keyword, "else", place⟩ :: b.openingToken :: k) :
    Walk.alternative body m = body { m with cursor := m.cursor.next.next } := by
  have h₁ := Cursor.rest_next_of_rest hm
  rw [Walk.alternative_else (by rw [Cursor.token_of_rest hm]; rfl)]
  exact bind_of_ok (read_openBrace (m := { m with cursor := m.cursor.next }) h₁ rfl)

/-- A conditional follows a run that evaluates the condition and goes on as the conditional
does. -/
theorem follows_conditional {condition : Condition} {b : Braces} {k k' : List Token}
    {walk : Walk Unit} {run : Bool → Effect Unit} {place : Place} {m : Machine}
    (hm : m.cursor.rest = ⟨.keyword, "if", place⟩ :: (condition.tokens ++ b.openingToken :: k'))
    (hrun : ∀ (holds : Bool) (m' : Machine), m'.cursor.rest = k' →
      Follows k (Walk.settle walk holds m') (run holds m'.store)) :
    Follows k (Walk.conditional walk m) ((evaluate condition.holds >>= run) m.store) := by
  have h₁ := Cursor.rest_next_of_rest hm
  unfold Walk.conditional
  rw [bind_of_ok (Walk.read_advance m)]
  have htest := answers_condition condition (joins_of_kind (t := b.openingToken)
    (by simp [Braces.openingToken])) (m := { m with cursor := m.cursor.next }) h₁
  refine htest.bind ?_
  rintro holds _ _ _ ⟨rfl, rfl, c, hc, rfl⟩
  have h₂ := Cursor.rest_next_of_rest hc
  rw [bind_of_ok (read_openBrace hc rfl)]
  exact hrun holds { m with
    journal := m.journal.push (.decided m.cursor.token.place.line holds), cursor := c.next } h₂

/-- The tokens begin with one that neither goes on with an expression nor is an `else`. -/
def Fresh : List Token → Prop
  | [] => False
  | t :: _ => Reading.joins t = false ∧ t.is .keyword (some "else") = false

theorem Fresh.exists_cons {k : List Token} (h : Fresh k) :
    ∃ t rest, k = t :: rest ∧ Reading.joins t = false ∧ t.is .keyword (some "else") = false := by
  cases k with
  | nil => exact h.elim
  | cons t rest => exact ⟨t, rest, rfl, h⟩

theorem follows_branch_statement {b : Braces} {inner k : List Token} {walk : Walk Unit}
    {run : Effect Unit} (hcovers : Covers b inner walk run)
    (hlevel : Token.level 0 inner = some 0) (hk : Fresh k) (holds : Bool) {m : Machine}
    (hm : m.cursor.rest = inner ++ b.closingToken :: k) :
    Follows k (Walk.settle walk holds m) ((if holds then inScope run else pure ()) m.store) := by
  obtain ⟨t, rest, rfl, -, helse⟩ := hk.exists_cons
  have hwithout : ∀ (body : Walk Unit) (m' : Machine), m'.cursor.rest = t :: rest →
      Walk.alternative body m' = .ok () m' := by
    intro body m' hm'
    apply Walk.alternative_without
    rw [Cursor.token_of_rest hm']
    exact helse
  cases holds with
  | true =>
    refine (follows_branch hcovers hm).then_left ?_
    rintro _ m' _ _ ⟨hm', rfl⟩
    exact ⟨(), m', hwithout _ m' hm', hm', rfl⟩
  | false =>
    obtain ⟨c, hc, hskip⟩ := read_skipBlock hlevel hm
    show Follows (t :: rest) ((Walk.read .skipBlock >>= fun _ => _) m) _
    rw [bind_of_ok hskip, hwithout _ _ hc]
    exact ⟨hc, rfl⟩

theorem follows_choice_statement {b b' : Braces} {inner inner' k : List Token} {walk : Walk Unit}
    {run run' : Effect Unit} (hcovers : Covers b inner walk run)
    (hcovers' : Covers b' inner' walk run') (hlevel : Token.level 0 inner = some 0)
    (hlevel' : Token.level 0 inner' = some 0) (place : Place) (holds : Bool) {m : Machine}
    (hm : m.cursor.rest = inner ++ b.closingToken :: ⟨.keyword, "else", place⟩ ::
      b'.openingToken :: (inner' ++ b'.closingToken :: k)) :
    Follows k (Walk.settle walk holds m)
      ((if holds then inScope run else inScope run') m.store) := by
  cases holds with
  | true =>
    refine (follows_branch hcovers hm).then_left ?_
    rintro _ m' _ _ ⟨hm', rfl⟩
    have h₂ := Cursor.rest_next_of_rest (Cursor.rest_next_of_rest hm')
    rw [alternative_with hm']
    obtain ⟨d, hd, hskip⟩ :=
      read_skipBlock hlevel' (m := { m' with cursor := m'.cursor.next.next }) h₂
    exact ⟨(), _, hskip, hd, rfl⟩
  | false =>
    obtain ⟨c, hc, hskip⟩ := read_skipBlock hlevel hm
    have h₂ := Cursor.rest_next_of_rest (Cursor.rest_next_of_rest hc)
    show Follows k ((Walk.read .skipBlock >>= fun _ => _) m) _
    rw [bind_of_ok hskip, alternative_with hc]
    exact follows_branch hcovers' (m := { m with cursor := c.next.next }) h₂

/-! ## All statements -/

/-- The first token of a statement: no brace, no end, no operator and no `else`. -/
theorem tokens_eq_cons (statement : Statement) :
    ∃ t ts, statement.tokens = t :: ts ∧ t.Plain ∧ Fresh (t :: ts) := by
  cases statement with
  | declare keyword place name equals value =>
    refine ⟨_, _, rfl, Token.plain_of_kind (by simp) (by simp), rfl, ?_⟩
    cases keyword with
    | byVar | byLet => rfl
  | assign name equals value => exact ⟨_, _, rfl, plain_term (.mention name), rfl, rfl⟩
  | print place opening value closing =>
    exact ⟨_, _, rfl, Token.plain_of_kind (by simp) (by simp), rfl, rfl⟩
  | loop place condition braces body =>
    exact ⟨_, _, rfl, Token.plain_of_kind (by simp) (by simp), rfl, rfl⟩
  | branch place condition braces body =>
    exact ⟨_, _, rfl, Token.plain_of_kind (by simp) (by simp), rfl, rfl⟩
  | choice place condition braces body otherwise otherBraces other =>
    exact ⟨_, _, rfl, Token.plain_of_kind (by simp) (by simp), rfl, rfl⟩
  | stray stray =>
    refine ⟨_, _, rfl, plain_stray stray, ?_⟩
    cases stray with
    | literal l =>
      obtain ⟨kind, text, place⟩ := l
      cases kind with
      | integer | float | string => exact ⟨rfl, rfl⟩
    | mark mark => exact ⟨rfl, rfl⟩

theorem fresh_tokensOf (body : List Statement) {k : List Token} (hk : Fresh k) :
    Fresh (tokensOf body ++ k) := by
  cases body with
  | nil => exact hk
  | cons statement rest =>
    obtain ⟨t, ts, htokens, _, hfresh⟩ := tokens_eq_cons statement
    rw [tokensOf, htokens]
    exact hfresh

/-- The walk over a block, from the walk over its statements. -/
theorem covers_block (cap : Int) (room : Nat) (b : Braces) (body : List Statement)
    (h : ∀ (room : Nat) (bound : List Token) (m : Machine) (k : List Token),
      m.cursor.rest = tokensOf body ++ b.closingToken :: k → m.cursor.rest.length ≤ bound.length →
      Follows (b.closingToken :: k)
        (Walk.untilBrace (Walk.statementWith (Walk.block cap room) cap) bound m)
        (runAll cap body room m.store)) :
    Covers b (tokensOf body) (Walk.block cap room)
      (opened room (b.beginning (tokensOf body)) fun room => runAll cap body room) := by
  intro m k hm
  cases room with
  | zero =>
    have hplace : m.cursor.token.place = b.beginning (tokensOf body) := by
      unfold Braces.beginning
      cases hbody : tokensOf body with
      | nil =>
        rw [hbody] at hm
        rw [Cursor.token_of_rest hm]
        rfl
      | cons t ts =>
        rw [hbody] at hm
        rw [Cursor.token_of_rest hm]
        rfl
    unfold Walk.block opened
    rw [bind_of_ok (Walk.read_current m), Walk.read_fail, hplace]
    exact Or.inr ⟨rfl, rfl⟩
  | succ room => exact h room m.cursor.rest m k hm (Nat.le_refl _)

mutual

/-- A walk over a statement follows its run. -/
theorem follows_statement (cap : Int) : ∀ (statement : Statement) (room : Nat) (k : List Token)
    (m : Machine), Fresh k → m.cursor.rest = statement.tokens ++ k →
    Follows k (Walk.statementWith (Walk.block cap room) cap m) (statement.run cap room m.store)
  | .declare keyword place name equals value, room, k, m, hk, hm => by
    obtain ⟨t, rest, rfl, ht, -⟩ := hk.exists_cons
    have htoken := Cursor.token_of_rest hm
    rw [Walk.statementWith_declaration (by rw [htoken])
      (by rw [htoken]; cases keyword <;> simp [Declarator.text])]
    exact follows_declaration cap room keyword place name equals value ht hm
  | .assign name equals value, room, k, m, hk, hm => by
    obtain ⟨t, rest, rfl, ht, -⟩ := hk.exists_cons
    rw [Walk.statementWith_assignment (by rw [Cursor.token_of_rest hm]; rfl)]
    exact follows_assignment cap room name equals value ht hm
  | .print place opening value closing, room, k, m, hk, hm => by
    have htoken := Cursor.token_of_rest hm
    rw [Walk.statementWith_printing (by rw [htoken]) (by rw [htoken])]
    apply follows_printing
    rw [hm]
    simp [Statement.tokens]
  | .loop place condition braces body, room, k, m, hk, hm => by
    have htoken := Cursor.token_of_rest hm
    rw [Walk.statementWith_loop (by rw [htoken]) (by rw [htoken])]
    apply follows_loop (covers_block cap room braces body (follows_untilBrace cap braces body))
      (level_tokensOf body 0)
    rw [hm]
    simp [Statement.tokens, Braces.around]
  | .branch place condition braces body, room, k, m, hk, hm => by
    have htoken := Cursor.token_of_rest hm
    have hcovers := covers_block cap room braces body (follows_untilBrace cap braces body)
    have hrest : m.cursor.rest = ⟨.keyword, "if", place⟩ :: (condition.tokens ++
        braces.openingToken :: (tokensOf body ++ braces.closingToken :: k)) := by
      rw [hm]
      simp [Statement.tokens, Braces.around]
    rw [Walk.statementWith_conditional (by rw [htoken]) (by rw [htoken])]
    exact follows_conditional hrest fun holds m' hm' =>
      follows_branch_statement hcovers (level_tokensOf body 0) hk holds hm'
  | .choice place condition braces body otherwise otherBraces other, room, k, m, hk, hm => by
    have htoken := Cursor.token_of_rest hm
    have hcovers := covers_block cap room braces body (follows_untilBrace cap braces body)
    have hcovers' := covers_block cap room otherBraces other
      (follows_untilBrace cap otherBraces other)
    have hrest : m.cursor.rest = ⟨.keyword, "if", place⟩ :: (condition.tokens ++
        braces.openingToken :: (tokensOf body ++ braces.closingToken ::
          ⟨.keyword, "else", otherwise⟩ :: otherBraces.openingToken ::
            (tokensOf other ++ otherBraces.closingToken :: k))) := by
      rw [hm]
      simp [Statement.tokens, Braces.around]
    rw [Walk.statementWith_conditional (by rw [htoken]) (by rw [htoken])]
    exact follows_conditional hrest fun holds m' hm' =>
      follows_choice_statement hcovers hcovers' (level_tokensOf body 0) (level_tokensOf other 0)
        otherwise holds hm'
  | .stray stray, room, k, m, hk, hm => by
    have htoken := Cursor.token_of_rest hm
    have hkind : stray.token.kind ≠ .keyword ∧ stray.token.kind ≠ .identifier := by
      cases stray with
      | literal l =>
        obtain ⟨kind, text, place⟩ := l
        cases kind <;> simp [Stray.token, Literal.token, LiteralKind.toKind]
      | mark mark => simp [Stray.token]
    rw [Walk.statementWith_stray (by rw [htoken]; exact hkind.1) (by rw [htoken]; exact hkind.2)]
    exact ⟨Cursor.rest_next_of_rest hm, rfl⟩

/-- A walk over the statements of a block follows their run. -/
theorem follows_untilBrace (cap : Int) (b : Braces) : ∀ (body : List Statement) (room : Nat)
    (bound : List Token) (m : Machine) (k : List Token),
    m.cursor.rest = tokensOf body ++ b.closingToken :: k →
    m.cursor.rest.length ≤ bound.length →
    Follows (b.closingToken :: k)
      (Walk.untilBrace (Walk.statementWith (Walk.block cap room) cap) bound m)
      (runAll cap body room m.store)
  | [], room, [], m, k, hm, hbound => by
    rw [hm] at hbound
    exact absurd hbound (by simp)
  | [], room, _ :: bound, m, k, hm, hbound => by
    rw [Walk.untilBrace_closing (by rw [Cursor.token_of_rest hm]; rfl)]
    exact ⟨hm, rfl⟩
  | statement :: rest, room, [], m, k, hm, hbound => by
    rw [hm] at hbound
    exact absurd hbound (by simp)
  | statement :: rest, room, _ :: bound, m, k, hm, hbound => by
    obtain ⟨t, ts, htokens, hplain, -⟩ := tokens_eq_cons statement
    rw [tokensOf, List.append_assoc] at hm
    have htoken : m.cursor.token = t := by
      rw [htokens] at hm
      exact Cursor.token_of_rest hm
    rw [← htoken] at hplain
    rw [Walk.untilBrace_step hplain.not_closing hplain.not_end, runAll]
    have hfresh : Fresh (tokensOf rest ++ b.closingToken :: k) := fresh_tokensOf rest ⟨rfl, rfl⟩
    refine (follows_statement cap statement room _ m hfresh hm).bind ?_
    rintro _ m' _ _ ⟨hm', rfl⟩
    refine follows_untilBrace cap b rest room bound m' k hm' ?_
    rw [hm']
    rw [hm, htokens] at hbound
    simp only [List.cons_append, List.length_cons, List.length_append] at hbound ⊢
    omega

end

/-! ## Whole programs -/

/-- A walk over a program follows its run up to the end of input. -/
theorem follows_untilEnd (cap : Int) (room : Nat) (stop : Place) (program : List Statement)
    (bound : List Token) {m : Machine}
    (hm : m.cursor.rest = tokensOf program ++ [Token.endAt stop])
    (hbound : m.cursor.rest.length ≤ bound.length) :
    Follows [Token.endAt stop]
      (Walk.untilEnd (Walk.statementWith (Walk.block cap room) cap) bound m)
      (runAll cap program room m.store) := by
  induction program generalizing bound m with
  | nil =>
    have hend : m.cursor.atEnd = true := by
      unfold Cursor.atEnd
      rw [Cursor.token_of_rest hm]
      rfl
    rw [Walk.untilEnd_end hend]
    exact ⟨hm, rfl⟩
  | cons statement rest ih =>
    obtain ⟨t, ts, htokens, hplain, -⟩ := tokens_eq_cons statement
    rw [tokensOf, List.append_assoc] at hm
    have hend : m.cursor.atEnd = false := by
      unfold Cursor.atEnd
      rw [htokens] at hm
      rw [Cursor.token_of_rest hm]
      simp [hplain.not_end]
    have hlength : (tokensOf rest ++ [Token.endAt stop]).length < bound.length := by
      rw [hm, htokens] at hbound
      simp only [List.cons_append, List.length_cons, List.length_append] at hbound ⊢
      omega
    cases bound with
    | nil => exact absurd hlength (by simp)
    | cons _ bound =>
      rw [Walk.untilEnd_step hend, runAll]
      have hfresh : Fresh (tokensOf rest ++ [Token.endAt stop]) := fresh_tokensOf rest ⟨rfl, rfl⟩
      refine (follows_statement cap statement room _ m hfresh hm).bind ?_
      rintro _ m' _ _ ⟨hm', rfl⟩
      refine ih bound hm' ?_
      rw [hm']
      exact Nat.le_of_lt_succ hlength

/-- What a host would see of the run of a tree. -/
def observeRun (file : String) : EStateM.Result Stop Store Unit → Observation
  | .ok _ s => ⟨s.printed, s.scopes.globals, .ok none⟩
  | .error (.fault fault) s => ⟨s.printed, s.scopes.globals, .ok (some (fault.inFile file))⟩
  | .error (.abort abort) s => ⟨s.printed, s.scopes.globals, .error abort⟩

/-- An execution is seen as the run its statements follow, and ends where they do. -/
theorem observe_execute_of_follows {limits : Limits} {file : String} {m : Machine}
    {k : List Token} {r : EStateM.Result Stop Store Unit}
    (h : Follows k (Walk.statements limits (m.started file)) r) :
    observe Machine.toSession (Machine.execute limits file m) = observeRun file r ∧
      ∀ m', Machine.execute limits file m = .ok none m' → m'.cursor.rest = k := by
  cases hwalk : Walk.statements limits (m.started file) with
  | ok a n =>
    rw [hwalk] at h
    obtain ⟨b, s, rfl, hk, rfl⟩ := h.ok_left
    rw [Machine.execute_of_ok hwalk]
    refine ⟨rfl, fun m' hm' => ?_⟩
    cases hm'
    exact hk
  | error e n =>
    rw [hwalk] at h
    cases r with
    | ok b s => exact h.elim
    | error f s =>
      obtain ⟨rfl, rfl⟩ := h.resolve_left id
      cases e with
      | fault fault =>
        rw [Machine.execute_of_fault hwalk]
        exact ⟨rfl, fun m' hm' => by cases hm'⟩
      | abort abort =>
        rw [Machine.execute_of_abort hwalk]
        exact ⟨rfl, fun m' hm' => by cases hm'⟩

/-- Executing the tokens of a program is running the program: the host sees the same printed values,
the same global bindings and the same result, and if nothing stops the program, the cursor ends on
the end of input.  The limit on open blocks matters only to a program that is stopped by it. -/
theorem observe_execute_tokensOf (program : List Statement) (stop : Place) (limits : Limits)
    (file : String) (session : Session) :
    let start := session.load (tokensOf program ++ [Token.endAt stop])
    let run := fun room => runAll limits.iterations program room session.store
    observe Machine.toSession (Machine.execute limits file start) =
        observeRun file (run limits.nesting) ∧
      (∀ m, Machine.execute limits file start = .ok none m →
        m.cursor.rest = [Token.endAt stop]) ∧
      (Roomy (run limits.nesting) →
        ∀ room, limits.nesting ≤ room → run room = run limits.nesting) := by
  intro start run
  have hfollows : Follows [Token.endAt stop] (Walk.statements limits (start.started file))
      (run limits.nesting) :=
    follows_untilEnd limits.iterations limits.nesting stop program start.cursor.rest
      (m := start.started file) rfl (Nat.le_refl _)
  obtain ⟨hobserve, hcursor⟩ := observe_execute_of_follows hfollows
  refine ⟨hobserve, hcursor, fun hroomy room hroom => ?_⟩
  exact runAll_eq_of_roomy limits.iterations program limits.nesting room session.store hroom hroomy

end Tree

end TokenWalk
