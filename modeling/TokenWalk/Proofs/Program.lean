import TokenWalk.Proofs.Outcome

/-!
# Programs as trees

The grammar of the language as data.  A tree holds the place of every token that writes it down, so
`tokens` gives each way of laying it out, and `run` gives its meaning by recursion on the tree:

* an expression is a left fold over its operations;
* the body of a loop is a subtree, run in a scope of its own while the condition holds and at most
  `cap` times;
* of a conditional only the branch that the condition selects is run, the other is not looked at.

A run keeps to the limits of the machine: `room` is the number of blocks that may still be opened
inside each other.  There are no cursors here, no scans and no tokens.
-/

namespace TokenWalk

namespace Tree

/-! ## Syntax -/

/-- The kinds of literals. -/
inductive LiteralKind where
  | integer
  | float
  | string

/-- A literal: its text is not read yet. -/
structure Literal where
  kind : LiteralKind
  text : String
  place : Place

/-- A variable where it is mentioned. -/
structure Name where
  text : String
  place : Place

/-- A term of an expression. -/
inductive Term where
  | literal (literal : Literal)
  | mention (name : Name)

/-- An arithmetic operator and the term to its right. -/
structure Operation where
  op : Arithmetic
  place : Place
  right : Term

/-- A term and the operations applied to it, the first one first. -/
structure Expression where
  first : Term
  operations : List Operation

/-- Two expressions around a comparison. -/
structure Condition where
  left : Expression
  op : Comparison
  place : Place
  right : Expression

/-- A punctuation mark that is no brace. -/
structure Mark where
  text : String
  place : Place
  ne_opening : text ≠ "\x7b"
  ne_closing : text ≠ "\x7d"

/-- A token that stands between statements and does nothing. -/
inductive Stray where
  | literal (literal : Literal)
  | mark (mark : Mark)

/-- The two keywords of declarations. -/
inductive Declarator where
  | byVar
  | byLet

/-- The places of the braces around a block. -/
structure Braces where
  opening : Place
  closing : Place

/-- A statement. -/
inductive Statement where
  | declare (keyword : Declarator) (place : Place) (name : Name) (equals : Place)
      (value : Expression)
  | assign (name : Name) (equals : Place) (value : Expression)
  | print (place opening : Place) (value : Expression) (closing : Place)
  | loop (place : Place) (condition : Condition) (braces : Braces) (body : List Statement)
  | branch (place : Place) (condition : Condition) (braces : Braces) (body : List Statement)
  | choice (place : Place) (condition : Condition) (braces : Braces) (body : List Statement)
      (otherwise : Place) (otherBraces : Braces) (other : List Statement)
  | stray (stray : Stray)

/-! ## Tokens -/

def LiteralKind.toKind : LiteralKind → Kind
  | .integer => .integer
  | .float => .float
  | .string => .string

def Literal.token (l : Literal) : Token :=
  ⟨l.kind.toKind, l.text, l.place⟩

def Name.token (n : Name) : Token :=
  ⟨.identifier, n.text, n.place⟩

def Term.token : Term → Token
  | .literal l => l.token
  | .mention n => n.token

def Operation.tokens (o : Operation) : List Token :=
  [⟨.operator, o.op.symbol, o.place⟩, o.right.token]

def Expression.tokens (e : Expression) : List Token :=
  e.first.token :: e.operations.flatMap Operation.tokens

def Condition.tokens (c : Condition) : List Token :=
  c.left.tokens ++ ⟨.operator, c.op.symbol, c.place⟩ :: c.right.tokens

def Stray.token : Stray → Token
  | .literal l => l.token
  | .mark m => ⟨.punctuation, m.text, m.place⟩

def Declarator.text : Declarator → String
  | .byVar => "var"
  | .byLet => "let"

def Braces.openingToken (b : Braces) : Token :=
  ⟨.punctuation, "\x7b", b.opening⟩

def Braces.closingToken (b : Braces) : Token :=
  ⟨.punctuation, "\x7d", b.closing⟩

/-- The tokens of a block. -/
def Braces.around (b : Braces) (body : List Token) : List Token :=
  b.openingToken :: (body ++ [b.closingToken])

mutual

/-- The tokens that write a statement down. -/
def Statement.tokens : Statement → List Token
  | .declare keyword place name equals value =>
      ⟨.keyword, keyword.text, place⟩ :: name.token :: ⟨.operator, "=", equals⟩ :: value.tokens
  | .assign name equals value => name.token :: ⟨.operator, "=", equals⟩ :: value.tokens
  | .print place opening value closing =>
      ⟨.keyword, "print", place⟩ :: ⟨.punctuation, "(", opening⟩ ::
        (value.tokens ++ [⟨.punctuation, ")", closing⟩])
  | .loop place condition braces body =>
      ⟨.keyword, "while", place⟩ :: (condition.tokens ++ braces.around (tokensOf body))
  | .branch place condition braces body =>
      ⟨.keyword, "if", place⟩ :: (condition.tokens ++ braces.around (tokensOf body))
  | .choice place condition braces body otherwise otherBraces other =>
      ⟨.keyword, "if", place⟩ ::
        (condition.tokens ++ braces.around (tokensOf body) ++
          ⟨.keyword, "else", otherwise⟩ :: otherBraces.around (tokensOf other))
  | .stray stray => [stray.token]

/-- The tokens that write a list of statements down. -/
def tokensOf : List Statement → List Token
  | [] => []
  | statement :: rest => statement.tokens ++ tokensOf rest

end

/-! ## Values -/

/-- A stop at a place. -/
def stopAt (place : Place) (cause : Cause) : Stop :=
  .fault (.ofPlace place cause)

/-- A result whose fault points at a place. -/
def pointedAt {α : Type} (place : Place) (result : Except Stop α) : Except Stop α :=
  result.mapError (Stop.locate (some place.line) (some place.column))

/-- The value of a literal: reading its text is the same for everyone. -/
def Literal.value (l : Literal) : Except Stop Value :=
  pointedAt l.place <|
    match l.kind with
    | .integer => integerLiteral l.text
    | .float => floatLiteral l.text
    | .string => .ok (.str l.text)

def Term.value (scopes : Scopes) : Term → Except Stop Value
  | .literal l => l.value
  | .mention n =>
      match scopes.lookup n.text with
      | some value => .ok value
      | none => .error (stopAt n.place (.undefinedVariable n.text))

/-- Applies an operation to the value of what stands to its left. -/
def Operation.apply (scopes : Scopes) (left : Value) (o : Operation) : Except Stop Value := do
  let right ← o.right.value scopes
  let n ← pointedAt o.place (left.apply (.arithmetic o.op) right)
  return .int n

def Expression.value (scopes : Scopes) (e : Expression) : Except Stop Value := do
  let first ← e.first.value scopes
  e.operations.foldlM (Operation.apply scopes) first

def Condition.holds (scopes : Scopes) (c : Condition) : Except Stop Bool := do
  let left ← c.left.value scopes
  let right ← c.right.value scopes
  pointedAt c.place (left.compare (.comparison c.op) right)

/-! ## Runs -/

/-- What a run works on. -/
structure Store where
  scopes : Scopes
  printed : Array Value

/-- A step of a run. -/
abbrev Effect := EStateM Stop Store

/-- Evaluates something with the bindings there are. -/
def evaluate {α : Type} (value : Scopes → Except Stop α) : Effect α := fun s =>
  match value s.scopes with
  | .ok a => .ok a s
  | .error stop => .error stop s

/-- Runs a step in a scope of its own. -/
def inScope (body : Effect Unit) : Effect Unit := fun s =>
  match body { s with scopes := s.scopes.push } with
  | .ok a s => .ok a { s with scopes := s.scopes.pop }
  | .error stop s => .error stop { s with scopes := s.scopes.pop }

/-- The place where a block's text begins, its opening brace aside. -/
def Braces.beginning (braces : Braces) (body : List Token) : Place :=
  (body.headD braces.closingToken).place

/-- Opens a block, if there is room for one more. -/
def opened (room : Nat) (beginning : Place) (body : Nat → Effect Unit) : Effect Unit :=
  match room with
  | 0 => throw (stopAt beginning .nestingTooDeep)
  | room + 1 => body room

/-- Runs a block in a scope of its own. -/
def inBlock (room : Nat) (beginning : Place) (body : Nat → Effect Unit) : Effect Unit :=
  inScope (opened room beginning body)

/-- Runs a body while a condition holds, but not more than a number of times. -/
def repeated (test : Effect Bool) (overrun : Stop) (body : Effect Unit) (times : Nat) :
    Effect Unit := do
  if ← test then
    match times with
    | 0 => throw overrun
    | times + 1 => do
        body
        repeated test overrun body times

mutual

/-- Runs a statement. -/
def Statement.run (cap : Int) : Statement → (room : Nat) → Effect Unit
  | .declare _ _ name _ value, _ => do
      let value ← evaluate value.value
      match (← get).scopes.declare? name.text value with
      | none => throw (stopAt name.place (.redeclared name.text))
      | some scopes => modify fun s => { s with scopes }
  | .assign name _ value, _ => do
      if (← get).scopes.contains name.text then
        let value ← evaluate value.value
        modify fun s => { s with scopes := (s.scopes.update? name.text value).getD s.scopes }
      else throw (stopAt name.place (.undefinedVariable name.text))
  | .print _ _ value _, _ => do
      let value ← evaluate value.value
      modify fun s => { s with printed := s.printed.push value }
  | .loop place condition braces body, room =>
      repeated (evaluate condition.holds) (.overrun place cap)
        (inBlock room (braces.beginning (tokensOf body)) fun room => runAll cap body room)
        cap.toNat
  | .branch _ condition braces body, room => do
      if ← evaluate condition.holds then
        inBlock room (braces.beginning (tokensOf body)) fun room => runAll cap body room
  | .choice _ condition braces body _ otherBraces other, room => do
      if ← evaluate condition.holds then
        inBlock room (braces.beginning (tokensOf body)) fun room => runAll cap body room
      else
        inBlock room (otherBraces.beginning (tokensOf other)) fun room => runAll cap other room
  | .stray _, _ => return

/-- Runs a list of statements. -/
def runAll (cap : Int) : List Statement → (room : Nat) → Effect Unit
  | [], _ => return
  | statement :: rest, room => do
      statement.run cap room
      runAll cap rest room

end

/-! ## Room

The limit on open blocks has one effect only: a run that would pass it is stopped.  A run that is
not stopped by it is the same with any more room. -/

/-- The outcome is not the stop for want of room. -/
def Roomy {α : Type} (r : EStateM.Result Stop Store α) : Prop :=
  ∀ place s, r ≠ .error (stopAt place .nestingTooDeep) s

/-- Two sequences agree if their steps do as far as there is room. -/
theorem bind_eq_of_roomy {α β : Type} {x x' : Effect α} {f f' : α → Effect β} {s : Store}
    (h : Roomy ((x >>= f) s)) (hx : Roomy (x s) → x' s = x s)
    (hf : ∀ a s', Roomy (f a s') → f' a s' = f a s') : (x' >>= f') s = (x >>= f) s := by
  cases hr : x s with
  | ok a s' =>
    have hx' : x' s = .ok a s' := by
      rw [← hr]
      apply hx
      rw [hr]
      intro place s' heq
      cases heq
    rw [bind_of_ok hr] at h ⊢
    rw [bind_of_ok hx']
    exact hf a s' h
  | error e s' =>
    have hx' : x' s = .error e s' := by
      rw [← hr]
      apply hx
      rw [bind_of_error hr] at h
      rw [hr]
      intro place s'' heq
      cases heq
      exact h place _ rfl
    rw [bind_of_error hr, bind_of_error hx']

theorem inScope_eq_of_roomy {body body' : Effect Unit} {s : Store} (h : Roomy (inScope body s))
    (hbody : Roomy (body { s with scopes := s.scopes.push }) →
      body' { s with scopes := s.scopes.push } = body { s with scopes := s.scopes.push }) :
    inScope body' s = inScope body s := by
  have hroomy : Roomy (body { s with scopes := s.scopes.push }) := by
    intro place s' heq
    unfold inScope at h
    rw [heq] at h
    exact h place _ rfl
  unfold inScope
  rw [hbody hroomy]

theorem inBlock_eq_of_roomy {room more : Nat} (hle : room ≤ more) {beginning : Place}
    {body : Nat → Effect Unit} {s : Store} (h : Roomy (inBlock room beginning body s))
    (hbody : ∀ room more s, room ≤ more → Roomy (body room s) → body more s = body room s) :
    inBlock more beginning body s = inBlock room beginning body s := by
  refine inScope_eq_of_roomy h fun hopened => ?_
  cases room with
  | zero => exact absurd rfl (hopened beginning _)
  | succ room =>
    obtain ⟨more, rfl⟩ : ∃ n, more = n + 1 := ⟨more - 1, by omega⟩
    exact hbody room more _ (by omega) hopened

theorem repeated_eq_of_roomy {test : Effect Bool} {overrun : Stop} {body body' : Effect Unit}
    (hbody : ∀ s, Roomy (body s) → body' s = body s) (times : Nat) {s : Store}
    (h : Roomy (repeated test overrun body times s)) :
    repeated test overrun body' times s = repeated test overrun body times s := by
  induction times generalizing s with
  | zero => rfl
  | succ times ih =>
    refine bind_eq_of_roomy h (fun _ => rfl) fun holds s' hrest => ?_
    cases holds with
    | false => rfl
    | true => exact bind_eq_of_roomy hrest (hbody s') fun _ s'' => ih

mutual

/-- More room changes nothing for a statement that has room enough. -/
theorem run_eq_of_roomy (cap : Int) : ∀ (statement : Statement) (room more : Nat) (s : Store),
    room ≤ more → Roomy (statement.run cap room s) →
    statement.run cap more s = statement.run cap room s
  | .declare .., _, _, _, _, _ => by simp only [Statement.run]
  | .assign .., _, _, _, _, _ => by simp only [Statement.run]
  | .print .., _, _, _, _, _ => by simp only [Statement.run]
  | .loop place condition braces body, room, more, s, hle, h => by
    simp only [Statement.run] at h ⊢
    refine repeated_eq_of_roomy (fun s' hbody => ?_) cap.toNat h
    exact inBlock_eq_of_roomy hle hbody fun room more s => runAll_eq_of_roomy cap body room more s
  | .branch place condition braces body, room, more, s, hle, h => by
    simp only [Statement.run] at h ⊢
    refine bind_eq_of_roomy h (fun _ => rfl) fun holds s' hrest => ?_
    cases holds with
    | false => rfl
    | true =>
      exact inBlock_eq_of_roomy hle hrest fun room more s => runAll_eq_of_roomy cap body room more s
  | .choice place condition braces body otherwise otherBraces other, room, more, s, hle, h => by
    simp only [Statement.run] at h ⊢
    refine bind_eq_of_roomy h (fun _ => rfl) fun holds s' hrest => ?_
    cases holds with
    | false =>
      exact inBlock_eq_of_roomy hle hrest
        fun room more s => runAll_eq_of_roomy cap other room more s
    | true =>
      exact inBlock_eq_of_roomy hle hrest fun room more s => runAll_eq_of_roomy cap body room more s
  | .stray _, _, _, _, _, _ => by simp only [Statement.run]

/-- More room changes nothing for statements that have room enough. -/
theorem runAll_eq_of_roomy (cap : Int) : ∀ (body : List Statement) (room more : Nat) (s : Store),
    room ≤ more → Roomy (runAll cap body room s) → runAll cap body more s = runAll cap body room s
  | [], _, _, _, _, _ => rfl
  | statement :: rest, room, more, s, hle, h => by
    simp only [runAll] at h ⊢
    refine bind_eq_of_roomy h (run_eq_of_roomy cap statement room more s hle) fun _ s' hrest => ?_
    exact runAll_eq_of_roomy cap rest room more s' hle hrest

end

end Tree

end TokenWalk
