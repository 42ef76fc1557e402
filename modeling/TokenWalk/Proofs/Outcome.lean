import TokenWalk.Proofs.Frames
import TokenWalk.Session

/-!
# Outcomes of steps

Readings and walks are steps on a state that end with a value or with a stop, and leave a state
either way.  Two notions carry the proofs about them.

* `Meets` says that one outcome satisfies a condition on its value and, if it is a stop, a condition
  on the stop.
* `Answers` says that the outcomes of two steps correspond.  The two steps may work on different
  states, so a walk can be set beside another walk or beside a run of another kind.  A lenient
  correspondence asks nothing once the first step has stopped.

`Meets.bind` and `Answers.bind` follow a program one step at a time.  Below them are the equations
of the primitive readings and walks, which later proofs use in place of the definitions.
-/

namespace TokenWalk

variable {ε σ τ α β γ δ : Type}

/-! ## Sequencing -/

/-- A step that ends with a value goes on with what follows. -/
theorem bind_of_ok {x : EStateM ε σ α} {f : α → EStateM ε σ β} {s s' : σ} {a : α}
    (h : x s = .ok a s') : (x >>= f) s = f a s' := by
  show EStateM.bind x f s = f a s'
  unfold EStateM.bind
  rw [h]

/-- A stop ends the whole sequence. -/
theorem bind_of_error {x : EStateM ε σ α} {f : α → EStateM ε σ β} {s s' : σ} {e : ε}
    (h : x s = .error e s') : (x >>= f) s = .error e s' := by
  show EStateM.bind x f s = .error e s'
  unfold EStateM.bind
  rw [h]

/-- Sequences go on alike from first steps that end alike. -/
theorem bind_congr_left {x y : EStateM ε σ α} {s : σ} (h : x s = y s) (f : α → EStateM ε σ β) :
    (x >>= f) s = (y >>= f) s := by
  show EStateM.bind x f s = EStateM.bind y f s
  unfold EStateM.bind
  rw [h]

/-- A sequence ends with a value exactly when both of its steps do. -/
theorem bind_ok_iff {x : EStateM ε σ α} {f : α → EStateM ε σ β} {s s' : σ} {b : β} :
    (x >>= f) s = .ok b s' ↔ ∃ a s₁, x s = .ok a s₁ ∧ f a s₁ = .ok b s' := by
  cases hx : x s with
  | ok a s₁ =>
    rw [bind_of_ok hx]
    constructor
    · intro h
      exact ⟨a, s₁, rfl, h⟩
    · rintro ⟨a', s', h, hf⟩
      cases h
      exact hf
  | error e s₁ =>
    rw [bind_of_error hx]
    constructor
    · intro h
      cases h
    · rintro ⟨a', s', h, _⟩
      cases h

/-- A sequence stops exactly when one of its steps does. -/
theorem bind_error_iff {x : EStateM ε σ α} {f : α → EStateM ε σ β} {s s' : σ} {e : ε} :
    (x >>= f) s = .error e s' ↔
      x s = .error e s' ∨ ∃ a s₁, x s = .ok a s₁ ∧ f a s₁ = .error e s' := by
  cases hx : x s with
  | ok a s₁ =>
    rw [bind_of_ok hx]
    constructor
    · intro h
      exact .inr ⟨a, s₁, rfl, h⟩
    · rintro (h | ⟨a', s', h, hf⟩)
      · cases h
      · cases h
        exact hf
  | error e s₁ =>
    rw [bind_of_error hx]
    constructor
    · intro h
      cases h
      exact .inl rfl
    · rintro (h | ⟨a', s', h, _⟩)
      · cases h
        rfl
      · cases h

/-! ## One outcome -/

/-- An outcome has a property: one for values, one for stops. -/
def Meets (Q : α → σ → Prop) (E : ε → σ → Prop) : EStateM.Result ε σ α → Prop
  | .ok a s => Q a s
  | .error e s => E e s

instance {Q : α → σ → Prop} {E : ε → σ → Prop} [∀ a s, Decidable (Q a s)]
    [∀ e s, Decidable (E e s)] : (r : EStateM.Result ε σ α) → Decidable (Meets Q E r)
  | .ok a s => inferInstanceAs (Decidable (Q a s))
  | .error e s => inferInstanceAs (Decidable (E e s))

/-- A sequence meets what its second step meets after the first. -/
theorem Meets.bind {P : α → σ → Prop} {Q : β → σ → Prop} {E : ε → σ → Prop}
    {x : EStateM ε σ α} {f : α → EStateM ε σ β} {s : σ}
    (hx : Meets P E (x s)) (hf : ∀ a s', P a s' → Meets Q E (f a s')) :
    Meets Q E ((x >>= f) s) := by
  cases h : x s with
  | ok a s' =>
    rw [h] at hx
    rw [bind_of_ok h]
    exact hf a s' hx
  | error e s' =>
    rw [h] at hx
    rw [bind_of_error h]
    exact hx

/-- An outcome keeps a property that is weakened. -/
theorem Meets.mono {P Q : α → σ → Prop} {E F : ε → σ → Prop} {r : EStateM.Result ε σ α}
    (h : Meets P E r) (hPQ : ∀ a s, P a s → Q a s) (hEF : ∀ e s, E e s → F e s) :
    Meets Q F r := by
  cases r with
  | ok a s => exact hPQ a s h
  | error e s => exact hEF e s h

/-- What an outcome meets holds of the value it ends with. -/
theorem Meets.of_ok {Q : α → σ → Prop} {E : ε → σ → Prop} {r : EStateM.Result ε σ α} {a : α}
    {s : σ} (h : Meets Q E r) (hr : r = .ok a s) : Q a s := by
  subst hr
  exact h

/-- What an outcome meets holds of the stop it ends with. -/
theorem Meets.of_error {Q : α → σ → Prop} {E : ε → σ → Prop} {r : EStateM.Result ε σ α} {e : ε}
    {s : σ} (h : Meets Q E r) (hr : r = .error e s) : E e s := by
  subst hr
  exact h

/-- The state that an outcome leaves, be it that of a value or of a stop. -/
def final : EStateM.Result ε σ α → σ
  | .ok _ s => s
  | .error _ s => s

/-- What an outcome meets however it ends holds of the state it leaves. -/
theorem Meets.final {P : σ → Prop} {r : EStateM.Result ε σ α}
    (h : Meets (fun _ s => P s) (fun _ s => P s) r) : P (final r) := by
  cases r with
  | ok a s => exact h
  | error e s => exact h

/-! ## Two outcomes -/

/-- Two outcomes correspond: values go with values and stops with stops.  If the correspondence is
lenient, a stop of the first goes with anything. -/
def Answers (lenient : Prop) (V : α → σ → β → τ → Prop) (F : ε → σ → ε → τ → Prop) :
    EStateM.Result ε σ α → EStateM.Result ε τ β → Prop
  | .ok a s, .ok b t => V a s b t
  | .ok _ _, .error _ _ => False
  | .error _ _, .ok _ _ => lenient
  | .error e s, .error f t => lenient ∨ F e s f t

/-- Sequences correspond when their first steps do, and what follows does wherever the first run
gets. -/
theorem Answers.bind_of_eq_ok {lenient : Prop} {V : α → σ → β → τ → Prop} {W : γ → σ → δ → τ → Prop}
    {F : ε → σ → ε → τ → Prop} {x : EStateM ε σ α} {y : EStateM ε τ β}
    {f : α → EStateM ε σ γ} {g : β → EStateM ε τ δ} {s : σ} {t : τ}
    (hxy : Answers lenient V F (x s) (y t))
    (hfg : ∀ a s' b t', x s = .ok a s' → V a s' b t' → Answers lenient W F (f a s') (g b t')) :
    Answers lenient W F ((x >>= f) s) ((y >>= g) t) := by
  cases hx : x s with
  | ok a s' =>
    cases hy : y t with
    | ok b t' =>
      rw [hx, hy] at hxy
      rw [bind_of_ok hx, bind_of_ok hy]
      exact hfg a s' b t' hx hxy
    | error f t' =>
      rw [hx, hy] at hxy
      exact hxy.elim
  | error e s' =>
    rw [bind_of_error hx]
    cases hy : y t with
    | ok b t' =>
      rw [hx, hy] at hxy
      rw [bind_of_ok hy]
      -- The second run goes on alone, which only a lenient correspondence allows.
      cases g b t' with
      | ok _ _ => exact hxy
      | error _ _ => exact Or.inl hxy
    | error f t' =>
      rw [hx, hy] at hxy
      rw [bind_of_error hy]
      exact hxy

/-- Sequences correspond when their steps do. -/
theorem Answers.bind {lenient : Prop} {V : α → σ → β → τ → Prop} {W : γ → σ → δ → τ → Prop}
    {F : ε → σ → ε → τ → Prop} {x : EStateM ε σ α} {y : EStateM ε τ β}
    {f : α → EStateM ε σ γ} {g : β → EStateM ε τ δ} {s : σ} {t : τ}
    (hxy : Answers lenient V F (x s) (y t))
    (hfg : ∀ a s' b t', V a s' b t' → Answers lenient W F (f a s') (g b t')) :
    Answers lenient W F ((x >>= f) s) ((y >>= g) t) :=
  hxy.bind_of_eq_ok fun a s' b t' _ => hfg a s' b t'

/-- The first run takes a further step, which does not stop and for which the second has no
counterpart. -/
theorem Answers.then_left {lenient : Prop} {V : α → σ → β → τ → Prop} {W : γ → σ → β → τ → Prop}
    {F : ε → σ → ε → τ → Prop} {x : EStateM ε σ α} {f : α → EStateM ε σ γ} {s : σ}
    {r : EStateM.Result ε τ β} (hx : Answers lenient V F (x s) r)
    (hf : ∀ a s' b t, V a s' b t → ∃ c s'', f a s' = .ok c s'' ∧ W c s'' b t) :
    Answers lenient W F ((x >>= f) s) r := by
  cases h : x s with
  | ok a s' =>
    rw [h] at hx
    rw [bind_of_ok h]
    cases r with
    | ok b t =>
      obtain ⟨c, s'', hstep, hW⟩ := hf a s' b t hx
      rw [hstep]
      exact hW
    | error f t => exact hx.elim
  | error e s' =>
    rw [h] at hx
    rw [bind_of_error h]
    cases r with
    | ok b t => exact hx
    | error f t => exact hx

/-- A correspondence may be weakened. -/
theorem Answers.mono {lenient : Prop} {V W : α → σ → β → τ → Prop} {F G : ε → σ → ε → τ → Prop}
    {r : EStateM.Result ε σ α} {r' : EStateM.Result ε τ β} (h : Answers lenient V F r r')
    (hVW : ∀ a s b t, V a s b t → W a s b t) (hFG : ∀ e s f t, F e s f t → G e s f t) :
    Answers lenient W G r r' := by
  cases r with
  | ok a s =>
    cases r' with
    | ok b t => exact hVW a s b t h
    | error f t => exact h
  | error e s =>
    cases r' with
    | ok b t => exact h
    | error f t => exact h.imp id (hFG e s f t)

/-- A value is answered by a value. -/
theorem Answers.ok_left {lenient : Prop} {V : α → σ → β → τ → Prop} {F : ε → σ → ε → τ → Prop}
    {a : α} {s : σ} {r' : EStateM.Result ε τ β} (h : Answers lenient V F (.ok a s) r') :
    ∃ b t, r' = .ok b t ∧ V a s b t := by
  cases r' with
  | ok b t => exact ⟨b, t, rfl, h⟩
  | error f t => exact h.elim

/-- Once the first run has stopped, a lenient correspondence asks nothing. -/
theorem Answers.of_lenient {lenient : Prop} {V : α → σ → β → τ → Prop} {F : ε → σ → ε → τ → Prop}
    (h : lenient) (e : ε) (s : σ) (r' : EStateM.Result ε τ β) :
    Answers lenient V F (.error e s) r' := by
  cases r' with
  | ok b t => exact h
  | error f t => exact Or.inl h

/-- What each outcome meets by itself can be added to a correspondence. -/
theorem Answers.and_meets {lenient : Prop} {V : α → σ → β → τ → Prop} {F : ε → σ → ε → τ → Prop}
    {Q : α → σ → Prop} {Q' : β → τ → Prop} {E : ε → σ → Prop} {E' : ε → τ → Prop}
    {r : EStateM.Result ε σ α} {r' : EStateM.Result ε τ β} (h : Answers lenient V F r r')
    (hr : Meets Q E r) (hr' : Meets Q' E' r') :
    Answers lenient (fun a s b t => V a s b t ∧ Q a s ∧ Q' b t) F r r' := by
  cases r with
  | ok a s =>
    cases r' with
    | ok b t => exact ⟨h, hr, hr'⟩
    | error f t => exact h
  | error e s =>
    cases r' with
    | ok b t => exact h
    | error f t => exact h

/-! ## What a host sees -/

/-- What a run lets its host see: the values printed so far, the global bindings and the result. -/
structure Observation where
  printed : Array Value
  globals : Frame
  result : Except Abort (Option Fault)

/-- What is seen of a run on a state that holds a session. -/
def observe (session : σ → Session) : EStateM.Result Abort σ (Option Fault) → Observation
  | .ok result s => ⟨(session s).printed, (session s).scopes.globals, .ok result⟩
  | .error abort s => ⟨(session s).printed, (session s).scopes.globals, .error abort⟩

namespace Machine

variable {limits : Limits} {file : String} {m n : Machine}

/-- The machine at the start of an execution, which is noted. -/
def started (file : String) (m : Machine) : Machine :=
  { m with journal := m.journal.push (.started file m.cursor.position) }

/-- What an execution comes to, by how its statements end. -/
def conclude (file : String) :
    EStateM.Result Stop Machine Unit → EStateM.Result Abort Machine (Option Fault)
  | .ok _ m => .ok none { m with scopes := m.scopes.reset }
  | .error (.fault fault) m =>
      .ok (some (fault.inFile file)) { m with
        scopes := m.scopes.reset, journal := m.journal.push (.reported (fault.inFile file)) }
  | .error (.abort abort) m => .error abort { m with scopes := m.scopes.reset }

@[simp] theorem printed_conclude (file : String) (r : EStateM.Result Stop Machine Unit) :
    (final (conclude file r)).printed = (final r).printed := by
  cases r with
  | ok _ n => rfl
  | error e n => cases e <;> rfl

@[simp] theorem cursor_conclude (file : String) (r : EStateM.Result Stop Machine Unit) :
    (final (conclude file r)).cursor = (final r).cursor := by
  cases r with
  | ok _ n => rfl
  | error e n => cases e <;> rfl

theorem execute_of_ok (h : Walk.statements limits (m.started file) = .ok () n) :
    execute limits file m = .ok none { n with scopes := n.scopes.reset } := by
  unfold started at h
  simp only [execute, h]

theorem execute_of_fault {fault : Fault}
    (h : Walk.statements limits (m.started file) = .error (.fault fault) n) :
    execute limits file m = .ok (some (fault.inFile file)) { n with
      scopes := n.scopes.reset, journal := n.journal.push (.reported (fault.inFile file)) } := by
  unfold started at h
  simp only [execute, h]

theorem execute_of_abort {abort : Abort}
    (h : Walk.statements limits (m.started file) = .error (.abort abort) n) :
    execute limits file m = .error abort { n with scopes := n.scopes.reset } := by
  unfold started at h
  simp only [execute, h]

theorem execute_eq (limits : Limits) (file : String) (m : Machine) :
    execute limits file m = conclude file (Walk.statements limits (m.started file)) := by
  cases h : Walk.statements limits (m.started file) with
  | ok _ n => exact execute_of_ok h
  | error stop n =>
    cases stop with
    | fault fault => exact execute_of_fault h
    | abort abort => exact execute_of_abort h

end Machine

/-! ## Primitive readings and walks -/

namespace Reading

@[simp] theorem current_apply (c : Cursor) : current c = .ok c.token c := rfl

@[simp] theorem advance_apply (c : Cursor) : advance c = .ok c.token c.next := rfl

@[simp] theorem fail_apply (token : Token) (cause : Cause) (c : Cursor) :
    (fail token cause : Reading α) c = .error (.fault (.ofPlace token.place cause)) c := rfl

theorem expect_apply (kind : Kind) (text? : Option String) (c : Cursor) :
    expect kind text? c =
      if c.token.is kind text? then .ok c.token c.next
      else fail c.token (.unexpectedToken (text?.elim (.kind kind) .text) c.token) c := by
  show (if c.token.is kind text? then advance else fail c.token _) c = _
  split
  · rfl
  · rfl

/-- A token is taken exactly when it is the expected one. -/
theorem expect_ok_iff {kind : Kind} {text? : Option String} {c d : Cursor} {t : Token} :
    expect kind text? c = .ok t d ↔ c.token.is kind text? = true ∧ t = c.token ∧ d = c.next := by
  rw [expect_apply]
  split
  next h => simp [h, eq_comm]
  next h => simp [h]

theorem expect_error_iff {kind : Kind} {text? : Option String} {c d : Cursor} {e : Stop} :
    expect kind text? c = .error e d ↔
      c.token.is kind text? = false ∧
        e = .fault (.ofPlace c.token.place
          (.unexpectedToken (text?.elim (.kind kind) .text) c.token)) ∧ d = c := by
  rw [expect_apply]
  split
  next h => simp [h]
  next h => simp [h, eq_comm]

theorem openBrace_apply (c : Cursor) :
    openBrace c =
      if c.token.opensBlock then .ok () c.next
      else fail c.token (.unexpectedToken (.text "\x7b") c.token) c := by
  show (expect .punctuation (some "\x7b") >>= fun _ => pure ()) c = _
  cases hopens : c.token.opensBlock with
  | true => exact bind_of_ok (expect_ok_iff.mpr ⟨hopens, rfl, rfl⟩)
  | false => exact bind_of_error (expect_error_iff.mpr ⟨hopens, rfl, rfl⟩)

/-! ## The parts of an expression -/

theorem term_of_some {scopes : Scopes} {c : Cursor} {r : Except Stop Value}
    (h : c.token.value? scopes = some r) : term scopes c = ofExcept c.token r c.next := by
  unfold term
  rw [bind_of_ok (current_apply c), h]
  rfl

theorem term_of_none {scopes : Scopes} {c : Cursor} (h : c.token.value? scopes = none) :
    term scopes c =
      .error (.fault (.ofPlace c.token.place (.unexpectedToken .value c.token))) c := by
  unfold term
  rw [bind_of_ok (current_apply c), h]
  rfl

theorem operations_of_not_joins {c : Cursor} (scopes : Scopes) (bound : List Token) (left : Value)
    (h : joins c.token = false) : operations scopes bound left c = .ok left c := by
  cases bound with
  | nil => rfl
  | cons b bound =>
    unfold operations
    rw [bind_of_ok (current_apply c), h]
    rfl

/-- One operator and the operand after it. -/
def operation (scopes : Scopes) (left : Value) (token : Token) : Reading Int :=
  match Arithmetic.ofSymbol? token.text with
  | none => fail token (.unknownOperator token.text)
  | some op => do
      let right ← term scopes
      ofExcept token (left.apply (.arithmetic op) right)

theorem operations_of_joins {c : Cursor} (scopes : Scopes) (b : Token) (bound : List Token)
    (left : Value) (h : joins c.token = true) :
    operations scopes (b :: bound) left c =
      (operation scopes left c.token >>= fun n => operations scopes bound (.int n)) c.next := by
  unfold operation
  rw [operations, bind_of_ok (current_apply c), h]
  simp only [if_true]
  rw [bind_of_ok (advance_apply c)]
  cases Arithmetic.ofSymbol? c.token.text with
  | none => rfl
  | some op => simp only [bind_assoc]

/-- What a condition does with the token after its left side. -/
def comparing (scopes : Scopes) (left : Value) (token : Token) : Reading Bool :=
  match token.kind, Comparison.ofSymbol? token.text with
  | .operator, some op => do
      let _ ← advance
      let right ← expression scopes
      ofExcept token (left.compare (.comparison op) right)
  | _, _ => fail token (.unexpectedToken .comparison token)

theorem condition_eq (scopes : Scopes) :
    condition scopes = (do
      let left ← expression scopes
      let token ← current
      comparing scopes left token) := rfl

theorem comparing_of_some {token : Token} {op : Comparison} (scopes : Scopes) (left : Value)
    (hkind : token.kind = .operator) (hop : Comparison.ofSymbol? token.text = some op) :
    comparing scopes left token = (do
      let _ ← advance
      let right ← expression scopes
      ofExcept token (left.compare (.comparison op) right)) := by
  simp only [comparing, hkind, hop]

theorem comparing_of_none {token : Token} (scopes : Scopes) (left : Value)
    (h : token.kind = .operator → Comparison.ofSymbol? token.text = none) :
    comparing scopes left token = fail token (.unexpectedToken .comparison token) := by
  unfold comparing
  split
  next hkind hop =>
    rw [h hkind] at hop
    cases hop
  next => rfl

end Reading

namespace Walk

/-- A reading that ends with a value moves the cursor. -/
theorem read_of_ok {reading : Reading α} {m : Machine} {a : α} {c : Cursor}
    (h : reading m.cursor = .ok a c) : read reading m = .ok a { m with cursor := c } := by
  unfold read
  rw [h]

/-- A reading that stops moves the cursor, too. -/
theorem read_of_error {reading : Reading α} {m : Machine} {e : Stop} {c : Cursor}
    (h : reading m.cursor = .error e c) : read reading m = .error e { m with cursor := c } := by
  unfold read
  rw [h]

/-- Readings that correspond on the cursors do so on the machines. -/
theorem read_answers {lenient : Prop} {V : α → Cursor → β → Cursor → Prop}
    {F : Stop → Cursor → Stop → Cursor → Prop} {W : α → Machine → β → Machine → Prop}
    {G : Stop → Machine → Stop → Machine → Prop} {x : Reading α} {y : Reading β} {m m' : Machine}
    (h : Answers lenient V F (x m.cursor) (y m'.cursor))
    (hvalue : ∀ a d b d', V a d b d' → W a { m with cursor := d } b { m' with cursor := d' })
    (hstop : ∀ e d f d', F e d f d' → G e { m with cursor := d } f { m' with cursor := d' }) :
    Answers lenient W G (read x m) (read y m') := by
  unfold read
  cases hx : x m.cursor with
  | ok a d =>
    rw [hx] at h
    obtain ⟨b, d', hy, hv⟩ := h.ok_left
    rw [hy]
    exact hvalue a d b d' hv
  | error e d =>
    rw [hx] at h
    cases hy : y m'.cursor with
    | ok b d' =>
      rw [hy] at h
      exact h
    | error f d' =>
      rw [hy] at h
      exact h.imp id (hstop e d f d')

/-- A reading ends with a value on the machine exactly when it does on the cursor. -/
theorem read_ok_iff {reading : Reading α} {m m' : Machine} {a : α} :
    read reading m = .ok a m' ↔ ∃ c, reading m.cursor = .ok a c ∧ m' = { m with cursor := c } := by
  cases h : reading m.cursor with
  | ok b c =>
    rw [read_of_ok h]
    constructor
    · rintro ⟨⟩
      exact ⟨c, rfl, rfl⟩
    · rintro ⟨d, ⟨⟩, rfl⟩
      rfl
  | error e c =>
    rw [read_of_error h]
    simp

/-- A reading stops on the machine exactly when it does on the cursor. -/
theorem read_error_iff {reading : Reading α} {m m' : Machine} {e : Stop} :
    read reading m = .error e m' ↔
      ∃ c, reading m.cursor = .error e c ∧ m' = { m with cursor := c } := by
  cases h : reading m.cursor with
  | ok a c =>
    rw [read_of_ok h]
    simp
  | error e' c =>
    rw [read_of_error h]
    constructor
    · rintro ⟨⟩
      exact ⟨c, rfl, rfl⟩
    · rintro ⟨d, ⟨⟩, rfl⟩
      rfl

@[simp] theorem get_apply (m : Machine) : (get : Walk Machine) m = .ok m m := rfl

/-- A name that is visible before an expression can be updated after it: an assignment looks before,
so it never finds its name unbound. -/
theorem exists_update?_of_expression {m m' : Machine} {name : String} {value : Value}
    (h : expression m = .ok value m') (hvisible : m.scopes.contains name = true) :
    ∃ scopes, m'.scopes.update? name value = some scopes := by
  obtain ⟨c, -, rfl⟩ := read_ok_iff.mp h
  exact Scopes.exists_update? hvisible value

@[simp] theorem read_current (m : Machine) : read .current m = .ok m.cursor.token m := rfl

@[simp] theorem read_advance (m : Machine) :
    read .advance m = .ok m.cursor.token { m with cursor := m.cursor.next } := rfl

@[simp] theorem read_fail (token : Token) (cause : Cause) (m : Machine) :
    read (.fail token cause : Reading α) m = .error (.fault (.ofPlace token.place cause)) m := rfl

theorem read_discard_expect_ok_iff {kind : Kind} {text? : Option String} {m m' : Machine} :
    read (discard (.expect kind text?)) m = .ok () m' ↔
      m.cursor.token.is kind text? = true ∧ m' = { m with cursor := m.cursor.next } := by
  rw [read_ok_iff]
  show (∃ c, (Reading.expect kind text? >>= fun _ => pure ()) m.cursor = _ ∧ _) ↔ _
  constructor
  · rintro ⟨c, h, rfl⟩
    obtain ⟨t, d, hexpect, hpure⟩ := bind_ok_iff.mp h
    obtain ⟨his, -, rfl⟩ := Reading.expect_ok_iff.mp hexpect
    cases hpure
    exact ⟨his, rfl⟩
  · rintro ⟨his, rfl⟩
    refine ⟨m.cursor.next, ?_, rfl⟩
    exact bind_of_ok (Reading.expect_ok_iff.mpr ⟨his, rfl, rfl⟩)

theorem read_discard_expect_error {kind : Kind} {text? : Option String} {m m' : Machine} {e : Stop}
    (h : read (discard (.expect kind text?)) m = .error e m') :
    read (.expect kind text?) m = .error e m' := by
  obtain ⟨c, hdiscard, rfl⟩ := read_error_iff.mp h
  obtain hexpect | ⟨t, d, -, hpure⟩ := bind_error_iff.mp
    (hdiscard : (Reading.expect kind text? >>= fun _ => pure ()) m.cursor = _)
  · exact read_of_error hexpect
  · cases hpure

theorem read_openBrace_ok_iff {m m' : Machine} :
    read .openBrace m = .ok () m' ↔
      m.cursor.token.opensBlock = true ∧ m' = { m with cursor := m.cursor.next } :=
  read_discard_expect_ok_iff

theorem read_closeBrace_ok_iff {m m' : Machine} :
    read .closeBrace m = .ok () m' ↔
      m.cursor.token.closesBlock = true ∧ m' = { m with cursor := m.cursor.next } :=
  read_discard_expect_ok_iff

/-- A walk in a frame of its own ends with a value exactly when the walk does with the frame
pushed. -/
theorem inFrame_ok_iff {body : Walk Unit} {m m' : Machine} :
    inFrame body m = .ok () m' ↔
      ∃ m₁, body { m with scopes := m.scopes.push } = .ok () m₁ ∧
        m' = { m₁ with scopes := m₁.scopes.pop } := by
  unfold inFrame
  cases body { m with scopes := m.scopes.push } with
  | ok a m₁ => simp [eq_comm]
  | error e m₁ => simp

theorem inFrame_error_iff {body : Walk Unit} {m m' : Machine} {e : Stop} :
    inFrame body m = .error e m' ↔
      ∃ m₁, body { m with scopes := m.scopes.push } = .error e m₁ ∧
        m' = { m₁ with scopes := m₁.scopes.pop } := by
  unfold inFrame
  cases body { m with scopes := m.scopes.push } with
  | ok a m₁ => simp
  | error e' m₁ =>
    constructor
    · rintro ⟨⟩
      exact ⟨m₁, rfl, rfl⟩
    · rintro ⟨m₂, ⟨⟩, rfl⟩
      rfl

/-- Walks that correspond with the frames pushed do so in their frames, if the correspondence lasts
when the frames are removed. -/
theorem inFrame_answers {lenient : Prop} {V : Unit → Machine → Unit → Machine → Prop}
    {F : Stop → Machine → Stop → Machine → Prop} {body body' : Walk Unit} {m m' : Machine}
    (h : Answers lenient V F (body { m with scopes := m.scopes.push })
      (body' { m' with scopes := m'.scopes.push }))
    (hvalue : ∀ a n b n', V a n b n' →
      V a { n with scopes := n.scopes.pop } b { n' with scopes := n'.scopes.pop })
    (hstop : ∀ e n f n', F e n f n' →
      F e { n with scopes := n.scopes.pop } f { n' with scopes := n'.scopes.pop }) :
    Answers lenient V F (inFrame body m) (inFrame body' m') := by
  unfold inFrame
  cases hr : body { m with scopes := m.scopes.push } with
  | ok a n =>
    rw [hr] at h
    obtain ⟨b, n', hr', hv⟩ := h.ok_left
    rw [hr']
    exact hvalue a n b n' hv
  | error e n =>
    rw [hr] at h
    cases hr' : body' { m' with scopes := m'.scopes.push } with
    | ok b n' =>
      rw [hr'] at h
      exact h
    | error f n' =>
      rw [hr'] at h
      exact h.imp id (hstop e n f n')

/-! ## The parts of a conditional -/

/-- The head of a conditional: takes `if`, the condition and the opening brace. -/
def test : Walk Bool := do
  let keyword ← read .advance
  let holds ← condition
  read .openBrace
  note (.decided keyword.place.line holds)
  return holds

/-- What a conditional does once its condition is known. -/
def settle (block : Walk Unit) (holds : Bool) : Walk Unit :=
  if holds then do
    branch block
    alternative (read .skipBlock)
  else do
    read .skipBlock
    alternative (branch block)

theorem conditional_eq (block : Walk Unit) : conditional block = test >>= settle block := by
  unfold conditional test settle
  simp only [bind_assoc, pure_bind]

/-- Without an `else` nothing happens. -/
theorem alternative_without {body : Walk Unit} {m : Machine}
    (h : m.cursor.token.is .keyword (some "else") = false) : alternative body m = .ok () m := by
  unfold alternative
  rw [bind_of_ok (read_current m), h]
  rfl

/-- After an `else` come an opening brace and the given step. -/
theorem alternative_else {body : Walk Unit} {m : Machine}
    (h : m.cursor.token.is .keyword (some "else") = true) :
    alternative body m =
      (read .openBrace >>= fun _ => body) { m with cursor := m.cursor.next } := by
  unfold alternative
  rw [bind_of_ok (read_current m), h]
  rfl

theorem alternative_ok_iff {body : Walk Unit} {m m' : Machine} :
    alternative body m = .ok () m' ↔
      m.cursor.token.is .keyword (some "else") = false ∧ m' = m ∨
        m.cursor.token.is .keyword (some "else") = true ∧
          m.cursor.next.token.opensBlock = true ∧
          body { m with cursor := m.cursor.next.next } = .ok () m' := by
  cases helse : m.cursor.token.is .keyword (some "else") with
  | false =>
    rw [alternative_without helse]
    constructor
    · rintro ⟨⟩
      exact .inl ⟨rfl, rfl⟩
    · rintro (⟨-, rfl⟩ | ⟨hfalse, -⟩)
      · rfl
      · cases hfalse
  | true =>
    rw [alternative_else helse, bind_ok_iff]
    constructor
    · rintro ⟨_, m₁, hopen, hbody⟩
      obtain ⟨hopens, rfl⟩ := read_openBrace_ok_iff.mp hopen
      exact .inr ⟨rfl, hopens, hbody⟩
    · rintro (⟨hfalse, -⟩ | ⟨-, hopens, hbody⟩)
      · cases hfalse
      · exact ⟨(), _, read_openBrace_ok_iff.mpr ⟨hopens, rfl⟩, hbody⟩

/-! ## The choice of a statement

`statementWith` looks at one token and chooses.  The equations below are its branches, and
`Dispatch` collects them, so that a proof about all statements has one named case for each. -/

section Dispatch

variable {block : Walk Unit} {cap : Int} {m : Machine}

theorem statementWith_declaration (hkind : m.cursor.token.kind = .keyword)
    (htext : m.cursor.token.text = "var" ∨ m.cursor.token.text = "let") :
    statementWith block cap m = declaration m := by
  unfold statementWith
  rw [bind_of_ok (read_current m)]
  rcases htext with htext | htext
  · simp only [hkind, htext]
  · simp only [hkind, htext]

theorem statementWith_printing (hkind : m.cursor.token.kind = .keyword)
    (htext : m.cursor.token.text = "print") : statementWith block cap m = printing m := by
  unfold statementWith
  rw [bind_of_ok (read_current m)]
  simp only [hkind, htext]

theorem statementWith_loop (hkind : m.cursor.token.kind = .keyword)
    (htext : m.cursor.token.text = "while") : statementWith block cap m = loop block cap m := by
  unfold statementWith
  rw [bind_of_ok (read_current m)]
  simp only [hkind, htext]

theorem statementWith_conditional (hkind : m.cursor.token.kind = .keyword)
    (htext : m.cursor.token.text = "if") : statementWith block cap m = conditional block m := by
  unfold statementWith
  rw [bind_of_ok (read_current m)]
  simp only [hkind, htext]

theorem statementWith_assignment (hkind : m.cursor.token.kind = .identifier) :
    statementWith block cap m = assignment m := by
  unfold statementWith
  rw [bind_of_ok (read_current m)]
  simp only [hkind]

/-- The machine after a token that starts no statement. -/
def passed (m : Machine) : Machine :=
  { m with journal := m.journal.push (.skipped m.cursor.token), cursor := m.cursor.next }

theorem statementWith_stray (hkeyword : m.cursor.token.kind ≠ .keyword)
    (hidentifier : m.cursor.token.kind ≠ .identifier) :
    statementWith block cap m = .ok () (passed m) := by
  unfold statementWith
  rw [bind_of_ok (read_current m)]
  cases hkind : m.cursor.token.kind with
  | keyword => exact absurd hkind hkeyword
  | identifier => exact absurd hkind hidentifier
  | integer | float | string | operator | punctuation | endOfInput => rfl

/-- The keywords that start a statement. -/
def handled : List String :=
  ["var", "let", "print", "while", "if"]

theorem statementWith_unhandled (hkind : m.cursor.token.kind = .keyword)
    (htext : m.cursor.token.text ∉ handled) :
    statementWith block cap m =
      .error
        (.fault (.ofPlace m.cursor.token.place (.unhandledKeyword m.cursor.token.text))) m := by
  simp only [handled, List.mem_cons, List.not_mem_nil, or_false, not_or] at htext
  obtain ⟨hvar, hlet, hprint, hwhile, hif⟩ := htext
  unfold statementWith
  rw [bind_of_ok (read_current m)]
  simp only [hkind]
  rfl

/-- The outcome of a statement by the token it starts with. -/
inductive Dispatch (block : Walk Unit) (cap : Int) (m : Machine) :
    EStateM.Result Stop Machine Unit → Prop where
  | declaration (hkind : m.cursor.token.kind = .keyword)
      (htext : m.cursor.token.text = "var" ∨ m.cursor.token.text = "let") :
      Dispatch block cap m (declaration m)
  | printing (hkind : m.cursor.token.kind = .keyword) (htext : m.cursor.token.text = "print") :
      Dispatch block cap m (printing m)
  | loop (hkind : m.cursor.token.kind = .keyword) (htext : m.cursor.token.text = "while") :
      Dispatch block cap m (loop block cap m)
  | conditional (hkind : m.cursor.token.kind = .keyword) (htext : m.cursor.token.text = "if") :
      Dispatch block cap m (conditional block m)
  | unhandled (hkind : m.cursor.token.kind = .keyword) (htext : m.cursor.token.text ∉ handled) :
      Dispatch block cap m
        (.error (.fault (.ofPlace m.cursor.token.place (.unhandledKeyword m.cursor.token.text))) m)
  | assignment (hkind : m.cursor.token.kind = .identifier) :
      Dispatch block cap m (assignment m)
  | stray (hkeyword : m.cursor.token.kind ≠ .keyword)
      (hidentifier : m.cursor.token.kind ≠ .identifier) :
      Dispatch block cap m (.ok () (passed m))

/-- A statement does one of the things that `Dispatch` lists. -/
theorem dispatch (block : Walk Unit) (cap : Int) (m : Machine) :
    Dispatch block cap m (statementWith block cap m) := by
  by_cases hkeyword : m.cursor.token.kind = .keyword
  · by_cases htext : m.cursor.token.text ∈ handled
    · simp only [handled, List.mem_cons, List.not_mem_nil, or_false] at htext
      rcases htext with h | h | h | h | h
      · rw [statementWith_declaration hkeyword (.inl h)]
        exact .declaration hkeyword (.inl h)
      · rw [statementWith_declaration hkeyword (.inr h)]
        exact .declaration hkeyword (.inr h)
      · rw [statementWith_printing hkeyword h]
        exact .printing hkeyword h
      · rw [statementWith_loop hkeyword h]
        exact .loop hkeyword h
      · rw [statementWith_conditional hkeyword h]
        exact .conditional hkeyword h
    · rw [statementWith_unhandled hkeyword htext]
      exact .unhandled hkeyword htext
  · by_cases hidentifier : m.cursor.token.kind = .identifier
    · rw [statementWith_assignment hidentifier]
      exact .assignment hidentifier
    · rw [statementWith_stray hkeyword hidentifier]
      exact .stray hkeyword hidentifier

end Dispatch

/-! ## One statement at a time -/

section Rows

variable {statement : Walk Unit} {m : Machine}

theorem untilBrace_end (hend : m.cursor.token.kind = .endOfInput) (bound : List Token) :
    untilBrace statement bound m =
      .error (.fault (.ofPlace m.cursor.token.place .unclosedBlock)) m := by
  cases bound with
  | nil => rfl
  | cons b bound =>
    have hcloses : m.cursor.token.closesBlock = false := by
      simp [Token.closesBlock, Token.is, hend]
    rw [untilBrace, bind_of_ok (read_current m), hcloses, hend]
    rfl

theorem untilBrace_closing (hcloses : m.cursor.token.closesBlock = true) (b : Token)
    (bound : List Token) : untilBrace statement (b :: bound) m = .ok () m := by
  rw [untilBrace, bind_of_ok (read_current m), hcloses]
  rfl

theorem untilBrace_step (hcloses : m.cursor.token.closesBlock = false)
    (hend : m.cursor.token.kind ≠ .endOfInput) (b : Token) (bound : List Token) :
    untilBrace statement (b :: bound) m =
      (statement >>= fun _ => untilBrace statement bound) m := by
  rw [untilBrace, bind_of_ok (read_current m), hcloses]
  simp only [Bool.false_eq_true, if_false, beq_iff_eq, hend]

theorem untilEnd_end (hend : m.cursor.atEnd = true) (bound : List Token) :
    untilEnd statement bound m = .ok () m := by
  cases bound with
  | nil => rfl
  | cons b bound =>
    rw [untilEnd, bind_of_ok (get_apply m), hend]
    rfl

theorem untilEnd_step (hend : m.cursor.atEnd = false) (b : Token) (bound : List Token) :
    untilEnd statement (b :: bound) m = (statement >>= fun _ => untilEnd statement bound) m := by
  rw [untilEnd, bind_of_ok (get_apply m), hend]
  rfl

end Rows

end Walk

end TokenWalk
