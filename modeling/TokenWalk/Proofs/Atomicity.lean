import TokenWalk.Proofs.Pairing

/-!
# Simple statements are atomic

Evaluating only moves the cursor.  A declaration, an assignment or a `print` statement evaluates and
checks first and changes the session last, so a stop anywhere on the way leaves every frame, what is
printed and the journal as they were.

`Still` says that a walk leaves the session as it is, and `Atomic` that it does so if it stops.
Atomic walks are those that begin with any number of still ones (`Still.bind`) and end with a change
that cannot stop.
-/

namespace TokenWalk

variable {α β : Type}

/-- The token starts a statement without a block: `var`, `let`, a name or `print`. -/
def Token.StartsSimple (t : Token) : Prop :=
  t.Declares ∨ t.kind = .identifier ∨ t.kind = .keyword ∧ t.text = "print"

namespace Walk

variable {m m' : Machine}

/-- The walk leaves the session as it is, however it ends. -/
def Still (x : Walk α) : Prop :=
  ∀ m, Meets (fun _ n => n.toSession = m.toSession) (fun _ n => n.toSession = m.toSession) (x m)

/-- The walk leaves the session as it is if it stops. -/
def Atomic (x : Walk α) : Prop :=
  ∀ m, Meets (fun _ _ => True) (fun _ n => n.toSession = m.toSession) (x m)

/-- What comes before an atomic walk may stop, if it leaves the session as it is. -/
theorem Still.bind {x : Walk α} {f : α → Walk β} (hx : Still x) (hf : ∀ a, Atomic (f a)) :
    Atomic (x >>= f) := by
  intro m
  refine (hx m).bind ?_
  intro a n hn
  refine (hf a n).mono (fun _ _ h => h) ?_
  intro e n' hn'
  exact hn'.trans hn

theorem Still.atomic {x : Walk α} (hx : Still x) : Atomic x :=
  fun m => (hx m).mono (fun _ _ _ => trivial) fun _ _ h => h

theorem Still.final {x : Walk α} (hx : Still x) (m : Machine) :
    (final (x m)).toSession = m.toSession :=
  (hx m).final

theorem still_read (reading : Reading α) : Still (read reading) := by
  intro m
  have h := toSession_read reading m
  cases hr : read reading m with
  | ok a n =>
    rw [hr] at h
    exact h
  | error e n =>
    rw [hr] at h
    exact h

/-! ## Evaluations -/

theorem still_expression : Still expression :=
  fun m => still_read (Reading.expression m.scopes) m

theorem still_condition : Still condition :=
  fun m => still_read (Reading.condition m.scopes) m

/-! ## Statements -/

theorem atomic_throw (stop : Stop) : Atomic (throw stop : Walk α) :=
  fun _ => rfl

/-- A change of the bindings and its note come last. -/
theorem atomic_bindings (result : Scopes → Option Scopes) {refusal : Walk Unit}
    (hrefusal : Atomic refusal) (entry : Scopes → Entry) :
    Atomic (do
      match result (← get).scopes with
      | none => refusal
      | some scopes =>
          modify fun m => { m with scopes }
          note (entry scopes)) := by
  intro m
  rw [bind_of_ok (get_apply m)]
  cases result m.scopes with
  | none => exact hrefusal m
  | some scopes => trivial

theorem atomic_declaration : Atomic declaration := by
  refine (still_read .advance).bind fun _ => ?_
  refine (still_read (.expect .identifier none)).bind fun name => ?_
  refine (still_read (.expect .operator (some "="))).bind fun _ => ?_
  refine still_expression.bind fun value => ?_
  exact atomic_bindings (·.declare? name.text value) (still_read _).atomic
    (fun scopes => .declared name.text value (scopes.depth - 1))

theorem atomic_assignment : Atomic assignment := by
  refine (still_read .current).bind fun name => ?_
  intro m
  rw [bind_of_ok (get_apply m)]
  split
  · rfl
  · refine (still_read .advance).bind (fun _ => ?_) m
    refine (still_read (.expect .operator (some "="))).bind fun _ => ?_
    refine still_expression.bind fun value => ?_
    exact atomic_bindings (·.update? name.text value) (atomic_throw _)
      (fun _ => .updated name.text value)

theorem atomic_printing : Atomic printing := by
  refine (still_read .advance).bind fun _ => ?_
  refine (still_read (.expect .punctuation (some "("))).bind fun _ => ?_
  refine still_expression.bind fun value => ?_
  refine (still_read (.expect .punctuation (some ")"))).bind fun _ => ?_
  exact fun _ => trivial

/-- A `print` statement that ends has printed the value between its parentheses, and done nothing
else. -/
theorem printing_eq_ok (h : printing m = .ok () m') :
    ∃ value d, Reading.expression m.scopes m.cursor.next.next = .ok value d ∧
      m'.toSession = m.toSession.emit value := by
  unfold printing at h
  rw [bind_of_ok (read_advance m)] at h
  obtain ⟨_, m₁, hopens, h⟩ := bind_ok_iff.mp h
  obtain ⟨c₁, hexpect, rfl⟩ := read_ok_iff.mp hopens
  obtain ⟨-, -, rfl⟩ := Reading.expect_ok_iff.mp hexpect
  obtain ⟨value, m₂, hvalue, h⟩ := bind_ok_iff.mp h
  obtain ⟨d, hexpression, rfl⟩ := read_ok_iff.mp hvalue
  obtain ⟨_, m₃, hcloses, h⟩ := bind_ok_iff.mp h
  obtain ⟨c₃, -, rfl⟩ := read_ok_iff.mp hcloses
  cases h
  exact ⟨value, d, hexpression, rfl⟩

/-- **Simple statements are atomic.**  Evaluating a term, an expression or a condition leaves the
session as it is, with a value or with a stop.  So does a declaration, an assignment or a `print`
statement that stops, whatever the stop.  A `print` statement that ends adds one value to what is
printed and leaves the rest of the session. -/
theorem simple_statement_atomic (limits : Limits) (m : Machine) :
    (final (read (Reading.term m.scopes) m)).toSession = m.toSession ∧
    (final (expression m)).toSession = m.toSession ∧
    (final (condition m)).toSession = m.toSession ∧
    (∀ stop m', m.cursor.token.StartsSimple → statement limits m = .error stop m' →
      m'.toSession = m.toSession) ∧
    (∀ m', m.cursor.token.kind = .keyword → m.cursor.token.text = "print" →
      statement limits m = .ok () m' →
        ∃ value d, Reading.expression m.scopes m.cursor.next.next = .ok value d ∧
          m'.toSession = m.toSession.emit value) := by
  refine ⟨(still_read _).final m, still_expression.final m, still_condition.final m, ?_, ?_⟩
  · intro stop m' hsimple h
    unfold statement at h
    rcases hsimple with ⟨hkind, htext⟩ | hkind | ⟨hkind, htext⟩
    · rw [statementWith_declaration hkind htext] at h
      exact (atomic_declaration m).of_error h
    · rw [statementWith_assignment hkind] at h
      exact (atomic_assignment m).of_error h
    · rw [statementWith_printing hkind htext] at h
      exact (atomic_printing m).of_error h
  · intro m' hkind htext h
    rw [statement, statementWith_printing hkind htext] at h
    exact printing_eq_ok h

end Walk

end TokenWalk
