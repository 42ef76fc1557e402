import TokenWalk.Proofs.Braces

/-!
# Evaluations

What evaluating an expression or a condition gives, which terms it evaluates, and how it stops.

* `Derived` are the values that an expression can have: those of terms and wrapped integers.
* `Stop.IsOf` sorts stops by the families of their faults.  Evaluating stops with a fault of four
  families only.
* `Evaluates` and `Tests` follow an expression and a condition from term to term.  A term whose
  value the host cannot read aborts the evaluation, and nothing else does but a comparison with an
  integer past the largest double (`expression_abort_iff`, `condition_abort_of_tests`,
  `tests_of_condition_abort`).
-/

namespace TokenWalk

variable {α β : Type}

/-! ## Operators -/

theorem except_bind_ok_iff {ε : Type} {x : Except ε α} {f : α → Except ε β} {b : β} :
    (x >>= f) = .ok b ↔ ∃ a, x = .ok a ∧ f a = .ok b := by
  cases x with
  | ok a =>
    show f a = .ok b ↔ _
    constructor
    · intro h
      exact ⟨a, rfl, h⟩
    · intro ⟨a', ha, h⟩
      cases ha
      exact h
  | error e => exact ⟨nofun, nofun⟩

theorem except_bind_error_iff {ε : Type} {x : Except ε α} {f : α → Except ε β} {e : ε} :
    (x >>= f) = .error e ↔ x = .error e ∨ ∃ a, x = .ok a ∧ f a = .error e := by
  cases x with
  | ok a =>
    show f a = .error e ↔ _
    constructor
    · intro h
      exact .inr ⟨a, rfl, h⟩
    · intro h
      obtain h | ⟨a', ha, h⟩ := h
      · cases h
      · cases ha
        exact h
  | error e' =>
    show Except.error e' = .error e ↔ _
    constructor
    · intro h
      cases h
      exact .inl rfl
    · intro h
      obtain h | ⟨a, ha, _⟩ := h
      · cases h
        rfl
      · cases ha

/-- A fault of one of the families whose file is open, or an abort. -/
def Stop.IsOf (families : List Family) : Stop → Prop
  | .fault f => f.cause.family ∈ families ∧ f.file = none
  | .abort _ => True

theorem Stop.IsOf.locate {families : List Family} {e : Stop} (h : e.IsOf families)
    (line column : Option Int) : (e.locate line column).IsOf families := by
  cases e with
  | fault f => exact h
  | abort a => trivial

theorem Stop.IsOf.mono {families families' : List Family} {e : Stop} (h : e.IsOf families)
    (hsub : families ⊆ families') : e.IsOf families' := by
  cases e with
  | fault f => exact ⟨hsub h.1, h.2⟩
  | abort a => trivial

/-- A loop past its cap faults in its own family. -/
theorem Stop.isOf_overrun {families : List Family} (h : Family.loopLimit ∈ families)
    (place : Place) (cap : Int) : (Stop.overrun place cap).IsOf families := by
  unfold overrun
  cases Numeral.writeInteger cap with
  | ok text => exact ⟨h, rfl⟩
  | error defect => trivial

theorem Stop.locate_eq_abort_iff {e : Stop} {line column : Option Int} {a : Abort} :
    e.locate line column = .abort a ↔ e = .abort a := by
  cases e with
  | fault f => exact ⟨nofun, nofun⟩
  | abort b => exact Iff.rfl

/-- The families of faults in an evaluation. -/
def evaluationFamilies : List Family :=
  [.unexpectedToken, .undefinedVariable, .arithmetic, .operandType]

/-- A fault whose place is open, of a family that evaluations have. -/
def Stop.Refused (e : Stop) : Prop :=
  ∃ cause : Cause, e = .fault { cause } ∧ cause.family ∈ evaluationFamilies

theorem Stop.Refused.isOf {e : Stop} (h : e.Refused) : e.IsOf evaluationFamilies := by
  obtain ⟨cause, rfl, hfamily⟩ := h
  exact ⟨hfamily, rfl⟩

theorem Stop.Refused.ne_abort {e : Stop} (h : e.Refused) (a : Abort) : e ≠ .abort a := by
  obtain ⟨cause, rfl, _⟩ := h
  exact nofun

theorem refused_of_refuse {cause : Cause} {e : Stop} (h : (refuse cause : Except Stop α) = .error e)
    (hfamily : cause.family ∈ evaluationFamilies) : e.Refused := by
  cases h
  exact ⟨cause, rfl, hfamily⟩

theorem refused_of_operand {op : Operator} {a : Number} {e : Stop} (h : a.operand op = .error e) :
    e.Refused := by
  cases a with
  | int n => cases h
  | double x =>
    simp only [Number.operand] at h
    split at h
    · cases h
    · exact refused_of_refuse h (by simp [Cause.family, evaluationFamilies])

theorem refused_of_compute {op : Arithmetic} {l r : Int} {e : Stop}
    (h : op.compute l r = .error e) : e.Refused := by
  cases op with
  | add | sub | mul => cases h
  | div | mod =>
    simp only [Arithmetic.compute] at h
    split at h
    · exact refused_of_refuse h (by simp [Cause.family, evaluationFamilies])
    · cases h

theorem toDouble_eq_error {a : Number} {e : Stop} (h : a.toDouble = .error e) :
    e = .abort .doubleOverflow ∧ ∃ n, a = .int n ∧ (Double.ofInt n).isFinite = false := by
  cases a with
  | double x => cases h
  | int n =>
    simp only [Number.toDouble] at h
    split at h
    · cases h
    · rename_i hfinite
      cases h
      exact ⟨rfl, n, rfl, by simpa using hfinite⟩

theorem relation_eq_error {a b : Number} {e : Stop} (h : a.relation b = .error e) :
    e = .abort .doubleOverflow ∧
      ∃ n, (a = .int n ∨ b = .int n) ∧ (Double.ofInt n).isFinite = false := by
  unfold Number.relation at h
  split at h
  · cases h
  · obtain h | ⟨x, _, h⟩ := except_bind_error_iff.mp h
    · obtain ⟨he, n, ha, hn⟩ := toDouble_eq_error h
      exact ⟨he, n, .inl ha, hn⟩
    obtain h | ⟨y, _, h⟩ := except_bind_error_iff.mp h
    · obtain ⟨he, n, hb, hn⟩ := toDouble_eq_error h
      exact ⟨he, n, .inr hb, hn⟩
    · cases h

namespace Value

variable {left right : Value} {e : Stop}

theorem eq_int_of_number? {v : Value} {n : Int} (h : v.number? = some (.int n)) : v = .int n := by
  cases v with
  | int m =>
    cases h
    rfl
  | float x | str s | bool b | nothing => cases h

/-- The two ways of an arithmetic operator: it refuses its operands, or it computes. -/
theorem apply_cases (left right : Value) (op : Arithmetic) :
    left.apply (.arithmetic op) right =
        refuse (.invalidOperands (.arithmetic op) left.type right.type) ∨
      ∃ a b, left.apply (.arithmetic op) right = (do
        let l ← Number.operand (.arithmetic op) a
        let r ← Number.operand (.arithmetic op) b
        let n ← op.compute l r
        return wrap n) := by
  unfold apply
  split
  next a b _ _ => exact .inr ⟨a, b, rfl⟩
  next => exact .inl rfl

/-- The result of an arithmetic operator is wrapped. -/
theorem exists_wrap_of_apply {op : Arithmetic} {n : Int}
    (h : left.apply (.arithmetic op) right = .ok n) : ∃ k, n = wrap k := by
  obtain hrefuse | ⟨a, b, hcompute⟩ := apply_cases left right op
  · rw [hrefuse] at h
    cases h
  · rw [hcompute] at h
    obtain ⟨l, _, h⟩ := except_bind_ok_iff.mp h
    obtain ⟨r, _, h⟩ := except_bind_ok_iff.mp h
    obtain ⟨k, _, h⟩ := except_bind_ok_iff.mp h
    cases h
    exact ⟨k, rfl⟩

/-- An arithmetic operator never aborts. -/
theorem refused_of_apply {op : Arithmetic} (h : left.apply (.arithmetic op) right = .error e) :
    e.Refused := by
  obtain hrefuse | ⟨a, b, hcompute⟩ := apply_cases left right op
  · rw [hrefuse] at h
    exact refused_of_refuse h (by simp [Cause.family, evaluationFamilies])
  · rw [hcompute] at h
    obtain h | ⟨l, _, h⟩ := except_bind_error_iff.mp h
    · exact refused_of_operand h
    obtain h | ⟨r, _, h⟩ := except_bind_error_iff.mp h
    · exact refused_of_operand h
    obtain h | ⟨n, _, h⟩ := except_bind_error_iff.mp h
    · exact refused_of_compute h
    · cases h

/-- A comparison aborts only if one side is an integer past the largest double. -/
theorem compare_eq_error {op : Comparison}
    (h : left.compare (.comparison op) right = .error e) :
    e.Refused ∨ e = .abort .doubleOverflow ∧
      ∃ n, (left = .int n ∨ right = .int n) ∧ (Double.ofInt n).isFinite = false := by
  unfold compare at h
  split at h
  · cases h
  · cases h
  · split at h
    next a b ha hb =>
      obtain h | ⟨relation, _, h⟩ := except_bind_error_iff.mp h
      · obtain ⟨he, n, hn, hfinite⟩ := relation_eq_error h
        refine .inr ⟨he, n, hn.imp ?_ ?_, hfinite⟩
        · intro hint
          exact eq_int_of_number? (ha.trans (congrArg some hint))
        · intro hint
          exact eq_int_of_number? (hb.trans (congrArg some hint))
      · cases h
    next => exact .inl (refused_of_refuse h (by simp [Cause.family, evaluationFamilies]))

end Value

/-! ## Terms -/

/-- A term that has no value: its evaluation is refused, or the host cannot read its numeral. -/
theorem value?_eq_error {scopes : Scopes} {t : Token} {e : Stop}
    (h : t.value? scopes = some (.error e)) :
    e.Refused ∨ (t.kind = .integer ∨ t.kind = .float) ∧ ∃ defect, e = .abort (.numeral defect) := by
  unfold Token.value? at h
  split at h
  next hkind =>
    replace h := Option.some.inj h
    unfold integerLiteral at h
    split at h
    · split at h
      · cases h
      · cases h
        exact .inr ⟨.inl hkind, _, rfl⟩
    · split at h
      · split at h
        · cases h
        · exact .inl (refused_of_refuse h (by simp [Cause.family, evaluationFamilies]))
      · cases h
        exact .inr ⟨.inl hkind, _, rfl⟩
  next hkind =>
    replace h := Option.some.inj h
    unfold floatLiteral at h
    split at h
    · cases h
    · cases h
      exact .inr ⟨.inr hkind, _, rfl⟩
  next => cases h
  next =>
    replace h := Option.some.inj h
    split at h
    · cases h
    · exact .inl (refused_of_refuse h (by simp [Cause.family, evaluationFamilies]))
  next => cases h

/-- A value that evaluating with the bindings can give: that of a term among the tokens, or a
wrapped integer. -/
inductive Derived (tokens : List Token) (scopes : Scopes) : Value → Prop where
  | term {t : Token} {value : Value} (ht : t ∈ tokens)
      (hvalue : t.value? scopes = some (.ok value)) : Derived tokens scopes value
  | computed (n : Int) : Derived tokens scopes (.int (wrap n))

theorem Cursor.token_mem {c : Cursor} (h : c.token.kind ≠ .endOfInput) : c.token ∈ c.tokens := by
  apply c.rest_suffix.subset
  rw [rest_eq_cons h]
  exact List.mem_cons_self

theorem kind_ne_endOfInput_of_value? {scopes : Scopes} {t : Token} {r : Except Stop Value}
    (h : t.value? scopes = some r) : t.kind ≠ .endOfInput := by
  intro hkind
  simp [Token.value?, hkind] at h

namespace Reading

variable {scopes : Scopes} {c d : Cursor}

theorem ofExcept_ok_iff {token : Token} {r : Except Stop α} {a : α} :
    ofExcept token r c = .ok a d ↔ r = .ok a ∧ d = c := by
  cases r with
  | ok b =>
    constructor
    · intro h
      cases h
      exact ⟨rfl, rfl⟩
    · intro ⟨ha, hd⟩
      cases ha
      cases hd
      rfl
  | error e => exact ⟨nofun, nofun⟩

theorem ofExcept_error_iff {token : Token} {r : Except Stop α} {e : Stop} :
    ofExcept token r c = .error e d ↔
      ∃ stop, r = .error stop ∧ d = c ∧
        e = stop.locate (some token.place.line) (some token.place.column) := by
  cases r with
  | ok b =>
    constructor
    · intro h
      cases h
    · intro ⟨stop, hstop, _⟩
      cases hstop
  | error stop =>
    constructor
    · intro h
      cases h
      exact ⟨stop, rfl, rfl, rfl⟩
    · intro ⟨stop', hstop, hd, he⟩
      cases hstop
      cases hd
      cases he
      rfl

theorem term_ok_iff {value : Value} :
    term scopes c = .ok value d ↔ c.token.value? scopes = some (.ok value) ∧ d = c.next := by
  cases hvalue : c.token.value? scopes with
  | none =>
    rw [term_of_none hvalue]
    exact ⟨nofun, nofun⟩
  | some r =>
    rw [term_of_some hvalue]
    constructor
    · intro h
      obtain ⟨rfl, rfl⟩ := ofExcept_ok_iff.mp h
      exact ⟨rfl, rfl⟩
    · intro ⟨hr, hd⟩
      exact ofExcept_ok_iff.mpr ⟨Option.some.inj hr, hd⟩

theorem term_abort_iff {a : Abort} :
    (∃ d, term scopes c = .error (.abort a) d) ↔
      c.token.value? scopes = some (.error (.abort a)) := by
  cases hvalue : c.token.value? scopes with
  | none =>
    rw [term_of_none hvalue]
    exact ⟨nofun, nofun⟩
  | some r =>
    rw [term_of_some hvalue, Option.some.injEq]
    constructor
    · intro ⟨d, h⟩
      obtain ⟨stop, hr, _, hstop⟩ := ofExcept_error_iff.mp h
      rw [hr, Stop.locate_eq_abort_iff.mp hstop.symm]
    · intro hr
      exact ⟨c.next, ofExcept_error_iff.mpr ⟨.abort a, hr, rfl, rfl⟩⟩

/-! ## The values of expressions -/

theorem derived_term {value : Value} (h : term scopes c = .ok value d) :
    Derived c.tokens scopes value := by
  obtain ⟨hvalue, -⟩ := term_ok_iff.mp h
  exact .term (Cursor.token_mem (kind_ne_endOfInput_of_value? hvalue)) hvalue

theorem operation_of_some {token : Token} {op : Arithmetic}
    (h : Arithmetic.ofSymbol? token.text = some op) (left : Value) :
    operation scopes left token = (do
      let right ← term scopes
      ofExcept token (left.apply (.arithmetic op) right)) := by
  simp only [operation, h]

theorem operation_of_none {token : Token} (h : Arithmetic.ofSymbol? token.text = none)
    (left : Value) : operation scopes left token = fail token (.unknownOperator token.text) := by
  simp only [operation, h]

theorem exists_wrap_of_operation {left : Value} {token : Token} {n : Int}
    (h : operation scopes left token c = .ok n d) : ∃ k, n = wrap k := by
  cases hop : Arithmetic.ofSymbol? token.text with
  | none =>
    rw [operation_of_none hop] at h
    cases h
  | some op =>
    rw [operation_of_some hop] at h
    obtain ⟨right, c₁, _, h⟩ := bind_ok_iff.mp h
    exact Value.exists_wrap_of_apply (ofExcept_ok_iff.mp h).1

theorem derived_operations {bound tokens : List Token} {left value : Value}
    (hleft : Derived tokens scopes left) (h : operations scopes bound left c = .ok value d) :
    Derived tokens scopes value := by
  induction bound generalizing left c with
  | nil =>
    cases h
    exact hleft
  | cons b bound ih =>
    cases hjoins : joins c.token with
    | false =>
      rw [operations_of_not_joins scopes _ left hjoins] at h
      cases h
      exact hleft
    | true =>
      rw [operations_of_joins scopes b bound left hjoins] at h
      obtain ⟨n, c₁, hoperation, h⟩ := bind_ok_iff.mp h
      obtain ⟨k, rfl⟩ := exists_wrap_of_operation hoperation
      exact ih (.computed k) h

/-- The value of an expression is derived from the tokens. -/
theorem derived_expression {value : Value} (h : expression scopes c = .ok value d) :
    Derived c.tokens scopes value := by
  obtain ⟨first, c₁, hterm, h⟩ := bind_ok_iff.mp h
  exact derived_operations (derived_term hterm) h

/-! ## The faults of readings -/

/-- Every fault of the reading is of one of the families. -/
def StopsBy (families : List Family) (x : Reading α) : Prop :=
  ∀ c, Meets (fun _ _ => True) (fun e _ => e.IsOf families) (x c)

variable {families : List Family}

theorem StopsBy.bind {x : Reading α} {f : α → Reading β} (hx : StopsBy families x)
    (hf : ∀ a, StopsBy families (f a)) : StopsBy families (x >>= f) :=
  fun c => (hx c).bind fun a d _ => hf a d

theorem stopsBy_pure (a : α) : StopsBy families (pure a) := fun _ => trivial

theorem stopsBy_get : StopsBy families (get : Reading Cursor) := fun _ => trivial

theorem stopsBy_current : StopsBy families current := fun _ => trivial

theorem stopsBy_advance : StopsBy families advance := fun _ => trivial

theorem stopsBy_fail {token : Token} {cause : Cause} (h : cause.family ∈ families) :
    StopsBy families (fail token cause : Reading α) := fun _ => ⟨h, rfl⟩

theorem stopsBy_ofExcept {token : Token} {r : Except Stop α}
    (h : ∀ e, r = .error e → e.IsOf families) : StopsBy families (ofExcept token r) := by
  intro c
  cases r with
  | ok a => trivial
  | error e => exact (h e rfl).locate _ _

theorem stopsBy_term (scopes : Scopes) : StopsBy evaluationFamilies (term scopes) := by
  refine stopsBy_current.bind fun token => ?_
  split
  next r hvalue =>
    refine stopsBy_advance.bind fun _ => stopsBy_ofExcept fun e he => ?_
    obtain hrefused | ⟨_, defect, rfl⟩ := value?_eq_error (hvalue.trans (congrArg some he))
    · exact hrefused.isOf
    · trivial
  next => exact stopsBy_fail (by simp [Cause.family, evaluationFamilies])

theorem stopsBy_operations (scopes : Scopes) (bound : List Token) (left : Value) :
    StopsBy evaluationFamilies (operations scopes bound left) := by
  induction bound generalizing left with
  | nil => exact stopsBy_pure left
  | cons _ bound ih =>
    refine stopsBy_current.bind fun token => ?_
    split
    · refine stopsBy_advance.bind fun _ => ?_
      split
      · exact stopsBy_fail (by simp [Cause.family, evaluationFamilies])
      · refine (stopsBy_term scopes).bind fun right => ?_
        refine StopsBy.bind ?_ fun n => ih (.int n)
        exact stopsBy_ofExcept fun e he => (Value.refused_of_apply he).isOf
    · exact stopsBy_pure left

theorem stopsBy_expression (scopes : Scopes) :
    StopsBy evaluationFamilies (expression scopes) :=
  (stopsBy_term scopes).bind fun _ => stopsBy_get.bind fun _ => stopsBy_operations _ _ _

theorem stopsBy_condition (scopes : Scopes) : StopsBy evaluationFamilies (condition scopes) := by
  refine (stopsBy_expression scopes).bind fun left => stopsBy_current.bind fun token => ?_
  split
  · refine stopsBy_advance.bind fun _ => (stopsBy_expression scopes).bind fun right => ?_
    refine stopsBy_ofExcept fun e he => ?_
    obtain hrefused | ⟨rfl, _⟩ := Value.compare_eq_error he
    · exact hrefused.isOf
    · trivial
  · exact stopsBy_fail (by simp [Cause.family, evaluationFamilies])

/-! ## The terms of an evaluation -/

/-- Going on at the first cursor from a value, an expression evaluates the term at the second. -/
inductive Joined (scopes : Scopes) : (left : Value) → (c d : Cursor) → Prop where
  | next {left : Value} {c : Cursor} {op : Arithmetic} (hjoins : joins c.token = true)
      (hop : Arithmetic.ofSymbol? c.token.text = some op) : Joined scopes left c c.next
  | later {left : Value} {c c₁ d : Cursor} {n : Int} (hjoins : joins c.token = true)
      (hoperation : operation scopes left c.token c.next = .ok n c₁)
      (hlater : Joined scopes (.int n) c₁ d) : Joined scopes left c d

/-- An expression at the first cursor evaluates the term at the second. -/
inductive Evaluates (scopes : Scopes) (c : Cursor) : Cursor → Prop where
  | first : Evaluates scopes c c
  | later {value : Value} {c₁ d : Cursor} (hterm : term scopes c = .ok value c₁)
      (hjoined : Joined scopes value c₁ d) : Evaluates scopes c d

/-- A condition at the first cursor evaluates the term at the second, on one of its sides. -/
inductive Tests (scopes : Scopes) (c : Cursor) : Cursor → Prop where
  | left {d : Cursor} (h : Evaluates scopes c d) : Tests scopes c d
  | right {value : Value} {c₁ d : Cursor} {op : Comparison}
      (hleft : expression scopes c = .ok value c₁) (hkind : c₁.token.kind = .operator)
      (hop : Comparison.ofSymbol? c₁.token.text = some op)
      (h : Evaluates scopes c₁.next d) : Tests scopes c d

theorem Joined.onward {left : Value} (h : Joined scopes left c d) : c.Onward d := by
  induction h with
  | @next _ c _ _ _ => exact c.onward_next
  | @later _ c _ _ _ _ hoperation _ ih =>
    exact c.onward_next.trans (((forward_operation _ _ _ _).of_ok hoperation).trans ih)

theorem Evaluates.onward (h : Evaluates scopes c d) : c.Onward d := by
  cases h with
  | first => exact .refl c
  | later hterm hjoined => exact ((forward_term scopes c).of_ok hterm).trans hjoined.onward

theorem Tests.onward (h : Tests scopes c d) : c.Onward d := by
  cases h with
  | left h => exact h.onward
  | right hleft _ _ h =>
    exact ((forward_expression scopes c).of_ok hleft).trans ((Cursor.onward_next _).trans h.onward)

variable {a : Abort}

theorem operation_abort_iff {left : Value} {token : Token} :
    (∃ d, operation scopes left token c = .error (.abort a) d) ↔
      (∃ op, Arithmetic.ofSymbol? token.text = some op) ∧
        c.token.value? scopes = some (.error (.abort a)) := by
  cases hop : Arithmetic.ofSymbol? token.text with
  | none =>
    rw [operation_of_none hop]
    exact ⟨nofun, nofun⟩
  | some op =>
    rw [operation_of_some hop, ← term_abort_iff]
    constructor
    · intro ⟨d, h⟩
      refine ⟨⟨op, rfl⟩, ?_⟩
      cases hterm : term scopes c with
      | error e c₁ =>
        rw [bind_of_error hterm] at h
        cases h
        exact ⟨d, rfl⟩
      | ok right c₁ =>
        rw [bind_of_ok hterm] at h
        obtain ⟨stop, happly, _, hstop⟩ := ofExcept_error_iff.mp h
        exact absurd (Stop.locate_eq_abort_iff.mp hstop.symm)
          ((Value.refused_of_apply happly).ne_abort a)
    · intro ⟨_, d, h⟩
      exact ⟨d, bind_of_error h⟩

/-- Where no operation follows, no further term is evaluated. -/
theorem operations_abort_iff_of_not_joins (bound : List Token) {left : Value}
    (hjoins : joins c.token = false) :
    (∃ d, operations scopes bound left c = .error (.abort a) d) ↔
      ∃ d, Joined scopes left c d ∧ d.token.value? scopes = some (.error (.abort a)) := by
  rw [operations_of_not_joins scopes bound left hjoins]
  constructor
  · rintro ⟨d, h⟩
    cases h
  · rintro ⟨d, hjoined, -⟩
    cases hjoined with
    | next h | later h =>
      rw [hjoins] at h
      cases h

theorem kind_ne_endOfInput_of_joins {t : Token} (h : joins t = true) : t.kind ≠ .endOfInput := by
  intro hkind
  simp [joins, hkind] at h

theorem rest_ne_nil_of_joins (hjoins : joins c.token = true) : c.rest ≠ [] := by
  intro hrest
  have hend := Cursor.atEnd_of_rest_eq_nil hrest
  exact kind_ne_endOfInput_of_joins hjoins (beq_iff_eq.mp hend)

/-- A row of operations aborts exactly if it comes to a term that does.  The bound is never used
up. -/
theorem operations_abort_iff {bound : List Token} {left : Value}
    (hbound : c.rest.length ≤ bound.length) :
    (∃ d, operations scopes bound left c = .error (.abort a) d) ↔
      ∃ d, Joined scopes left c d ∧ d.token.value? scopes = some (.error (.abort a)) := by
  induction bound generalizing left c with
  | nil =>
    have hrest : c.rest = [] := List.eq_nil_of_length_eq_zero (Nat.le_zero.mp hbound)
    have hjoins : joins c.token = false :=
      Bool.eq_false_iff.mpr fun hjoins => rest_ne_nil_of_joins hjoins hrest
    exact operations_abort_iff_of_not_joins [] hjoins
  | cons b bound ih =>
    cases hjoins : joins c.token with
    | false => exact operations_abort_iff_of_not_joins _ hjoins
    | true =>
      rw [operations_of_joins scopes b bound left hjoins]
      cases hoperation : operation scopes left c.token c.next with
      | error e c₁ =>
        rw [bind_of_error hoperation]
        constructor
        · rintro ⟨d, h⟩
          cases h
          obtain ⟨⟨op, hop⟩, hvalue⟩ := operation_abort_iff.mp ⟨_, hoperation⟩
          exact ⟨c.next, .next hjoins hop, hvalue⟩
        · rintro ⟨d, hjoined, hvalue⟩
          cases hjoined with
          | next _ hop =>
            obtain ⟨d, h⟩ := operation_abort_iff.mpr ⟨⟨_, hop⟩, hvalue⟩
            rw [hoperation] at h
            cases h
            exact ⟨_, rfl⟩
          | later _ h =>
            rw [hoperation] at h
            cases h
      | ok n c₁ =>
        have honward : c.next.Onward c₁ := (forward_operation _ _ _ _).of_ok hoperation
        have hlength := honward.length_le
        have hrest := Cursor.length_rest_next (rest_ne_nil_of_joins hjoins)
        simp only [List.length_cons] at hbound
        rw [bind_of_ok hoperation, ih (by omega)]
        constructor
        · rintro ⟨d, hjoined, hvalue⟩
          exact ⟨d, .later hjoins hoperation hjoined, hvalue⟩
        · rintro ⟨d, hjoined, hvalue⟩
          cases hjoined with
          | next _ hop =>
            obtain ⟨d, h⟩ := operation_abort_iff.mpr ⟨⟨_, hop⟩, hvalue⟩
            rw [hoperation] at h
            cases h
          | later _ h hlater =>
            rw [hoperation] at h
            cases h
            exact ⟨d, hlater, hvalue⟩

/-- An expression aborts exactly if it evaluates a term that does. -/
theorem expression_abort_iff :
    (∃ d, expression scopes c = .error (.abort a) d) ↔
      ∃ d, Evaluates scopes c d ∧ d.token.value? scopes = some (.error (.abort a)) := by
  unfold expression
  cases hterm : term scopes c with
  | error e c₁ =>
    rw [bind_of_error hterm]
    constructor
    · intro ⟨d, h⟩
      cases h
      exact ⟨c, .first, term_abort_iff.mp ⟨_, hterm⟩⟩
    · intro ⟨d, hevaluates, hvalue⟩
      cases hevaluates with
      | first =>
        obtain ⟨d, h⟩ := term_abort_iff.mpr hvalue
        rw [hterm] at h
        cases h
        exact ⟨_, rfl⟩
      | later h =>
        rw [hterm] at h
        cases h
  | ok value c₁ =>
    rw [bind_of_ok hterm]
    show (∃ d, operations scopes c₁.rest value c₁ = _) ↔ _
    rw [operations_abort_iff (Nat.le_refl _)]
    constructor
    · intro ⟨d, hjoined, hvalue⟩
      exact ⟨d, .later hterm hjoined, hvalue⟩
    · intro ⟨d, hevaluates, hvalue⟩
      cases hevaluates with
      | first =>
        obtain ⟨d, h⟩ := term_abort_iff.mpr hvalue
        rw [hterm] at h
        cases h
      | later h hjoined =>
        rw [hterm] at h
        cases h
        exact ⟨d, hjoined, hvalue⟩

/-- A condition that evaluates a term that aborts does so, too. -/
theorem condition_abort_of_tests (htests : Tests scopes c d)
    (hvalue : d.token.value? scopes = some (.error (.abort a))) :
    ∃ d, condition scopes c = .error (.abort a) d := by
  rw [condition_eq]
  cases htests with
  | left h =>
    obtain ⟨d, hexpression⟩ := expression_abort_iff.mpr ⟨_, h, hvalue⟩
    exact ⟨d, bind_of_error hexpression⟩
  | right hleft hkind hop h =>
    obtain ⟨d, hexpression⟩ := expression_abort_iff.mpr ⟨_, h, hvalue⟩
    rw [bind_of_ok hleft, bind_of_ok (current_apply _), comparing_of_some scopes _ hkind hop,
      bind_of_ok (advance_apply _)]
    exact ⟨d, bind_of_error hexpression⟩

/-- A condition aborts only at a term, or if it compares an integer past the largest double. -/
theorem tests_of_condition_abort (h : condition scopes c = .error (.abort a) d) :
    (∃ d, Tests scopes c d ∧ d.token.value? scopes = some (.error (.abort a))) ∨
      ∃ n, Derived c.tokens scopes (.int n) ∧ (Double.ofInt n).isFinite = false := by
  rw [condition_eq] at h
  cases hleft : expression scopes c with
  | error e c₁ =>
    rw [bind_of_error hleft] at h
    cases h
    obtain ⟨q, hq, hvalue⟩ := expression_abort_iff.mp ⟨_, hleft⟩
    exact .inl ⟨q, .left hq, hvalue⟩
  | ok left c₁ =>
    rw [bind_of_ok hleft, bind_of_ok (current_apply _)] at h
    by_cases hkind : c₁.token.kind = .operator
    case neg =>
      rw [comparing_of_none scopes left fun h => absurd h hkind] at h
      cases h
    cases hop : Comparison.ofSymbol? c₁.token.text with
    | none =>
      rw [comparing_of_none scopes left fun _ => hop] at h
      cases h
    | some op =>
      rw [comparing_of_some scopes left hkind hop, bind_of_ok (advance_apply _)] at h
      cases hright : expression scopes c₁.next with
      | error e c₂ =>
        rw [bind_of_error hright] at h
        cases h
        obtain ⟨q, hq, hvalue⟩ := expression_abort_iff.mp ⟨_, hright⟩
        exact .inl ⟨q, .right hleft hkind hop hq, hvalue⟩
      | ok right c₂ =>
        rw [bind_of_ok hright] at h
        obtain ⟨stop, hcompare, _, hstop⟩ := ofExcept_error_iff.mp h
        have habort : stop = .abort a := Stop.locate_eq_abort_iff.mp hstop.symm
        obtain hrefused | ⟨_, n, hn, hfinite⟩ := Value.compare_eq_error hcompare
        · exact absurd habort (hrefused.ne_abort a)
        · have honward : c.Onward c₁ := ((forward_expression scopes) c).of_ok hleft
          have hderived := derived_expression hright
          rw [Cursor.tokens_next, honward.tokens_eq] at hderived
          obtain rfl | rfl := hn
          · exact .inr ⟨n, derived_expression hleft, hfinite⟩
          · exact .inr ⟨n, hderived, hfinite⟩

end Reading

end TokenWalk
