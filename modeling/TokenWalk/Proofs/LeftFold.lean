import TokenWalk.Proofs.Course
import TokenWalk.Proofs.WordArithmetic

/-!
# Expressions as left folds

An expression is a `Row`: a term, and then links of an operator and a term each.  The operators are
those that do not compare.  Evaluating takes the longest row that the tokens begin with, and its
value is the left fold of the operators over the values of the terms (`expression_ok_iff`).

An evaluation that stops does so at the first failure on the way from left to right.  `Fails` says
what this is: everything before it has a value, and the next link fails by its operator, by its term
or by applying the one to the other, in this order (`expression_error_iff`).

Where an expression or a condition ends does not depend on the bindings.  A loop that evaluates its
condition again therefore comes back to the brace in front of its body (`opensBlock_of_turn`).
Sums, differences and products of integers may be wrapped once at the end in place of after every
link (`foldlM_wrap`).
-/

namespace TokenWalk

/-! ## Rows of terms -/

/-- The token is a literal or a name. -/
def Token.IsTerm (t : Token) : Prop :=
  t.kind = .integer ∨ t.kind = .float ∨ t.kind = .string ∨ t.kind = .identifier

/-- The value of a term that has one. -/
def Token.valueIn? (scopes : Scopes) (t : Token) : Option Value :=
  t.value? scopes >>= Except.toOption

theorem Token.value?_eq_none_iff {scopes : Scopes} {t : Token} :
    t.value? scopes = none ↔ ¬ t.IsTerm := by
  unfold value? IsTerm
  cases t.kind <;> simp

theorem Token.isTerm_of_value? {scopes : Scopes} {t : Token} {r : Except Stop Value}
    (h : t.value? scopes = some r) : t.IsTerm := by
  by_contra hterm
  rw [value?_eq_none_iff.mpr hterm] at h
  cases h

theorem toOption_eq_some_iff {α : Type} {r : Except Stop α} {a : α} :
    r.toOption = some a ↔ r = .ok a := by
  cases r <;> simp [Except.toOption]

theorem Token.valueIn?_eq_some_iff {scopes : Scopes} {t : Token} {v : Value} :
    t.valueIn? scopes = some v ↔ t.value? scopes = some (.ok v) := by
  unfold valueIn?
  simp only [Option.bind_eq_bind, Option.bind_eq_some_iff, toOption_eq_some_iff, exists_eq_right]

/-- An operator that does not compare, and the term after it. -/
structure Link where
  operator : Token
  term : Token
  joins : Reading.joins operator = true
  isTerm : term.IsTerm

/-- A term, and the links after it. -/
structure Row where
  first : Token
  links : List Link
  isTerm : first.IsTerm

namespace Link

def tokens (link : Link) : List Token :=
  [link.operator, link.term]

/-- What a link makes of the value in front of it. -/
def combine? (scopes : Scopes) (left : Value) (link : Link) : Option Value := do
  let op ← Arithmetic.ofSymbol? link.operator.text
  let right ← link.term.valueIn? scopes
  let n ← (left.apply (.arithmetic op) right).toOption
  return .int n

theorem combine?_eq_some_iff {scopes : Scopes} {left v : Value} {link : Link} :
    link.combine? scopes left = some v ↔
      ∃ op right n, Arithmetic.ofSymbol? link.operator.text = some op ∧
        link.term.value? scopes = some (.ok right) ∧
        left.apply (.arithmetic op) right = .ok n ∧ v = .int n := by
  unfold combine?
  simp only [Option.bind_eq_bind, Option.bind_eq_some_iff, Token.valueIn?_eq_some_iff,
    toOption_eq_some_iff, Option.pure_def, Option.some.injEq]
  constructor
  · rintro ⟨op, hop, right, hright, n, hn, rfl⟩
    exact ⟨op, right, n, hop, hright, hn, rfl⟩
  · rintro ⟨op, right, n, hop, hright, hn, rfl⟩
    exact ⟨op, hop, right, hright, n, hn, rfl⟩

end Link

namespace Row

def tokens (row : Row) : List Token :=
  row.first :: row.links.flatMap Link.tokens

/-- The left fold of a row: the value of its first term, and then what one link after the other
makes of it. -/
def value? (scopes : Scopes) (row : Row) : Option Value := do
  row.links.foldlM (Link.combine? scopes) (← row.first.valueIn? scopes)

theorem length_tokens (row : Row) : row.tokens.length = 2 * row.links.length + 1 := by
  unfold tokens
  rw [List.length_cons, List.length_flatMap]
  simp [Link.tokens, Nat.mul_comm]

theorem value?_eq_some_iff {scopes : Scopes} {row : Row} {v : Value} :
    row.value? scopes = some v ↔ ∃ left, row.first.value? scopes = some (.ok left) ∧
      row.links.foldlM (Link.combine? scopes) left = some v := by
  unfold value?
  simp only [Option.bind_eq_bind, Option.bind_eq_some_iff, Token.valueIn?_eq_some_iff]

end Row

/-! ## Rows between cursors -/

namespace Cursor

variable {c d : Cursor} {t : Token} {ts : List Token}

/-- The tokens stand between the cursors. -/
def Spans (ts : List Token) (c d : Cursor) : Prop :=
  d.tokens = c.tokens ∧ c.rest = ts ++ d.rest

theorem spans_nil_iff : Spans [] c d ↔ d = c := by
  constructor
  · rintro ⟨htokens, hrest⟩
    exact ext_rest htokens hrest.symm
  · rintro rfl
    exact ⟨rfl, rfl⟩

theorem spans_cons_iff (ht : t.kind ≠ .endOfInput) :
    Spans (t :: ts) c d ↔ c.token = t ∧ Spans ts c.next d := by
  constructor
  · rintro ⟨htokens, hrest⟩
    exact ⟨token_of_rest hrest, htokens, rest_next_of_rest hrest⟩
  · rintro ⟨rfl, htokens, hrest⟩
    refine ⟨htokens, ?_⟩
    rw [rest_eq_cons ht, hrest]
    rfl

theorem exists_spans_iff : (∃ d, Spans ts c d) ↔ ts <+: c.rest := by
  constructor
  · rintro ⟨d, -, hrest⟩
    exact ⟨d.rest, hrest.symm⟩
  · rintro ⟨rest, hrest⟩
    have hsuffix : rest <:+ c.tokens := List.IsSuffix.trans ⟨ts, hrest⟩ c.rest_suffix
    exact ⟨⟨c.tokens, rest, hsuffix⟩, rfl, hrest.symm⟩

end Cursor

open Cursor (Spans)

theorem Token.IsTerm.not_end {t : Token} (h : t.IsTerm) : t.kind ≠ .endOfInput := by
  rcases h with h | h | h | h <;> simp [h]

namespace Reading

variable {scopes : Scopes} {c d : Cursor} {e : Stop}

theorem spans_links_cons_iff {link : Link} {links : List Link} :
    Spans ((link :: links).flatMap Link.tokens) c d ↔
      c.token = link.operator ∧ c.next.token = link.term ∧
        Spans (links.flatMap Link.tokens) c.next.next d := by
  show Spans (link.operator :: link.term :: links.flatMap Link.tokens) c d ↔ _
  rw [Cursor.spans_cons_iff (kind_ne_endOfInput_of_joins link.joins),
    Cursor.spans_cons_iff link.isTerm.not_end]

theorem spans_row_iff {row : Row} :
    Spans row.tokens c d ↔
      c.token = row.first ∧ Spans (row.links.flatMap Link.tokens) c.next d :=
  Cursor.spans_cons_iff row.isTerm.not_end

/-- Where no operator joins, no more links follow. -/
theorem length_links_le {links links' : List Link} (h : Spans (links.flatMap Link.tokens) c d)
    (hjoins : joins d.token = false) {d' : Cursor}
    (h' : Spans (links'.flatMap Link.tokens) c d') : links'.length ≤ links.length := by
  induction links' generalizing links c with
  | nil => exact Nat.zero_le _
  | cons link' links' ih =>
    obtain ⟨hoperator, -, h'⟩ := spans_links_cons_iff.mp h'
    cases links with
    | nil =>
      -- The next link of the longer row would start with the token behind the shorter one.
      cases Cursor.spans_nil_iff.mp h
      rw [hoperator, link'.joins] at hjoins
      cases hjoins
    | cons link links =>
      obtain ⟨-, -, h⟩ := spans_links_cons_iff.mp h
      exact Nat.succ_le_succ (ih h h')

/-- Where no operator joins, the row in front is the longest. -/
theorem length_tokens_le {row row' : Row} (h : Spans row.tokens c d)
    (hjoins : joins d.token = false) (h' : row'.tokens <+: c.rest) :
    row'.tokens.length ≤ row.tokens.length := by
  obtain ⟨d', h'⟩ := Cursor.exists_spans_iff.mpr h'
  have hle := length_links_le (spans_row_iff.mp h).2 hjoins (spans_row_iff.mp h').2
  rw [Row.length_tokens, Row.length_tokens]
  omega

/-! ## Failures -/

/-- A term stops so: the token is none, or it has no value. -/
inductive TermFails (scopes : Scopes) (t : Token) : Stop → Prop where
  | noTerm (h : ¬ t.IsTerm) :
      TermFails scopes t (.fault (.ofPlace t.place (.unexpectedToken .value t)))
  | noValue {stop : Stop} (h : t.value? scopes = some (.error stop)) :
      TermFails scopes t (stop.locate (some t.place.line) (some t.place.column))

/-- A link stops so: its operator is checked before its term is evaluated, and applied after it. -/
inductive LinkFails (scopes : Scopes) (left : Value) (operator term : Token) : Stop → Prop where
  | operator (h : Arithmetic.ofSymbol? operator.text = none) :
      LinkFails scopes left operator term
        (.fault (.ofPlace operator.place (.unknownOperator operator.text)))
  | term {op : Arithmetic} {stop : Stop} (hop : Arithmetic.ofSymbol? operator.text = some op)
      (h : TermFails scopes term stop) : LinkFails scopes left operator term stop
  | applying {op : Arithmetic} {right : Value} {stop : Stop}
      (hop : Arithmetic.ofSymbol? operator.text = some op)
      (hright : term.value? scopes = some (.ok right))
      (h : left.apply (.arithmetic op) right = .error stop) :
      LinkFails scopes left operator term
        (stop.locate (some operator.place.line) (some operator.place.column))

/-- The first failure of an expression, from left to right: its first term fails, or a link does
after a row that has a value. -/
inductive Fails (scopes : Scopes) (c : Cursor) : Stop → Prop where
  | first {stop : Stop} (h : TermFails scopes c.token stop) : Fails scopes c stop
  | link {row : Row} {d : Cursor} {left : Value} {stop : Stop} (hrow : Spans row.tokens c d)
      (hleft : row.value? scopes = some left) (hjoins : joins d.token = true)
      (h : LinkFails scopes left d.token d.next.token stop) : Fails scopes c stop

theorem term_error_iff : (∃ d, term scopes c = .error e d) ↔ TermFails scopes c.token e := by
  cases hvalue : c.token.value? scopes with
  | none =>
    rw [term_of_none hvalue]
    constructor
    · rintro ⟨d, ⟨⟩⟩
      exact .noTerm (Token.value?_eq_none_iff.mp hvalue)
    · rintro (_ | h)
      · exact ⟨c, rfl⟩
      · rw [hvalue] at h
        cases h
  | some r =>
    rw [term_of_some hvalue]
    constructor
    · rintro ⟨d, h⟩
      obtain ⟨stop, rfl, -, rfl⟩ := ofExcept_error_iff.mp h
      exact .noValue hvalue
    · rintro (h | h)
      · exact absurd (Token.isTerm_of_value? hvalue) h
      · rw [hvalue, Option.some.injEq] at h
        exact ⟨c.next, ofExcept_error_iff.mpr ⟨_, h, rfl, rfl⟩⟩

theorem operation_ok_iff {left : Value} {token : Token} {n : Int} :
    operation scopes left token c = .ok n d ↔
      ∃ op right, Arithmetic.ofSymbol? token.text = some op ∧
        c.token.value? scopes = some (.ok right) ∧
        left.apply (.arithmetic op) right = .ok n ∧ d = c.next := by
  cases hop : Arithmetic.ofSymbol? token.text with
  | none =>
    rw [operation_of_none hop]
    constructor
    · rintro ⟨⟩
    · rintro ⟨_, _, hnone, -⟩
      cases hnone
  | some op =>
    rw [operation_of_some hop, bind_ok_iff]
    constructor
    · rintro ⟨right, c₁, hterm, h⟩
      obtain ⟨hright, rfl⟩ := term_ok_iff.mp hterm
      obtain ⟨happly, rfl⟩ := ofExcept_ok_iff.mp h
      exact ⟨op, right, rfl, hright, happly, rfl⟩
    · rintro ⟨op', right, hop', hright, happly, rfl⟩
      cases hop'
      exact ⟨right, c.next, term_ok_iff.mpr ⟨hright, rfl⟩, ofExcept_ok_iff.mpr ⟨happly, rfl⟩⟩

theorem operation_error_iff {left : Value} {token : Token} :
    (∃ d, operation scopes left token c = .error e d) ↔
      LinkFails scopes left token c.token e := by
  cases hop : Arithmetic.ofSymbol? token.text with
  | none =>
    rw [operation_of_none hop]
    constructor
    · rintro ⟨d, ⟨⟩⟩
      exact .operator hop
    · rintro (_ | ⟨hop', _⟩ | ⟨hop', _, _⟩)
      · exact ⟨c, rfl⟩
      all_goals
        rw [hop] at hop'
        cases hop'
  | some op =>
    rw [operation_of_some hop]
    constructor
    · rintro ⟨d, h⟩
      obtain hterm | ⟨right, c₁, hterm, h⟩ := bind_error_iff.mp h
      · exact .term hop (term_error_iff.mp ⟨d, hterm⟩)
      · obtain ⟨hright, -⟩ := term_ok_iff.mp hterm
        obtain ⟨stop, happly, -, rfl⟩ := ofExcept_error_iff.mp h
        exact .applying hop hright happly
    · rintro (hnone | ⟨_, hterm⟩ | ⟨hop', hright, happly⟩)
      · rw [hop] at hnone
        cases hnone
      · obtain ⟨d, hterm⟩ := term_error_iff.mpr hterm
        exact ⟨d, bind_of_error hterm⟩
      · rw [hop] at hop'
        cases hop'
        refine ⟨c.next, ?_⟩
        rw [bind_of_ok (term_ok_iff.mpr ⟨hright, rfl⟩)]
        exact ofExcept_error_iff.mpr ⟨_, happly, rfl, rfl⟩

/-! ## The fold -/

variable {bound : List Token} {left v : Value}

/-- A bound that covers the tokens left covers them after a link. -/
theorem length_next_next_le {b : Token} (hjoins : joins c.token = true)
    (h : c.rest.length ≤ (b :: bound).length) : c.next.next.rest.length ≤ bound.length := by
  have hnext := Cursor.length_next_le (kind_ne_endOfInput_of_joins hjoins) h
  exact (Cursor.onward_next c.next).length_le.trans hnext

/-- Operations pass over links that have a value. -/
theorem operations_of_links {links : List Link} (hbound : c.rest.length ≤ bound.length)
    (hspans : Spans (links.flatMap Link.tokens) c d)
    (hfold : links.foldlM (Link.combine? scopes) left = some v) :
    ∃ bound', d.rest.length ≤ bound'.length ∧
      operations scopes bound left c = operations scopes bound' v d := by
  induction links generalizing bound c left with
  | nil =>
    cases Cursor.spans_nil_iff.mp hspans
    cases hfold
    exact ⟨bound, hbound, rfl⟩
  | cons link links ih =>
    obtain ⟨hoperator, hterm, hspans⟩ := spans_links_cons_iff.mp hspans
    rw [List.foldlM_cons] at hfold
    obtain ⟨w, hlink, hfold⟩ := Option.bind_eq_some_iff.mp hfold
    obtain ⟨op, right, n, hop, hright, happly, rfl⟩ := Link.combine?_eq_some_iff.mp hlink
    have hjoins : joins c.token = true := hoperator ▸ link.joins
    rw [← hoperator] at hop
    rw [← hterm] at hright
    obtain ⟨b, bound, rfl⟩ := Cursor.exists_bound (kind_ne_endOfInput_of_joins hjoins) hbound
    have hoperation : operation scopes left c.token c.next = .ok n c.next.next :=
      operation_ok_iff.mpr ⟨op, right, hop, hright, happly, rfl⟩
    rw [operations_of_joins scopes b bound left hjoins, bind_of_ok hoperation]
    exact ih (length_next_next_le hjoins hbound) hspans hfold

/-- What becomes of operations: they take links that have a value, and end where no operator joins
or stop at a link that fails. -/
theorem operations_course (scopes : Scopes) (left : Value)
    (hbound : c.rest.length ≤ bound.length) :
    ∃ (links : List Link) (d : Cursor) (v : Value),
      Spans (links.flatMap Link.tokens) c d ∧
      links.foldlM (Link.combine? scopes) left = some v ∧
      (joins d.token = false ∧ operations scopes bound left c = .ok v d ∨
        joins d.token = true ∧ ∃ stop d', LinkFails scopes v d.token d.next.token stop ∧
          operations scopes bound left c = .error stop d') := by
  have hnil : Spans ([].flatMap Link.tokens) c c := Cursor.spans_nil_iff.mpr rfl
  induction bound generalizing left c with
  | nil =>
    -- The bound is used up together with the tokens, so that nothing is cut off.
    have hjoins : joins c.token = false := by
      simp [joins, Cursor.kind_of_length_le_zero hbound]
    exact ⟨[], c, left, hnil, rfl, .inl ⟨hjoins, rfl⟩⟩
  | cons b bound ih =>
    cases hjoins : joins c.token with
    | false =>
      exact ⟨[], c, left, hnil, rfl, .inl ⟨hjoins, operations_of_not_joins _ _ _ hjoins⟩⟩
    | true =>
      rw [operations_of_joins scopes b bound left hjoins]
      cases hoperation : operation scopes left c.token c.next with
      | error stop d' =>
        have hfails := operation_error_iff.mp ⟨d', hoperation⟩
        exact ⟨[], c, left, hnil, rfl, .inr ⟨hjoins, stop, d', hfails, bind_of_error hoperation⟩⟩
      | ok n c₁ =>
        obtain ⟨op, right, hop, hright, happly, rfl⟩ := operation_ok_iff.mp hoperation
        rw [bind_of_ok hoperation]
        obtain ⟨links, d, v, hspans, hfold, hend⟩ :=
          ih (.int n) (length_next_next_le hjoins hbound) (Cursor.spans_nil_iff.mpr rfl)
        let link : Link := ⟨c.token, c.next.token, hjoins, Token.isTerm_of_value? hright⟩
        have hlink : link.combine? scopes left = some (.int n) :=
          Link.combine?_eq_some_iff.mpr ⟨op, right, n, hop, hright, happly, rfl⟩
        refine ⟨link :: links, d, v, spans_links_cons_iff.mpr ⟨rfl, rfl, hspans⟩, ?_, hend⟩
        rw [List.foldlM_cons, hlink]
        exact hfold

theorem expression_of_row {row : Row} (hspans : Spans row.tokens c d)
    (hvalue : row.value? scopes = some v) :
    ∃ bound, d.rest.length ≤ bound.length ∧
      expression scopes c = operations scopes bound v d := by
  obtain ⟨hfirst, hlinks⟩ := spans_row_iff.mp hspans
  obtain ⟨left, hleft, hfold⟩ := Row.value?_eq_some_iff.mp hvalue
  rw [← hfirst] at hleft
  obtain ⟨bound, hbound, h⟩ := operations_of_links (Nat.le_refl _) hlinks hfold
  refine ⟨bound, hbound, ?_⟩
  unfold expression
  rw [bind_of_ok (term_ok_iff.mpr ⟨hleft, rfl⟩)]
  exact h

/-- What becomes of an expression: its first term fails, or it takes a row that has a value, and
ends where no operator joins or stops at a link that fails. -/
theorem expression_course (scopes : Scopes) (c : Cursor) :
    (∃ stop d', TermFails scopes c.token stop ∧ expression scopes c = .error stop d') ∨
    ∃ (row : Row) (d : Cursor) (v : Value),
      Spans row.tokens c d ∧ row.value? scopes = some v ∧
      (joins d.token = false ∧ expression scopes c = .ok v d ∨
        joins d.token = true ∧ ∃ stop d', LinkFails scopes v d.token d.next.token stop ∧
          expression scopes c = .error stop d') := by
  cases hterm : term scopes c with
  | error stop d' =>
    exact .inl ⟨stop, d', term_error_iff.mp ⟨d', hterm⟩, bind_of_error hterm⟩
  | ok left c₁ =>
    obtain ⟨hleft, rfl⟩ := term_ok_iff.mp hterm
    have heq : expression scopes c = operations scopes c.next.rest left c.next := bind_of_ok hterm
    rw [heq]
    obtain ⟨links, d, v, hspans, hfold, hend⟩ :=
      operations_course scopes left (Nat.le_refl c.next.rest.length)
    let row : Row := ⟨c.token, links, Token.isTerm_of_value? hleft⟩
    exact .inr ⟨row, d, v, spans_row_iff.mpr ⟨rfl, hspans⟩,
      Row.value?_eq_some_iff.mpr ⟨left, hleft, hfold⟩, hend⟩

/-- An expression ends with the left fold of a row, where no operator joins. -/
theorem expression_ok_iff :
    expression scopes c = .ok v d ↔
      ∃ row : Row, Spans row.tokens c d ∧ joins d.token = false ∧ row.value? scopes = some v := by
  constructor
  · intro h
    rcases expression_course scopes c with ⟨_, _, -, herror⟩ | ⟨row, d₁, v₁, hspans, hvalue, hend⟩
    · rw [h] at herror
      cases herror
    · rcases hend with ⟨hjoins, hok⟩ | ⟨-, _, _, -, herror⟩
      · rw [h] at hok
        cases hok
        exact ⟨row, hspans, hjoins, hvalue⟩
      · rw [h] at herror
        cases herror
  · rintro ⟨row, hspans, hjoins, hvalue⟩
    obtain ⟨bound, -, heq⟩ := expression_of_row hspans hvalue
    rw [heq, operations_of_not_joins scopes bound v hjoins]

/-- An expression stops at its first failure. -/
theorem expression_error_iff :
    (∃ d, expression scopes c = .error e d) ↔ Fails scopes c e := by
  constructor
  · rintro ⟨d, h⟩
    rcases expression_course scopes c with
      ⟨_, _, hfails, herror⟩ | ⟨row, d₁, v₁, hspans, hvalue, hend⟩
    · rw [h] at herror
      cases herror
      exact .first hfails
    · rcases hend with ⟨-, hok⟩ | ⟨hjoins, _, _, hfails, herror⟩
      · rw [h] at hok
        cases hok
      · rw [h] at herror
        cases herror
        exact .link hspans hvalue hjoins hfails
  · rintro (hfails | ⟨hspans, hvalue, hjoins, hfails⟩)
    · obtain ⟨d, hterm⟩ := term_error_iff.mpr hfails
      exact ⟨d, bind_of_error hterm⟩
    · obtain ⟨bound, hbound, heq⟩ := expression_of_row hspans hvalue
      obtain ⟨b, bound, rfl⟩ := Cursor.exists_bound (kind_ne_endOfInput_of_joins hjoins) hbound
      obtain ⟨d, hoperation⟩ := operation_error_iff.mpr hfails
      rw [heq, operations_of_joins scopes b bound _ hjoins]
      exact ⟨d, bind_of_error hoperation⟩

end Reading

/-! ## The condition of a loop -/

namespace Walk

variable {block : Walk Unit} {cap : Int} {m e e' : Machine} {bodyStart : Cursor} {left : Nat}
  {holds : Bool}

/-- The body of a loop starts behind the brace that follows the condition. -/
theorem InLoop.exists_condition (h : InLoop block cap m bodyStart left holds e) :
    ∃ scopes holds c, Reading.condition scopes m.cursor.next = .ok holds c ∧
      c.token.opensBlock = true ∧ c.next = bodyStart := by
  induction h with
  | first hhead hstart =>
    unfold head at hhead
    rw [bind_of_ok (read_advance m)] at hhead
    obtain ⟨holds, m₁, hcondition, hhead⟩ := bind_ok_iff.mp hhead
    obtain ⟨c, hc, rfl⟩ := read_ok_iff.mp hcondition
    obtain ⟨_, m₂, hopen, hhead⟩ := bind_ok_iff.mp hhead
    obtain ⟨hopens, rfl⟩ := read_openBrace_ok_iff.mp hopen
    cases hhead
    exact ⟨m.scopes, _, c, hc, hopens, hstart⟩
  | next _ _ ih => exact ih

theorem exists_condition_of_turn {conditionStart : Cursor}
    (h : turn block conditionStart bodyStart e = .ok holds e') :
    ∃ scopes, Reading.condition scopes conditionStart = .ok holds e'.cursor := by
  obtain ⟨_, e₁, -, h⟩ := bind_ok_iff.mp h
  obtain ⟨c, hc, rfl⟩ := read_ok_iff.mp
    (h : condition { e₁ with cursor := conditionStart } = .ok holds e')
  exact ⟨e₁.scopes, hc⟩

/-- A loop that evaluates its condition again ends just before the brace in front of its body. -/
theorem opensBlock_of_turn (hin : InLoop block cap m bodyStart (left + 1) true e)
    (hturn : turn block m.cursor.next bodyStart e = .ok holds e') :
    e'.cursor.token.opensBlock = true ∧ e'.cursor.next = bodyStart := by
  obtain ⟨scopes, _, c, hfirst, hopens, hstart⟩ := hin.exists_condition
  obtain ⟨scopes', hagain⟩ := exists_condition_of_turn hturn
  cases Reading.abreast_condition scopes scopes' hfirst hagain
  exact ⟨hopens, hstart⟩

end Walk

/-! ## Wrapping once -/

/-- Sums, differences and products may be taken of wrapped integers. -/
theorem Arithmetic.wrap_unwrapped_wrap {op : Arithmetic} (h : op ∈ [.add, .sub, .mul]) (l r : ℤ) :
    wrap (op.unwrapped (wrap l) r) = wrap (op.unwrapped l r) := by
  simp only [wrap_eq_bmod]
  cases op with
  | add => exact Int.bmod_add_bmod
  | sub => exact Int.bmod_sub_bmod
  | mul => exact Int.bmod_mul_bmod
  | div | mod => simp at h

/-- The exact result of the operators on the integers, from left to right. -/
def exactFold (first : ℤ) (steps : List (Arithmetic × ℤ)) : ℤ :=
  steps.foldl (fun acc step => step.1.unwrapped acc step.2) first

/-- The link adds, subtracts or multiplies by an integer. -/
def Link.Counts (scopes : Scopes) (link : Link) (step : Arithmetic × ℤ) : Prop :=
  Arithmetic.ofSymbol? link.operator.text = some step.1 ∧ step.1 ∈ [.add, .sub, .mul] ∧
    link.term.value? scopes = some (.ok (.int step.2))

theorem Link.Counts.combine? {scopes : Scopes} {link : Link} {step : Arithmetic × ℤ}
    (h : link.Counts scopes step) (l : ℤ) :
    link.combine? scopes (.int l) = some (.int (wrap (step.1.unwrapped l step.2))) := by
  obtain ⟨hop, hmem, hterm⟩ := h
  have hdefined : ¬ (step.1.Divides ∧ step.2 = 0) := by
    rintro ⟨hdiv | hmod, -⟩
    · simp [hdiv] at hmem
    · simp [hmod] at hmem
  refine combine?_eq_some_iff.mpr ⟨step.1, .int step.2, _, hop, hterm, ?_, rfl⟩
  rw [Value.apply_of_counted? step.1 rfl rfl, Arithmetic.compute_eq_unwrapped l hdefined]
  rfl

/-- Wrapping after every link comes to wrapping once at the end. -/
theorem foldlM_wrap {scopes : Scopes} {links : List Link} {steps : List (Arithmetic × ℤ)}
    (h : List.Forall₂ (Link.Counts scopes) links steps) (n : ℤ) :
    links.foldlM (Link.combine? scopes) (.int (wrap n)) =
      some (.int (wrap (exactFold n steps))) := by
  induction h generalizing n with
  | nil => rfl
  | @cons link step links steps hlink _ ih =>
    rw [List.foldlM_cons, hlink.combine? (wrap n), Arithmetic.wrap_unwrapped_wrap hlink.2.1]
    exact ih _

namespace Reading

/-- A row of integers, with operators that add, subtract or multiply, comes to its exact result
wrapped. -/
theorem expression_of_integers {scopes : Scopes} {c d : Cursor} {row : Row} {n : ℤ}
    {steps : List (Arithmetic × ℤ)} (hspans : Spans row.tokens c d)
    (hjoins : joins d.token = false) (hfirst : row.first.value? scopes = some (.ok (.int n)))
    (hn : FitsWord n) (hsteps : List.Forall₂ (Link.Counts scopes) row.links steps) :
    expression scopes c = .ok (.int (wrap (exactFold n steps))) d := by
  have hfold := foldlM_wrap hsteps n
  rw [wrap_of_mem hn.1 hn.2] at hfold
  exact expression_ok_iff.mpr
    ⟨row, hspans, hjoins, Row.value?_eq_some_iff.mpr ⟨.int n, hfirst, hfold⟩⟩

/-- **Expressions are left folds of fixed extent.**  An expression ends with a value exactly if it
takes the longest row of terms that the tokens begin with, no operator joins behind it, and the left
fold over the row has that value.  It stops exactly with its first failure from left to right.

Where an expression or a condition ends is the same with all bindings, so a loop that evaluates its
condition again ends just before the brace in front of its body.

If the terms are integers and the operators add, subtract or multiply, the value is the exact result
from left to right, wrapped once.  It is enough that the first integer fits into a word. -/
theorem expression_left_fold (scopes : Scopes) (c : Cursor) :
    (∀ v d, expression scopes c = .ok v d ↔
      ∃ row : Row, Spans row.tokens c d ∧
        (∀ row' : Row, row'.tokens <+: c.rest → row'.tokens.length ≤ row.tokens.length) ∧
        joins d.token = false ∧ row.value? scopes = some v) ∧
    (∀ stop, (∃ d, expression scopes c = .error stop d) ↔ Fails scopes c stop) ∧
    (∀ scopes' v v' d d', expression scopes c = .ok v d → expression scopes' c = .ok v' d' →
      d = d') ∧
    (∀ scopes' holds holds' d d', condition scopes c = .ok holds d →
      condition scopes' c = .ok holds' d' → d = d') ∧
    (∀ block cap m bodyStart left e holds e',
      Walk.InLoop block cap m bodyStart (left + 1) true e →
      Walk.turn block m.cursor.next bodyStart e = .ok holds e' →
        e'.cursor.token.opensBlock = true ∧ e'.cursor.next = bodyStart) ∧
    (∀ (row : Row) d n steps, Spans row.tokens c d → joins d.token = false →
      row.first.value? scopes = some (.ok (.int n)) → FitsWord n →
      List.Forall₂ (Link.Counts scopes) row.links steps →
        expression scopes c = .ok (.int (wrap (exactFold n steps))) d) := by
  refine ⟨fun v d => ?_, fun stop => expression_error_iff, ?_, ?_, ?_, ?_⟩
  · rw [expression_ok_iff]
    constructor
    · rintro ⟨row, hspans, hjoins, hvalue⟩
      exact ⟨row, hspans, fun row' => length_tokens_le hspans hjoins, hjoins, hvalue⟩
    · rintro ⟨row, hspans, -, hjoins, hvalue⟩
      exact ⟨row, hspans, hjoins, hvalue⟩
  · intro scopes' v v' d d' h h'
    exact abreast_expression scopes scopes' h h'
  · intro scopes' holds holds' d d' h h'
    exact abreast_condition scopes scopes' h h'
  · intro block cap m bodyStart left e holds e' hin hturn
    exact Walk.opensBlock_of_turn hin hturn
  · intro row d n steps hspans hjoins hfirst hn hsteps
    exact expression_of_integers hspans hjoins hfirst hn hsteps

/-- The greatest integer, plus one, times two. -/
def overflowing : Row where
  first := ⟨.integer, "9223372036854775807", ⟨1, 1⟩⟩
  links :=
    [⟨⟨.operator, "+", ⟨1, 21⟩⟩, ⟨.integer, "1", ⟨1, 23⟩⟩, by decide, .inl rfl⟩,
      ⟨⟨.operator, "*", ⟨1, 25⟩⟩, ⟨.integer, "2", ⟨1, 27⟩⟩, by decide, .inl rfl⟩]
  isTerm := .inl rfl

/-- The sum is taken before the product, and the two overflows cancel out. -/
theorem expression_overflowing :
    FitsWord 9223372036854775807 ∧
      expression {} (.start overflowing.tokens) =
        .ok (.int 0) ⟨overflowing.tokens, [], List.nil_suffix⟩ := by
  have hn : FitsWord 9223372036854775807 := ⟨by decide, by decide⟩
  obtain ⟨-, -, -, -, -, hintegers⟩ := expression_left_fold {} (.start overflowing.tokens)
  refine ⟨hn, hintegers overflowing _ 9223372036854775807 [(.add, 1), (.mul, 2)] ?_ ?_ ?_ hn ?_⟩
  · exact ⟨rfl, (List.append_nil _).symm⟩
  · decide
  · decide +kernel
  · refine .cons ⟨rfl, by decide, ?_⟩ (.cons ⟨rfl, by decide, ?_⟩ .nil)
    · decide +kernel
    · decide +kernel

end Reading

end TokenWalk
