import TokenWalk.Proofs.Layout
import TokenWalk.Proofs.Literals

/-!
# Faults point at the offending token

Wherever a run fails, its fault points at a token of the fragment that is of the sort the cause is
about: a name that is not defined is blamed on that name, an operand of a wrong type on the
operator, a loop that is too long on its `while`.  `Cause.Concerns` lists the sorts, and
`Fault.Blames` says that a fault points at such a token.

The tokens that a reading or a walk takes are those of its list, and when it fails it points at one
of them, however far the cursor has moved since.  `Reading.Blaming` and `Walk.Blaming` say so, along
with what is known of the values; they follow a program one step at a time, as `Meets` does.
-/

namespace TokenWalk

variable {α β : Type} {tokens : List Token} {cap : Int} {source : String} {t : Token}

/-! ## What a fault is about -/

/-- The token writes the operator. -/
def Token.Writes (t : Token) (op : Operator) : Prop :=
  t.kind = .operator ∧ t.text = op.symbol

/-- The cause is about the token, which stands after another one unless it is the first.  Loops are
held to the cap. -/
def Cause.Concerns (cap : Int) (before? : Option Token) (t : Token) : Cause → Prop
  | .unhandledKeyword keyword => t.kind = .keyword ∧ t.text = keyword
  | .undefinedVariable name => t.kind = .identifier ∧ t.text = name
  | .redeclared name =>
      t.kind = .identifier ∧ t.text = name ∧ ∃ before, before? = some before ∧ before.Declares
  | .unexpectedToken _ found => t = found
  | .unknownOperator symbol => t.kind = .operator ∧ t.text = symbol
  | .divisionByZero => t.Writes (.arithmetic .div)
  | .moduloByZero => t.Writes (.arithmetic .mod)
  | .nonFinite op _ => t.Writes op ∧ ∃ arithmetic, op = .arithmetic arithmetic
  | .invalidOperands op _ _ => t.Writes op ∧ ∃ arithmetic, op = .arithmetic arithmetic
  | .incomparable op _ _ => t.Writes op ∧ ∃ comparison, op = .comparison comparison
  | .literalOutOfRange text =>
      t.kind = .integer ∧ t.text = text ∧ ∃ n, Numeral.readInteger text = .ok n ∧ maxInt < n
  | .loopLimit limit => t.kind = .keyword ∧ t.text = "while" ∧ limit = cap
  | .unclosedBlock => t.kind = .endOfInput
  | .nestingTooDeep => True
  | .unexpectedCharacter _ | .unterminatedString | .unterminatedComment | .unknownEscape _ => False

/-- The fault points at one of the tokens, and its cause is about that token. -/
def Fault.Blames (tokens : List Token) (cap : Int) (f : Fault) : Prop :=
  ∃ front t back, tokens = front ++ t :: back ∧ f.PointsAt t ∧
    f.cause.Concerns cap front.getLast? t

/-- A fault that blames one of the tokens, or an abort. -/
def Stop.Blames (tokens : List Token) (cap : Int) : Stop → Prop
  | .fault f => f.Blames tokens cap
  | .abort _ => True

/-- A fault that is about the token, whatever stands before it, or an abort. -/
def Stop.About (cap : Int) (t : Token) : Stop → Prop
  | .fault f => ∀ before?, f.cause.Concerns cap before? t
  | .abort _ => True

/-- Located at the token it is about, a stop blames it. -/
theorem Stop.About.blames {e : Stop} (h : e.About cap t) (ht : t ∈ tokens) :
    (e.locate (some t.place.line) (some t.place.column)).Blames tokens cap := by
  cases e with
  | fault f =>
    obtain ⟨front, back, hsplit⟩ := List.append_of_mem ht
    exact ⟨front, t, back, hsplit, ⟨rfl, rfl⟩, h _⟩
  | abort a => trivial

/-- A loop past its cap blames its keyword, or aborts. -/
theorem Stop.blames_overrun {place : Place}
    (h : Stop.Blames tokens cap (.fault (.ofPlace place (.loopLimit cap)))) :
    (Stop.overrun place cap).Blames tokens cap := by
  unfold Stop.overrun
  cases Numeral.writeInteger cap with
  | ok text => exact h
  | error defect => trivial

theorem about_of_refuse {cause : Cause} {e : Stop} (h : (refuse cause : Except Stop α) = .error e)
    (hcause : ∀ before?, cause.Concerns cap before? t) : e.About cap t := by
  cases h
  exact hcause

/-! ## Operators -/

theorem Arithmetic.symbol_of_ofSymbol? {text : String} {op : Arithmetic}
    (h : ofSymbol? text = some op) : text = op.symbol := by
  unfold ofSymbol? at h
  split at h <;> cases h <;> rfl

theorem Comparison.symbol_of_ofSymbol? {text : String} {op : Comparison}
    (h : ofSymbol? text = some op) : text = op.symbol := by
  unfold ofSymbol? at h
  split at h <;> cases h <;> rfl

theorem about_of_operand {op : Arithmetic} {a : Number} {e : Stop} (ht : t.Writes (.arithmetic op))
    (h : a.operand (.arithmetic op) = .error e) : e.About cap t := by
  cases a with
  | int n => cases h
  | double x =>
    simp only [Number.operand] at h
    split at h
    · cases h
    · exact about_of_refuse h fun _ => ⟨ht, op, rfl⟩

theorem about_of_compute {op : Arithmetic} {l r : Int} {e : Stop} (ht : t.Writes (.arithmetic op))
    (h : op.compute l r = .error e) : e.About cap t := by
  cases op with
  | add | sub | mul => cases h
  | div | mod =>
    simp only [Arithmetic.compute] at h
    split at h
    · exact about_of_refuse h fun _ => ht
    · cases h

/-- An arithmetic operator that fails is to blame. -/
theorem about_of_apply {left right : Value} {op : Arithmetic} {e : Stop}
    (ht : t.Writes (.arithmetic op)) (h : left.apply (.arithmetic op) right = .error e) :
    e.About cap t := by
  obtain hrefuse | ⟨a, b, hcompute⟩ := Value.apply_cases left right op
  · rw [hrefuse] at h
    exact about_of_refuse h fun _ => ⟨ht, op, rfl⟩
  · rw [hcompute] at h
    obtain h | ⟨l, _, h⟩ := except_bind_error_iff.mp h
    · exact about_of_operand ht h
    obtain h | ⟨r, _, h⟩ := except_bind_error_iff.mp h
    · exact about_of_operand ht h
    obtain h | ⟨n, _, h⟩ := except_bind_error_iff.mp h
    · exact about_of_compute ht h
    · cases h

/-- A comparison that fails is to blame. -/
theorem about_of_compare {left right : Value} {op : Comparison} {e : Stop}
    (ht : t.Writes (.comparison op)) (h : left.compare (.comparison op) right = .error e) :
    e.About cap t := by
  unfold Value.compare at h
  split at h
  · cases h
  · cases h
  · split at h
    · obtain h | ⟨relation, _, h⟩ := except_bind_error_iff.mp h
      · rw [(relation_eq_error h).1]
        trivial
      · cases h
    · exact about_of_refuse h fun _ => ⟨ht, op, rfl⟩

/-! ## Terms -/

/-- An integer literal has no sign. -/
theorem Token.readInteger_nonneg {n : Int} (h : ofSource source = .ok tokens) (ht : t ∈ tokens)
    (hkind : t.kind = .integer) (hexponent : t.hasExponent = false)
    (hread : Numeral.readInteger t.text = .ok n) : 0 ≤ n := by
  have hdigits := Numeral.mem_digits_of_integer ((text_mem_language h ht).1 hkind) hexponent
  have heq := Numeral.readInteger_of_digits hdigits
  rw [String.ofList_toList, hread] at heq
  split at heq
  · cases heq
  · cases heq
    exact Int.natCast_nonneg _

theorem about_of_integerLiteral {e : Stop} (h : Token.ofSource source = .ok tokens)
    (ht : t ∈ tokens) (hkind : t.kind = .integer) (hliteral : integerLiteral t.text = .error e) :
    e.About cap t := by
  unfold integerLiteral at hliteral
  split at hliteral
  · split at hliteral
    · cases hliteral
    · cases hliteral
      trivial
  next hexponent =>
    split at hliteral
    next n hread =>
      split at hliteral
      · cases hliteral
      next hrange =>
        have hnonneg := Token.readInteger_nonneg h ht hkind (Bool.eq_false_iff.mpr hexponent) hread
        have hmin : minInt ≤ 0 := by decide
        simp only [Bool.and_eq_true, decide_eq_true_eq, not_and] at hrange
        refine about_of_refuse hliteral fun _ => ⟨hkind, rfl, n, hread, ?_⟩
        exact Int.not_le.mp (hrange (Int.le_trans hmin hnonneg))
    next =>
      cases hliteral
      trivial

theorem about_of_value? {scopes : Scopes} {e : Stop} (h : Token.ofSource source = .ok tokens)
    (ht : t ∈ tokens) (hvalue : t.value? scopes = some (.error e)) : e.About cap t := by
  unfold Token.value? at hvalue
  split at hvalue
  next hkind => exact about_of_integerLiteral h ht hkind (Option.some.inj hvalue)
  next hkind =>
    obtain ⟨x, hliteral, -⟩ := Token.floatLiteral_eq h ht hkind
    cases hliteral.symm.trans (Option.some.inj hvalue)
  next => cases hvalue
  next hkind =>
    replace hvalue := Option.some.inj hvalue
    split at hvalue
    · cases hvalue
    · exact about_of_refuse hvalue fun _ => ⟨hkind, rfl⟩
  next => cases hvalue

/-! ## Readings -/

/-- Behind the last token of a source text stands the end of input, which is that token again. -/
theorem Cursor.token_mem_of_ofSource {c : Cursor} (h : Token.ofSource source = .ok tokens)
    (hc : c.tokens = tokens) : c.token ∈ tokens := by
  by_cases hend : c.rest = []
  · obtain ⟨body, -, rfl⟩ := Token.ofSource_eq_ok_iff.mp h
    simp [token, hend, sentinel, hc, Token.endAt]
  · obtain ⟨u, rest, hrest⟩ := List.exists_cons_of_ne_nil hend
    rw [token_of_rest hrest, ← hc]
    exact c.rest_suffix.subset (hrest ▸ List.mem_cons_self)

namespace Reading

/-- Over the tokens, the reading stops only with faults that blame one of them, and otherwise its
value is among `Q`. -/
def Blaming (tokens : List Token) (cap : Int) (Q : α → Prop) (x : Reading α) : Prop :=
  ∀ c, c.tokens = tokens →
    Meets (fun a d => d.tokens = tokens ∧ Q a) (fun e _ => e.Blames tokens cap) (x c)

variable {P : α → Prop} {Q : β → Prop}

theorem Blaming.bind {x : Reading α} {f : α → Reading β} (hx : Blaming tokens cap P x)
    (hf : ∀ a, P a → Blaming tokens cap Q (f a)) : Blaming tokens cap Q (x >>= f) := by
  intro c hc
  exact (hx c hc).bind fun a d hd => hf a hd.2 d hd.1

theorem blaming_pure {b : β} (hb : Q b) : Blaming tokens cap Q (pure b) := fun _ hc => ⟨hc, hb⟩

theorem blaming_get : Blaming tokens cap (fun _ => True) (get : Reading Cursor) :=
  fun _ hc => ⟨hc, trivial⟩

theorem blaming_fail {cause : Cause} (ht : t ∈ tokens)
    (hcause : ∀ before?, cause.Concerns cap before? t) :
    Blaming tokens cap Q (fail t cause) :=
  fun _ _ => Stop.About.blames (e := .fault { cause }) hcause ht

theorem blaming_ofExcept {r : Except Stop β} (ht : t ∈ tokens)
    (hr : ∀ e, r = .error e → e.About cap t) :
    Blaming tokens cap (fun _ => True) (ofExcept t r) := by
  intro c hc
  cases r with
  | ok b => exact ⟨hc, trivial⟩
  | error e => exact (hr e rfl).blames ht

section Source

variable (h : Token.ofSource source = .ok tokens)
include h

theorem blaming_current : Blaming tokens cap (· ∈ tokens) current :=
  fun _ hc => ⟨hc, Cursor.token_mem_of_ofSource h hc⟩

theorem blaming_advance : Blaming tokens cap (· ∈ tokens) advance :=
  fun _ hc => ⟨hc, Cursor.token_mem_of_ofSource h hc⟩

theorem blaming_expect (kind : Kind) (text? : Option String) :
    Blaming tokens cap (fun _ => True) (expect kind text?) := by
  refine (blaming_current h).bind fun token htoken => ?_
  split
  · exact fun _ hc => ⟨hc, trivial⟩
  · exact blaming_fail htoken fun _ => rfl

theorem blaming_openBrace : Blaming tokens cap (fun _ => True) openBrace :=
  (blaming_expect h _ _).bind fun _ _ => blaming_pure trivial

theorem blaming_closeBrace : Blaming tokens cap (fun _ => True) closeBrace :=
  (blaming_expect h _ _).bind fun _ _ => blaming_pure trivial

theorem blaming_skipBlock : Blaming tokens cap (fun _ => True) skipBlock := by
  intro c hc
  have hforward := forward_skipBlock c
  cases hskip : skipBlock c with
  | ok _ d =>
    rw [hskip] at hforward
    exact ⟨hforward.tokens_eq.trans hc, trivial⟩
  | error e d =>
    rw [hskip] at hforward
    have htoken := Cursor.token_mem_of_ofSource h (hforward.tokens_eq.trans hc)
    rw [skipBlock_error hskip]
    exact Stop.About.blames (e := .fault { cause := .unclosedBlock })
      (fun _ => kind_of_skipBlock_error hskip) htoken

/-! ## Expressions and conditions -/

theorem blaming_term (scopes : Scopes) : Blaming tokens cap (fun _ => True) (term scopes) := by
  refine (blaming_current h).bind fun token htoken => ?_
  split
  next r hvalue =>
    refine (blaming_advance h).bind fun _ _ => blaming_ofExcept htoken fun e he => ?_
    exact about_of_value? h htoken (hvalue.trans (congrArg some he))
  next => exact blaming_fail htoken fun _ => rfl

theorem blaming_operations (scopes : Scopes) (bound : List Token) (left : Value) :
    Blaming tokens cap (fun _ => True) (operations scopes bound left) := by
  induction bound generalizing left with
  | nil => exact blaming_pure trivial
  | cons _ bound ih =>
    refine (blaming_current h).bind fun token htoken => ?_
    split
    next hjoins =>
      simp only [joins, Bool.and_eq_true, beq_iff_eq] at hjoins
      refine (blaming_advance h).bind fun _ _ => ?_
      split
      next => exact blaming_fail htoken fun _ => ⟨hjoins.1, rfl⟩
      next op hop =>
        refine (blaming_term h scopes).bind fun right _ => ?_
        refine (blaming_ofExcept htoken fun e he => ?_).bind fun n _ => ih (.int n)
        exact about_of_apply ⟨hjoins.1, Arithmetic.symbol_of_ofSymbol? hop⟩ he
    next => exact blaming_pure trivial

theorem blaming_expression (scopes : Scopes) :
    Blaming tokens cap (fun _ => True) (expression scopes) :=
  (blaming_term h scopes).bind fun _ _ => blaming_get.bind fun _ _ => blaming_operations h _ _ _

theorem blaming_condition (scopes : Scopes) :
    Blaming tokens cap (fun _ => True) (condition scopes) := by
  refine (blaming_expression h scopes).bind fun left _ => ?_
  refine (blaming_current h).bind fun token htoken => ?_
  split
  next op hkind hop =>
    refine (blaming_advance h).bind fun _ _ => (blaming_expression h scopes).bind fun right _ => ?_
    refine blaming_ofExcept htoken fun e he => ?_
    exact about_of_compare ⟨hkind, Comparison.symbol_of_ofSymbol? hop⟩ he
  next => exact blaming_fail htoken fun _ => rfl

end Source

end Reading

/-! ## Walks -/

/-- The name in a declaration is blamed together with the word before it. -/
theorem blames_redeclared {c : Cursor} (hc : c.tokens = tokens) (hdeclares : c.token.Declares)
    (hname : c.next.token.kind = .identifier) :
    Stop.Blames tokens cap
      (.fault (.ofPlace c.next.token.place (.redeclared c.next.token.text))) := by
  have hrest := Cursor.rest_eq_cons (c := c) (by simp [hdeclares.1])
  have hnext := Cursor.rest_eq_cons (c := c.next) (by simp [hname])
  obtain ⟨front, hfront⟩ := c.rest_suffix
  rw [hrest, hnext, hc] at hfront
  refine ⟨front ++ [c.token], c.next.token, c.next.next.rest, ?_, ⟨rfl, rfl⟩, hname, rfl, ?_⟩
  · rw [← hfront, List.append_assoc]
    rfl
  · exact ⟨c.token, List.getLast?_concat, hdeclares⟩

namespace Walk

/-- The outcome is over the tokens still, or a stop that blames one of them. -/
def Blamed (tokens : List Token) (cap : Int) : EStateM.Result Stop Machine α → Prop :=
  Meets (fun _ m => m.cursor.tokens = tokens) (fun e _ => e.Blames tokens cap)

/-- Over the tokens, the walk stops only with faults that blame one of them. -/
def Blaming (tokens : List Token) (cap : Int) (w : Walk α) : Prop :=
  ∀ m, m.cursor.tokens = tokens → Blamed tokens cap (w m)

theorem Blaming.bind {x : Walk α} {f : α → Walk β} (hx : Blaming tokens cap x)
    (hf : ∀ a, Blaming tokens cap (f a)) : Blaming tokens cap (x >>= f) := by
  intro m hm
  exact Meets.bind (hx m hm) hf

theorem blaming_pure (a : α) : Blaming tokens cap (pure a) := fun _ hm => hm

theorem blaming_read {Q : α → Prop} {x : Reading α} (hx : x.Blaming tokens cap Q) :
    Blaming tokens cap (read x) := by
  intro m hm
  have h := hx m.cursor hm
  unfold read
  cases hr : x m.cursor with
  | ok a c =>
    rw [hr] at h
    exact h.1
  | error e c =>
    rw [hr] at h
    exact h

theorem blaming_throw {e : Stop} (h : e.Blames tokens cap) :
    Blaming tokens cap (throw e : Walk α) :=
  fun _ _ => h

/-- A walk that leaves the cursor alone and does not stop. -/
theorem blaming_modify {f : Machine → Machine} (hf : ∀ m, (f m).cursor = m.cursor) :
    Blaming tokens cap (modify f) := by
  intro m hm
  show (f m).cursor.tokens = tokens
  rw [hf]
  exact hm

theorem blaming_note (entry : Entry) : Blaming tokens cap (note entry) :=
  blaming_modify fun _ => rfl

theorem blaming_moveTo {c : Cursor} (hc : c.tokens = tokens) : Blaming tokens cap (moveTo c) :=
  fun _ _ => hc

theorem Blaming.inFrame {body : Walk Unit} (hbody : Blaming tokens cap body) :
    Blaming tokens cap (inFrame body) := by
  intro m hm
  have h := hbody { m with scopes := m.scopes.push } hm
  unfold Walk.inFrame
  cases hr : body { m with scopes := m.scopes.push } with
  | ok a m' =>
    rw [hr] at h
    exact h
  | error e m' =>
    rw [hr] at h
    exact h

section Source

variable {m : Machine} {block : Walk Unit} (h : Token.ofSource source = .ok tokens)
include h

theorem blaming_expect (kind : Kind) (text? : Option String) :
    Blaming tokens cap (read (.expect kind text?)) :=
  blaming_read (Reading.blaming_expect h kind text?)

theorem blaming_expression : Blaming tokens cap expression :=
  fun m hm => blaming_read (Reading.blaming_expression h m.scopes) m hm

theorem blaming_condition : Blaming tokens cap condition :=
  fun m hm => blaming_read (Reading.blaming_condition h m.scopes) m hm

/-- A fault about the token under the cursor. -/
theorem blames_current (hm : m.cursor.tokens = tokens) {cause : Cause}
    (hcause : ∀ before?, cause.Concerns cap before? m.cursor.token) :
    Stop.Blames tokens cap (.fault (.ofPlace m.cursor.token.place cause)) :=
  Stop.About.blames (e := .fault { cause }) hcause (Cursor.token_mem_of_ofSource h hm)

theorem blaming_declaration (hm : m.cursor.tokens = tokens) (hdeclares : m.cursor.token.Declares) :
    Blamed tokens cap (declaration m) := by
  unfold declaration
  rw [bind_of_ok (read_advance m)]
  have hexpect : Blaming tokens cap (read (.expect .identifier none)) := blaming_expect h _ _
  have hname := hexpect { m with cursor := m.cursor.next } hm
  cases hr : read (.expect .identifier none) { m with cursor := m.cursor.next } with
  | error e m₁ =>
    rw [hr] at hname
    rw [bind_of_error hr]
    exact hname
  | ok name m₁ =>
    rw [hr] at hname
    rw [bind_of_ok hr]
    obtain ⟨c, hc, rfl⟩ := read_ok_iff.mp hr
    obtain ⟨his, rfl, rfl⟩ := Reading.expect_ok_iff.mp hc
    have hkind : m.cursor.next.token.kind = .identifier := by
      simpa [Token.is] using his
    refine (blaming_expect h _ _).bind (fun _ => ?_) _ hname
    refine (blaming_expression h).bind fun value m₂ hm₂ => ?_
    rw [bind_of_ok (get_apply m₂)]
    cases m₂.scopes.declare? m.cursor.next.token.text value with
    | none => exact blames_redeclared hm hdeclares hkind
    | some scopes => exact hm₂

theorem blaming_assignment (hm : m.cursor.tokens = tokens)
    (hkind : m.cursor.token.kind = .identifier) :
    Blamed tokens cap (assignment m) := by
  unfold assignment
  rw [bind_of_ok (read_current m), bind_of_ok (get_apply m)]
  split
  · exact blames_current h hm fun _ => ⟨hkind, rfl⟩
  · refine (blaming_read (Reading.blaming_advance h)).bind (fun _ => ?_) m hm
    refine (blaming_expect h _ _).bind fun _ => (blaming_expression h).bind fun value m₁ hm₁ => ?_
    rw [bind_of_ok (get_apply m₁)]
    cases m₁.scopes.update? m.cursor.token.text value with
    | none => exact trivial
    | some scopes => exact hm₁

theorem blaming_printing : Blaming tokens cap printing := by
  refine (blaming_read (Reading.blaming_advance h)).bind fun _ => ?_
  refine (blaming_expect h _ _).bind fun _ => (blaming_expression h).bind fun value => ?_
  exact (blaming_expect h _ _).bind fun _ => blaming_modify fun _ => rfl

/-! ## Loops and conditionals -/

theorem blaming_rounds {keyword : Token} {conditionStart bodyStart : Cursor}
    (hblock : Blaming tokens cap block)
    (hlimit : (Stop.overrun keyword.place cap).Blames tokens cap)
    (hcondition : conditionStart.tokens = tokens) (hbody : bodyStart.tokens = tokens) (left : Nat)
    (holds : Bool) :
    Blaming tokens cap (rounds block cap keyword conditionStart bodyStart left holds) := by
  induction left generalizing holds with
  | zero =>
    cases holds with
    | false => exact blaming_pure 0
    | true => exact blaming_throw hlimit
  | succ left ih =>
    cases holds with
    | false => exact blaming_pure (left + 1)
    | true =>
      have hround : Blaming tokens cap (.inFrame do moveTo bodyStart; block) :=
        ((blaming_moveTo hbody).bind fun _ => hblock).inFrame
      refine hround.bind fun _ => (blaming_moveTo hcondition).bind fun _ => ?_
      exact (blaming_condition h).bind fun holds => ih holds

/-- However many rounds there were, a loop that is too long is blamed on its keyword. -/
theorem blaming_loop (hblock : Blaming tokens cap block) (hm : m.cursor.tokens = tokens)
    (hkind : m.cursor.token.kind = .keyword) (htext : m.cursor.token.text = "while") :
    Blamed tokens cap (loop block cap m) := by
  have hlimit : (Stop.overrun m.cursor.token.place cap).Blames tokens cap :=
    Stop.blames_overrun (blames_current h hm fun _ => ⟨hkind, htext, rfl⟩)
  unfold loop
  rw [bind_of_ok (read_advance m), bind_of_ok (get_apply _)]
  refine (blaming_condition h).bind (fun holds => ?_) _ hm
  refine (blaming_read (Reading.blaming_openBrace h)).bind fun _ m₁ hm₁ => ?_
  rw [bind_of_ok (get_apply m₁)]
  have hcondition : m.cursor.next.tokens = tokens := hm
  refine (blaming_rounds h hblock hlimit hcondition hm₁ _ holds).bind (fun left => ?_) m₁ hm₁
  refine (blaming_note _).bind fun _ => (blaming_moveTo hm₁).bind fun _ => ?_
  exact blaming_read (Reading.blaming_skipBlock h)

theorem blaming_branch (hblock : Blaming tokens cap block) :
    Blaming tokens cap (branch block) :=
  (hblock.bind fun _ => blaming_read (Reading.blaming_closeBrace h)).inFrame

theorem blaming_alternative {body : Walk Unit} (hbody : Blaming tokens cap body) :
    Blaming tokens cap (alternative body) := by
  refine (blaming_read (Reading.blaming_current h)).bind fun token => ?_
  split
  · refine (blaming_read (Reading.blaming_advance h)).bind fun _ => ?_
    exact (blaming_read (Reading.blaming_openBrace h)).bind fun _ => hbody
  · exact blaming_pure ()

theorem blaming_conditional (hblock : Blaming tokens cap block) :
    Blaming tokens cap (conditional block) := by
  refine (blaming_read (Reading.blaming_advance h)).bind fun keyword => ?_
  refine (blaming_condition h).bind fun holds => ?_
  refine (blaming_read (Reading.blaming_openBrace h)).bind fun _ => ?_
  refine (blaming_note _).bind fun _ => ?_
  have hskip : Blaming tokens cap (read .skipBlock) := blaming_read (Reading.blaming_skipBlock h)
  have hbranch : Blaming tokens cap (branch block) := blaming_branch h hblock
  split
  · exact hbranch.bind fun _ => blaming_alternative h hskip
  · exact hskip.bind fun _ => blaming_alternative h hbranch

theorem blaming_statementWith (hblock : Blaming tokens cap block) :
    Blaming tokens cap (statementWith block cap) := by
  intro m hm
  have hdispatch := dispatch block cap m
  generalize statementWith block cap m = r at hdispatch
  cases hdispatch with
  | declaration hkind htext => exact blaming_declaration h hm ⟨hkind, htext⟩
  | printing => exact blaming_printing h m hm
  | loop hkind htext => exact blaming_loop h hblock hm hkind htext
  | conditional => exact blaming_conditional h hblock m hm
  | unhandled hkind => exact blames_current h hm fun _ => ⟨hkind, rfl⟩
  | assignment hkind => exact blaming_assignment h hm hkind
  | stray => exact hm

/-! ## Rows of statements -/

/-- A row of statements stops with a statement of it, or because its block is not closed. -/
theorem blames_outcome {nesting : Nat} (inner : Bool)
    (hblock : Blaming tokens cap (Walk.block cap nesting)) (hm : m.cursor.tokens = tokens) :
    Blamed tokens cap (Spot.outcome cap ⟨inner, nesting, m⟩) := by
  -- The induction goes along the row, whose statements each take a token.
  induction hn : m.cursor.rest.length using Nat.strongRecOn generalizing m with
  | _ n ih =>
    subst hn
    by_cases hactive : Spot.Active ⟨inner, nesting, m⟩
    · have hstatement := blaming_statementWith h hblock m hm
      cases hr : statementWith (Walk.block cap nesting) cap m with
      | error e m₁ =>
        rw [hr] at hstatement
        rw [Spot.outcome_of_error hactive hr]
        exact hstatement
      | ok _ m₁ =>
        rw [hr] at hstatement
        rw [Spot.outcome_of_ok hactive hr]
        exact ih _ (length_rest_of_statementWith hactive.1 hr) hstatement rfl
    · rw [Spot.outcome, Spot.row_of_not_active hactive (Nat.le_refl _)]
      split
      next hend => exact blames_current h hm fun _ => hend.2
      next => exact hm

theorem blaming_block (cap : Int) (nesting : Nat) :
    Blaming tokens cap (Walk.block cap nesting) := by
  induction nesting with
  | zero => exact fun m hm => blames_current h hm fun _ => trivial
  | succ nesting ih => exact fun m hm => blames_outcome h true ih hm

end Source

end Walk

/-! ## The runs of a session -/

namespace Session

/-- **Faults point at the offending token.**  A fault of a run of a source text that has tokens
points at one of them, and that token is of the sort that the cause is about. -/
theorem run_blames {fault : Fault} {after : Session} (limits : Limits) (file : String)
    (session : Session) (hsource : Token.ofSource source = .ok tokens)
    (hrun : run limits source file session = .ok (some fault) after) :
    fault.Blames tokens limits.iterations := by
  rw [run_of_ok hsource] at hrun
  have hends := ends_runTokens limits tokens file session
  rw [hrun] at hends
  cases hends with
  | @fault fault m houtcome =>
    have hblock := Walk.blaming_block hsource limits.iterations limits.nesting
    have hblamed : Walk.Blamed tokens limits.iterations
        ((session.start limits tokens file).outcome limits.iterations) :=
      Walk.blames_outcome hsource false hblock rfl
    rw [houtcome] at hblamed
    exact hblamed

/-- A loop that declares a name again in its second round. -/
def recurring : String :=
  "var n = 0 while n < 9 \x7b if n == 1 \x7b var n = 2 \x7d n = n + 1 \x7d"

theorem run_recurring_blames :
    ∃ tokens fault after, Token.ofSource recurring = .ok tokens ∧
      run ⟨10, 10⟩ recurring "a" {} = .ok (some fault) after ∧
      fault = ⟨.redeclared "n", some 1, some 41, some "a"⟩ ∧ fault.Blames tokens 10 := by
  have hfault : (observe id (run ⟨10, 10⟩ recurring "a" {})).result =
      .ok (some ⟨.redeclared "n", some 1, some 41, some "a"⟩) := by
    decide +kernel
  cases hsource : Token.ofSource recurring with
  | error defect =>
    have hok : (Token.ofSource recurring).isOk = true := by decide +kernel
    rw [hsource] at hok
    cases hok
  | ok tokens =>
    cases hrun : run ⟨10, 10⟩ recurring "a" {} with
    | error abort after =>
      rw [hrun] at hfault
      cases hfault
    | ok result after =>
      rw [hrun] at hfault
      cases hfault
      exact ⟨tokens, _, after, rfl, rfl, rfl, run_blames ⟨10, 10⟩ "a" {} hsource hrun⟩

end Session

end TokenWalk
