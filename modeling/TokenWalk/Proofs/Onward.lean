import TokenWalk.Proofs.Outcome

/-!
# Steps go onward

A reading never moves the cursor back.  A walk may, but no further than to a cursor it has stood on
since it began, so in the end it has not gone back either: `Forward` holds of readings and of
statements and blocks, however they end.  A statement that ends takes at least the token it starts
with (`onward_next_of_statementWith`), which is why the tokens left are always bound enough for a
loop over statements.
-/

namespace TokenWalk

variable {α β : Type}

namespace Cursor

/-- Cursors are the same if they stand before the same tokens of the same list. -/
theorem ext_rest {c d : Cursor} (htokens : c.tokens = d.tokens) (hrest : c.rest = d.rest) :
    c = d := by
  cases c
  cases d
  cases htokens
  cases hrest
  rfl

/-- The second cursor stands in the same list, where the first one stands or after it. -/
structure Onward (c d : Cursor) : Prop where
  tokens_eq : d.tokens = c.tokens
  suffix : d.rest <:+ c.rest

theorem Onward.refl (c : Cursor) : c.Onward c :=
  ⟨rfl, List.suffix_refl _⟩

theorem Onward.trans {c d e : Cursor} (hcd : c.Onward d) (hde : d.Onward e) : c.Onward e :=
  ⟨hde.tokens_eq.trans hcd.tokens_eq, hde.suffix.trans hcd.suffix⟩

theorem onward_next (c : Cursor) : c.Onward c.next :=
  ⟨rfl, List.tail_suffix _⟩

theorem Onward.length_le {c d : Cursor} (h : c.Onward d) : d.rest.length ≤ c.rest.length :=
  h.suffix.length_le

/-- Past the end of the list the token is an end of input. -/
theorem atEnd_of_rest_eq_nil {c : Cursor} (h : c.rest = []) : c.atEnd = true := by
  unfold atEnd token
  rw [h]
  rfl

theorem length_rest_next {c : Cursor} (h : c.rest ≠ []) :
    c.next.rest.length + 1 = c.rest.length := by
  rw [rest_next, List.length_tail]
  have hpos : 0 < c.rest.length := List.length_pos_iff.mpr h
  omega

/-- The cursor before the token with the given index. -/
def ofIndex (tokens : List Token) (n : Nat) : Cursor :=
  ⟨tokens, tokens.drop n, List.drop_suffix n tokens⟩

theorem position_ofIndex {tokens : List Token} {n : Nat} (h : n ≤ tokens.length) :
    (ofIndex tokens n).position = n := by
  show tokens.length - (tokens.drop n).length = n
  rw [List.length_drop]
  omega

/-- A cursor is before the tokens from its position on. -/
theorem rest_eq_drop (c : Cursor) : c.rest = c.tokens.drop c.position :=
  List.suffix_iff_eq_drop.mp c.rest_suffix

/-- A cursor is known by the tokens that were passed on the way to it. -/
theorem Onward.eq_ofIndex {c d : Cursor} {seg : List Token} (h : c.Onward d)
    (hseg : c.rest = seg ++ d.rest) : d = ofIndex c.tokens (c.position + seg.length) := by
  refine ext_rest (d := ofIndex _ _) h.tokens_eq ?_
  show d.rest = c.tokens.drop (c.position + seg.length)
  rw [← List.drop_drop, ← c.rest_eq_drop, hseg, List.drop_left]

end Cursor

/-! ## Readings -/

namespace Reading

/-- The reading ends where it begins or after it, with a value or with a stop. -/
def Forward (x : Reading α) : Prop :=
  ∀ c, Meets (fun _ d => c.Onward d) (fun _ d => c.Onward d) (x c)

theorem Forward.bind {x : Reading α} {f : α → Reading β} (hx : Forward x)
    (hf : ∀ a, Forward (f a)) : Forward (x >>= f) := by
  intro c
  refine (hx c).bind fun a d hd => ?_
  exact (hf a d).mono (fun _ _ he => hd.trans he) (fun _ _ he => hd.trans he)

theorem forward_pure (a : α) : Forward (pure a) := fun c => .refl c

theorem forward_get : Forward (get : Reading Cursor) := fun c => .refl c

theorem forward_throw (stop : Stop) : Forward (throw stop : Reading α) := fun c => .refl c

theorem forward_fail (token : Token) (cause : Cause) : Forward (fail token cause : Reading α) :=
  forward_throw _

theorem forward_current : Forward current := fun c => .refl c

theorem forward_advance : Forward advance := fun c => c.onward_next

theorem forward_ofExcept (token : Token) (r : Except Stop α) : Forward (ofExcept token r) := by
  cases r with
  | ok a => exact forward_pure a
  | error stop => exact forward_throw _

theorem forward_expect (kind : Kind) (text? : Option String) : Forward (expect kind text?) := by
  refine forward_current.bind fun token => ?_
  split
  · exact forward_advance
  · exact forward_fail _ _

theorem forward_openBrace : Forward openBrace :=
  (forward_expect _ _).bind fun _ => forward_pure ()

theorem forward_closeBrace : Forward closeBrace :=
  (forward_expect _ _).bind fun _ => forward_pure ()

theorem forward_skipBlocks (bound : List Token) (depth : Nat) :
    Forward (skipBlocks bound depth) := by
  induction bound generalizing depth with
  | nil =>
    cases depth with
    | zero => exact forward_pure ()
    | succ depth => exact forward_current.bind fun _ => forward_fail _ _
  | cons _ bound ih =>
    cases depth with
    | zero => exact forward_pure ()
    | succ depth =>
      refine forward_current.bind fun token => ?_
      split
      · exact forward_fail _ _
      · refine forward_advance.bind fun _ => ?_
        split
        · exact ih _
        · split
          · exact ih _
          · exact ih _

theorem forward_skipBlock : Forward skipBlock :=
  forward_get.bind fun _ => forward_skipBlocks _ _

theorem forward_term (scopes : Scopes) : Forward (term scopes) := by
  refine forward_current.bind fun token => ?_
  split
  · exact forward_advance.bind fun _ => forward_ofExcept _ _
  · exact forward_fail _ _

theorem forward_operation (scopes : Scopes) (left : Value) (token : Token) :
    Forward (operation scopes left token) := by
  unfold operation
  split
  · exact forward_fail _ _
  · exact (forward_term scopes).bind fun _ => forward_ofExcept _ _

theorem forward_operations (scopes : Scopes) (bound : List Token) (left : Value) :
    Forward (operations scopes bound left) := by
  induction bound generalizing left with
  | nil => exact forward_pure left
  | cons _ bound ih =>
    refine forward_current.bind fun token => ?_
    split
    · refine forward_advance.bind fun _ => ?_
      split
      · exact forward_fail _ _
      · refine (forward_term scopes).bind fun _ => ?_
        exact (forward_ofExcept _ _).bind fun _ => ih _
    · exact forward_pure left

theorem forward_expression (scopes : Scopes) : Forward (expression scopes) :=
  (forward_term scopes).bind fun _ => forward_get.bind fun _ => forward_operations _ _ _

theorem forward_condition (scopes : Scopes) : Forward (condition scopes) := by
  refine (forward_expression scopes).bind fun _ => forward_current.bind fun token => ?_
  split
  · refine forward_advance.bind fun _ => ?_
    exact (forward_expression scopes).bind fun _ => forward_ofExcept _ _
  · exact forward_fail _ _

end Reading

/-! ## Walks -/

namespace Walk

/-- From a cursor at or after `base`, the walk does not end before `base`. -/
def Beyond (base : Cursor) (w : Walk α) : Prop :=
  ∀ m, base.Onward m.cursor →
    Meets (fun _ m' => base.Onward m'.cursor) (fun _ m' => base.Onward m'.cursor) (w m)

/-- The walk ends where it begins or after it, with a value or with a stop. -/
def Forward (w : Walk α) : Prop :=
  ∀ base, Beyond base w

theorem Beyond.bind {base : Cursor} {x : Walk α} {f : α → Walk β} (hx : Beyond base x)
    (hf : ∀ a, Beyond base (f a)) : Beyond base (x >>= f) := by
  intro m hm
  exact (hx m hm).bind fun a m' hm' => hf a m' hm'

/-- Going on with the machine as it is, whose cursor is known to be beyond the base. -/
theorem beyond_get_bind {base : Cursor} {f : Machine → Walk β}
    (hf : ∀ m, base.Onward m.cursor → Beyond base (f m)) : Beyond base (get >>= f) := by
  intro m hm
  exact hf m hm m hm

theorem Forward.bind {x : Walk α} {f : α → Walk β} (hx : Forward x) (hf : ∀ a, Forward (f a)) :
    Forward (x >>= f) :=
  fun base => (hx base).bind fun a => hf a base

theorem forward_get_bind {f : Machine → Walk β} (hf : ∀ m, Forward (f m)) :
    Forward (get >>= f) :=
  fun base => beyond_get_bind fun m _ => hf m base

theorem forward_pure (a : α) : Forward (pure a) := fun _ _ hm => hm

theorem forward_read {x : Reading α} (hx : x.Forward) : Forward (read x) := by
  intro base m hm
  have h := hx m.cursor
  unfold read
  cases hr : x m.cursor with
  | ok a c =>
    rw [hr] at h
    exact hm.trans h
  | error e c =>
    rw [hr] at h
    exact hm.trans h

/-- A walk that leaves the cursor alone goes forward. -/
theorem forward_modify {f : Machine → Machine} (hf : ∀ m, (f m).cursor = m.cursor) :
    Forward (modify f) := by
  intro base m hm
  show base.Onward (f m).cursor
  rw [hf]
  exact hm

theorem forward_throw (stop : Stop) : Forward (throw stop : Walk α) :=
  fun _ _ hm => hm

theorem forward_note (entry : Entry) : Forward (note entry) := forward_modify fun _ => rfl

theorem forward_emit (value : Value) : Forward (emit value) := forward_modify fun _ => rfl

theorem beyond_moveTo {base c : Cursor} (hc : base.Onward c) : Beyond base (moveTo c) :=
  fun _ _ => hc

theorem forward_expression : Forward expression :=
  forward_get_bind fun _ => forward_read (Reading.forward_expression _)

theorem forward_condition : Forward condition :=
  forward_get_bind fun _ => forward_read (Reading.forward_condition _)

theorem Beyond.inFrame {base : Cursor} {body : Walk Unit} (h : Beyond base body) :
    Beyond base (inFrame body) := by
  intro m hm
  have hbody := h { m with scopes := m.scopes.push } hm
  unfold Walk.inFrame
  cases hr : body { m with scopes := m.scopes.push } with
  | ok a m' =>
    rw [hr] at hbody
    exact hbody
  | error e m' =>
    rw [hr] at hbody
    exact hbody

theorem Forward.inFrame {body : Walk Unit} (h : Forward body) : Forward (inFrame body) :=
  fun base => (h base).inFrame

/-! ## Statements -/

/-- The walk takes the token under the cursor, if it ends with a value. -/
def Takes (w : Walk α) : Prop :=
  ∀ m, Meets (fun _ m' => m.cursor.next.Onward m'.cursor) (fun _ m' => m.cursor.Onward m'.cursor)
    (w m)

theorem Takes.forward {w : Walk α} (h : Takes w) : Forward w := by
  intro base m hm
  refine (h m).mono (fun _ m' hm' => ?_) (fun _ m' hm' => ?_)
  · exact hm.trans (m.cursor.onward_next.trans hm')
  · exact hm.trans hm'

theorem takes_advance_bind {f : Token → Walk β} (hf : ∀ token, Forward (f token)) :
    Takes (read .advance >>= f) := by
  intro m
  have h := hf m.cursor.token m.cursor.next { m with cursor := m.cursor.next } (.refl _)
  rw [bind_of_ok (read_advance m)]
  exact h.mono (fun _ _ hm' => hm') (fun _ _ hm' => m.cursor.onward_next.trans hm')

theorem takes_declaration : Takes declaration := by
  refine takes_advance_bind fun _ => ?_
  refine (forward_read (Reading.forward_expect _ _)).bind fun name => ?_
  refine (forward_read (Reading.forward_expect _ _)).bind fun _ => ?_
  refine forward_expression.bind fun value => forward_get_bind fun m => ?_
  split
  · exact forward_read (Reading.forward_fail _ _)
  · refine Forward.bind ?_ fun _ => forward_note _
    exact forward_modify fun _ => rfl

theorem takes_assignment : Takes assignment := by
  intro m
  unfold assignment
  rw [bind_of_ok (read_current m), bind_of_ok (get_apply m)]
  split
  · exact .refl _
  · refine takes_advance_bind (fun _ => ?_) m
    refine (forward_read (Reading.forward_expect _ _)).bind fun _ => ?_
    refine forward_expression.bind fun value => forward_get_bind fun m' => ?_
    split
    · exact forward_throw _
    · refine Forward.bind ?_ fun _ => forward_note _
      exact forward_modify fun _ => rfl

theorem takes_printing : Takes printing := by
  refine takes_advance_bind fun _ => ?_
  refine (forward_read (Reading.forward_expect _ _)).bind fun _ => ?_
  refine forward_expression.bind fun value => ?_
  refine (forward_read (Reading.forward_expect _ _)).bind fun _ => ?_
  exact forward_emit value

/-- A loop goes back to its condition and its body, but not behind them. -/
theorem beyond_rounds {base conditionStart bodyStart : Cursor} {block : Walk Unit}
    (hblock : Forward block) (hcondition : base.Onward conditionStart)
    (hbody : base.Onward bodyStart) (cap : Int) (keyword : Token) (left : Nat) (holds : Bool) :
    Beyond base (rounds block cap keyword conditionStart bodyStart left holds) := by
  induction left generalizing holds with
  | zero =>
    cases holds with
    | false => exact forward_pure 0 base
    | true => exact forward_throw _ base
  | succ left ih =>
    cases holds with
    | false => exact forward_pure (left + 1) base
    | true =>
      have hround : Beyond base (inFrame do moveTo bodyStart; block) :=
        ((beyond_moveTo hbody).bind fun _ => hblock base).inFrame
      refine hround.bind fun _ => (beyond_moveTo hcondition).bind fun _ => ?_
      exact (forward_condition base).bind fun holds => ih holds

theorem takes_loop {block : Walk Unit} (hblock : Forward block) (cap : Int) :
    Takes (loop block cap) := by
  refine takes_advance_bind fun keyword base => beyond_get_bind fun m hm => ?_
  refine (forward_condition base).bind fun holds => ?_
  refine (forward_read Reading.forward_openBrace base).bind fun _ => ?_
  refine beyond_get_bind fun m' hm' => ?_
  refine (beyond_rounds hblock hm hm' cap keyword cap.toNat holds).bind fun left => ?_
  refine (forward_note _ base).bind fun _ => (beyond_moveTo hm').bind fun _ => ?_
  exact forward_read Reading.forward_skipBlock base

theorem forward_branch {block : Walk Unit} (hblock : Forward block) : Forward (branch block) :=
  (hblock.bind fun _ => forward_read Reading.forward_closeBrace).inFrame

theorem forward_alternative {body : Walk Unit} (hbody : Forward body) :
    Forward (alternative body) := by
  refine (forward_read Reading.forward_current).bind fun token => ?_
  split
  · refine (forward_read Reading.forward_advance).bind fun _ => ?_
    exact (forward_read Reading.forward_openBrace).bind fun _ => hbody
  · exact forward_pure ()

theorem takes_conditional {block : Walk Unit} (hblock : Forward block) :
    Takes (conditional block) := by
  refine takes_advance_bind fun keyword => ?_
  refine forward_condition.bind fun holds => ?_
  refine (forward_read Reading.forward_openBrace).bind fun _ => (forward_note _).bind fun _ => ?_
  have hskip : Forward (read .skipBlock) := forward_read Reading.forward_skipBlock
  have hbranch : Forward (branch block) := forward_branch hblock
  split
  · exact hbranch.bind fun _ => forward_alternative hskip
  · exact hskip.bind fun _ => forward_alternative hbranch

/-- A statement takes the token it starts with. -/
theorem takes_statementWith {block : Walk Unit} (hblock : Forward block) (cap : Int) :
    Takes (statementWith block cap) := by
  intro m
  have h := dispatch block cap m
  generalize statementWith block cap m = r at h
  cases h with
  | declaration => exact takes_declaration m
  | printing => exact takes_printing m
  | loop => exact takes_loop hblock cap m
  | conditional => exact takes_conditional hblock m
  | unhandled => exact .refl _
  | assignment => exact takes_assignment m
  | stray => exact .refl _

theorem forward_untilBrace {statement : Walk Unit} (h : Forward statement) (bound : List Token) :
    Forward (untilBrace statement bound) := by
  induction bound with
  | nil =>
    refine (forward_read Reading.forward_current).bind fun _ => ?_
    exact forward_read (Reading.forward_fail _ _)
  | cons _ bound ih =>
    refine (forward_read Reading.forward_current).bind fun token => ?_
    split
    · exact forward_pure ()
    · split
      · exact forward_read (Reading.forward_fail _ _)
      · exact h.bind fun _ => ih

/-- A block goes forward, however deep its blocks nest. -/
theorem forward_block (cap : Int) (nesting : Nat) : Forward (block cap nesting) := by
  induction nesting with
  | zero =>
    refine (forward_read Reading.forward_current).bind fun _ => ?_
    exact forward_read (Reading.forward_fail _ _)
  | succ nesting ih =>
    refine forward_get_bind fun m => ?_
    exact forward_untilBrace (takes_statementWith ih cap).forward m.cursor.rest

/-- A statement that ends is past the token it started with. -/
theorem onward_next_of_statementWith {cap : Int} {nesting : Nat} {m m' : Machine}
    (h : statementWith (block cap nesting) cap m = .ok () m') :
    m.cursor.next.Onward m'.cursor :=
  (takes_statementWith (forward_block cap nesting) cap m).of_ok h

end Walk

end TokenWalk
