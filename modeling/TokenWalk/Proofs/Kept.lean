import TokenWalk.Proofs.Evaluation
import TokenWalk.Proofs.Frames

/-!
# What walks keep

A walk changes its session in few ways: it notes, it prints and binds values derived from its
tokens, and it runs blocks in frames of their own.  `Kept tokens I J` says that each of these keeps
the relation `I` between the session before and the session after, and that what runs in a frame of
its own even keeps `J`.  Then so does every statement, every block and every row of statements over
the tokens, whether it ends with a value or with a stop; loops and conditionals, which do all their
work in frames, keep `J`.

The number of frames is kept in this sense (`kept_depth`).
-/

namespace TokenWalk

variable {α β : Type}

/-- A relation between an earlier and a later session that holds while nothing happens, that can be
followed step by step, and that notes keep, but for reports. -/
structure Steady (R : Session → Session → Prop) : Prop where
  refl : ∀ s, R s s
  trans : ∀ {s t u}, R s t → R t u → R s u
  note : ∀ s entry, entry.fault? = none → R s { s with journal := s.journal.push entry }

/-- Relations that the changes of a walk over the tokens keep: `J` if they happen in a frame of
their own, `I` in any case. -/
structure Kept (tokens : List Token) (I J : Session → Session → Prop) : Prop where
  row : Steady I
  framed : Steady J
  of_framed : ∀ {s t}, J s t → I s t
  emit : ∀ {s : Session} {value : Value}, Derived tokens s.scopes value → I s (s.emit value)
  declare : ∀ {s : Session} {name : String} {value : Value} {scopes : Scopes},
    Derived tokens s.scopes value → s.scopes.declare? name value = some scopes →
      I s { s with scopes }
  update : ∀ {s : Session} {name : String} {value : Value} {scopes : Scopes},
    Derived tokens s.scopes value → s.scopes.update? name value = some scopes →
      I s { s with scopes }
  frame : ∀ {s t : Session}, I { s with scopes := s.scopes.push } t →
    J s { t with scopes := t.scopes.pop }

namespace Walk

/-- The second machine is over the tokens, too, and stands in the relation to the first one. -/
def Leads (tokens : List Token) (R : Session → Session → Prop) (m m' : Machine) : Prop :=
  m'.cursor.tokens = tokens ∧ R m.toSession m'.toSession

/-- Over the tokens the walk keeps the relation, however it ends. -/
def Keeps (tokens : List Token) (R : Session → Session → Prop) (w : Walk α) : Prop :=
  ∀ m, m.cursor.tokens = tokens →
    Meets (fun _ m' => Leads tokens R m m') (fun _ m' => Leads tokens R m m') (w m)

end Walk

open Walk (Keeps Leads)

variable {tokens : List Token}

namespace Steady

variable {R : Session → Session → Prop}

theorem leads_trans (hR : Steady R) {m m₁ m₂ : Machine} (h : Leads tokens R m m₁)
    (h' : Leads tokens R m₁ m₂) : Leads tokens R m m₂ :=
  ⟨h'.1, hR.trans h.2 h'.2⟩

theorem bind (hR : Steady R) {x : Walk α} {f : α → Walk β} (hx : Keeps tokens R x)
    (hf : ∀ a, Keeps tokens R (f a)) : Keeps tokens R (x >>= f) := by
  intro m hm
  refine (hx m hm).bind fun a m' hm' => ?_
  exact (hf a m' hm'.1).mono (fun _ _ h => hR.leads_trans hm' h)
    (fun _ _ h => hR.leads_trans hm' h)

theorem pure (hR : Steady R) (a : α) : Keeps tokens R (Pure.pure a : Walk α) :=
  fun _ hm => ⟨hm, hR.refl _⟩

theorem throw (hR : Steady R) (stop : Stop) : Keeps tokens R (MonadExcept.throw stop : Walk α) :=
  fun _ hm => ⟨hm, hR.refl _⟩

/-- A reading moves the cursor over its tokens and leaves the session as it is. -/
theorem read (hR : Steady R) {x : Reading α} (hx : x.Forward) : Keeps tokens R (.read x) := by
  intro m hm
  have h := hx m.cursor
  unfold Walk.read
  cases hr : x m.cursor with
  | ok a c =>
    rw [hr] at h
    exact ⟨h.tokens_eq.trans hm, hR.refl _⟩
  | error e c =>
    rw [hr] at h
    exact ⟨h.tokens_eq.trans hm, hR.refl _⟩

theorem moveTo (hR : Steady R) {c : Cursor} (hc : c.tokens = tokens) :
    Keeps tokens R (.moveTo c) :=
  fun _ _ => ⟨hc, hR.refl _⟩

theorem condition (hR : Steady R) : Keeps tokens R .condition :=
  fun m hm => hR.read (Reading.forward_condition m.scopes) m hm

theorem walk_note (hR : Steady R) {entry : Entry} (hentry : entry.fault? = none) :
    Keeps tokens R (.note entry) :=
  fun m hm => ⟨hm, hR.note m.toSession entry hentry⟩

/-- What follows an expression has its value, derived from the tokens with the bindings as they
are. -/
theorem expression_bind (hR : Steady R) {f : Value → Walk β}
    (hf : ∀ value m, m.cursor.tokens = tokens → Derived tokens m.scopes value →
      Meets (fun _ m' => Leads tokens R m m') (fun _ m' => Leads tokens R m m') (f value m)) :
    Keeps tokens R (Walk.expression >>= f) := by
  intro m hm
  have hforward := Reading.forward_expression m.scopes m.cursor
  have hread : Walk.expression m = Walk.read (Reading.expression m.scopes) m := rfl
  cases hr : Reading.expression m.scopes m.cursor with
  | error e c =>
    rw [hr] at hforward
    rw [bind_of_error (hread.trans (Walk.read_of_error hr))]
    exact ⟨hforward.tokens_eq.trans hm, hR.refl _⟩
  | ok value c =>
    rw [hr] at hforward
    rw [bind_of_ok (hread.trans (Walk.read_of_ok hr))]
    have hderived := Reading.derived_expression hr
    rw [hm] at hderived
    -- Only the cursor has moved, so the relation need not be followed across the reading.
    exact hf value { m with cursor := c } (hforward.tokens_eq.trans hm) hderived

/-! ## Loops and conditionals -/

section Blocks

variable {block : Walk Unit}

theorem rounds (hR : Steady R) {conditionStart bodyStart : Cursor}
    (hcondition : conditionStart.tokens = tokens)
    (hround : Keeps tokens R (.inFrame do Walk.moveTo bodyStart; block)) (cap : Int)
    (keyword : Token) (left : Nat) (holds : Bool) :
    Keeps tokens R (.rounds block cap keyword conditionStart bodyStart left holds) := by
  induction left generalizing holds with
  | zero =>
    cases holds with
    | false => exact hR.pure 0
    | true => exact hR.throw _
  | succ left ih =>
    cases holds with
    | false => exact hR.pure (left + 1)
    | true =>
      refine hR.bind hround fun _ => hR.bind (hR.moveTo hcondition) fun _ => ?_
      exact hR.bind hR.condition fun holds => ih holds

theorem loop (hR : Steady R)
    (hround : ∀ c, c.tokens = tokens → Keeps tokens R (.inFrame do Walk.moveTo c; block))
    (cap : Int) : Keeps tokens R (.loop block cap) := by
  refine hR.bind (hR.read Reading.forward_advance) fun keyword m hm => ?_
  refine hR.bind hR.condition (fun holds => ?_) m hm
  refine hR.bind (hR.read Reading.forward_openBrace) fun _ m' hm' => ?_
  refine hR.bind (hR.rounds hm (hround _ hm') cap keyword _ holds) (fun left => ?_) m' hm'
  refine hR.bind (hR.walk_note rfl) fun _ => hR.bind (hR.moveTo hm') fun _ => ?_
  exact hR.read Reading.forward_skipBlock

theorem alternative (hR : Steady R) {body : Walk Unit} (hbody : Keeps tokens R body) :
    Keeps tokens R (.alternative body) := by
  refine hR.bind (hR.read Reading.forward_current) fun token => ?_
  split
  · refine hR.bind (hR.read Reading.forward_advance) fun _ => ?_
    exact hR.bind (hR.read Reading.forward_openBrace) fun _ => hbody
  · exact hR.pure ()

theorem test (hR : Steady R) : Keeps tokens R .test := by
  refine hR.bind (hR.read Reading.forward_advance) fun keyword => ?_
  refine hR.bind hR.condition fun holds => hR.bind (hR.read Reading.forward_openBrace) fun _ => ?_
  exact hR.bind (hR.walk_note rfl) fun _ => hR.pure holds

theorem conditional (hR : Steady R) (hbranch : Keeps tokens R (.branch block)) :
    Keeps tokens R (.conditional block) := by
  rw [Walk.conditional_eq]
  refine hR.bind hR.test fun holds => ?_
  have hskip : Keeps tokens R (.read .skipBlock) := hR.read Reading.forward_skipBlock
  cases holds with
  | true => exact hR.bind hbranch fun _ => hR.alternative hskip
  | false => exact hR.bind hskip fun _ => hR.alternative hbranch

end Blocks

end Steady

namespace Kept

variable {I J : Session → Session → Prop}

theorem leads_of_framed (hI : Kept tokens I J) {m m' : Machine} (h : Leads tokens J m m') :
    Leads tokens I m m' :=
  ⟨h.1, hI.of_framed h.2⟩

/-- A step in a frame of its own. -/
theorem inFrame (hI : Kept tokens I J) {body : Walk Unit} (h : Keeps tokens I body) :
    Keeps tokens J (.inFrame body) := by
  intro m hm
  have hbody := h { m with scopes := m.scopes.push } hm
  unfold Walk.inFrame
  cases hr : body { m with scopes := m.scopes.push } with
  | ok a m' =>
    rw [hr] at hbody
    exact ⟨hbody.1, hI.frame hbody.2⟩
  | error e m' =>
    rw [hr] at hbody
    exact ⟨hbody.1, hI.frame hbody.2⟩

/-! ## Statements without blocks -/

theorem declaration (hI : Kept tokens I J) : Keeps tokens I .declaration := by
  have hI' := hI.row
  refine hI'.bind (hI'.read Reading.forward_advance) fun _ => ?_
  refine hI'.bind (hI'.read (Reading.forward_expect _ _)) fun name => ?_
  refine hI'.bind (hI'.read (Reading.forward_expect _ _)) fun _ => ?_
  refine hI'.expression_bind fun value m hm hderived => ?_
  rw [bind_of_ok (Walk.get_apply m)]
  cases hdeclare : m.scopes.declare? name.text value with
  | none => exact hI'.read (Reading.forward_fail _ _) m hm
  | some scopes =>
    have hbound : I m.toSession { m.toSession with scopes } := hI.declare hderived hdeclare
    exact ⟨hm, hI'.trans hbound (hI'.note _ _ rfl)⟩

theorem assignment (hI : Kept tokens I J) : Keeps tokens I .assignment := by
  have hI' := hI.row
  intro m hm
  unfold Walk.assignment
  rw [bind_of_ok (Walk.read_current m), bind_of_ok (Walk.get_apply m)]
  split
  · exact ⟨hm, hI'.refl _⟩
  · refine hI'.bind (hI'.read Reading.forward_advance) (fun _ => ?_) m hm
    refine hI'.bind (hI'.read (Reading.forward_expect _ _)) fun _ => ?_
    refine hI'.expression_bind fun value m' hm' hderived => ?_
    rw [bind_of_ok (Walk.get_apply m')]
    cases hupdate : m'.scopes.update? m.cursor.token.text value with
    | none => exact hI'.throw _ m' hm'
    | some scopes =>
      have hbound : I m'.toSession { m'.toSession with scopes } := hI.update hderived hupdate
      exact ⟨hm', hI'.trans hbound (hI'.note _ _ rfl)⟩

theorem printing (hI : Kept tokens I J) : Keeps tokens I .printing := by
  have hI' := hI.row
  refine hI'.bind (hI'.read Reading.forward_advance) fun _ => ?_
  refine hI'.bind (hI'.read (Reading.forward_expect _ _)) fun _ => ?_
  refine hI'.expression_bind fun value m hm hderived => ?_
  -- The closing parenthesis is read between the value and its printing; the bindings stay.
  have hforward := Reading.forward_expect .punctuation (some ")") m.cursor
  cases hr : Reading.expect .punctuation (some ")") m.cursor with
  | error e c =>
    rw [hr] at hforward
    rw [bind_of_error (Walk.read_of_error hr)]
    exact ⟨hforward.tokens_eq.trans hm, hI'.refl _⟩
  | ok token c =>
    rw [hr] at hforward
    rw [bind_of_ok (Walk.read_of_ok hr)]
    exact ⟨hforward.tokens_eq.trans hm, hI.emit hderived⟩

/-! ## Rows of statements -/

section Blocks

variable {block : Walk Unit}

theorem loop (hI : Kept tokens I J) (hblock : Keeps tokens I block) (cap : Int) :
    Keeps tokens J (.loop block cap) :=
  hI.framed.loop (fun _ hc => hI.inFrame (hI.row.bind (hI.row.moveTo hc) fun _ => hblock)) cap

theorem branch (hI : Kept tokens I J) (hblock : Keeps tokens I block) :
    Keeps tokens J (.branch block) :=
  hI.inFrame (hI.row.bind hblock fun _ => hI.row.read Reading.forward_closeBrace)

theorem conditional (hI : Kept tokens I J) (hblock : Keeps tokens I block) :
    Keeps tokens J (.conditional block) :=
  hI.framed.conditional (hI.branch hblock)

theorem statementWith (hI : Kept tokens I J) (hblock : Keeps tokens I block) (cap : Int) :
    Keeps tokens I (.statementWith block cap) := by
  intro m hm
  have h := Walk.dispatch block cap m
  generalize Walk.statementWith block cap m = r at h
  cases h with
  | declaration => exact hI.declaration m hm
  | printing => exact hI.printing m hm
  | loop =>
    exact (hI.loop hblock cap m hm).mono (fun _ _ => hI.leads_of_framed)
      (fun _ _ => hI.leads_of_framed)
  | conditional =>
    exact (hI.conditional hblock m hm).mono (fun _ _ => hI.leads_of_framed)
      (fun _ _ => hI.leads_of_framed)
  | unhandled => exact ⟨hm, hI.row.refl _⟩
  | assignment => exact hI.assignment m hm
  | stray => exact ⟨hm, hI.row.note _ _ rfl⟩

end Blocks

theorem untilBrace (hI : Kept tokens I J) {statement : Walk Unit} (h : Keeps tokens I statement)
    (bound : List Token) : Keeps tokens I (.untilBrace statement bound) := by
  have hI := hI.row
  induction bound with
  | nil =>
    refine hI.bind (hI.read Reading.forward_current) fun _ => ?_
    exact hI.read (Reading.forward_fail _ _)
  | cons _ bound ih =>
    refine hI.bind (hI.read Reading.forward_current) fun token => ?_
    split
    · exact hI.pure ()
    · split
      · exact hI.read (Reading.forward_fail _ _)
      · exact hI.bind h fun _ => ih

theorem untilEnd (hI : Kept tokens I J) {statement : Walk Unit} (h : Keeps tokens I statement)
    (bound : List Token) : Keeps tokens I (.untilEnd statement bound) := by
  have hI := hI.row
  induction bound with
  | nil => exact hI.pure ()
  | cons _ bound ih =>
    intro m hm
    rw [Walk.untilEnd, bind_of_ok (Walk.get_apply m)]
    split
    · exact ⟨hm, hI.refl _⟩
    · exact hI.bind h (fun _ => ih) m hm

/-- Blocks at every depth keep the relation. -/
theorem block (hI : Kept tokens I J) (cap : Int) (nesting : Nat) :
    Keeps tokens I (.block cap nesting) := by
  induction nesting with
  | zero =>
    refine hI.row.bind (hI.row.read Reading.forward_current) fun _ => ?_
    exact hI.row.read (Reading.forward_fail _ _)
  | succ nesting ih => exact fun m hm => hI.untilBrace (hI.statementWith ih cap) _ m hm

/-- A whole script keeps the relation. -/
theorem statements (hI : Kept tokens I J) (limits : Limits) :
    Keeps tokens I (.statements limits) :=
  fun m hm => hI.untilEnd (hI.statementWith (hI.block _ _) _) _ m hm

end Kept

/-! ## The number of frames -/

/-- Whatever is read off the bindings is steady. -/
theorem steady_of_scopes (f : Scopes → α) : Steady fun s t => f t.scopes = f s.scopes where
  refl _ := rfl
  trans hst htu := htu.trans hst
  note _ _ _ := rfl

/-- The number of frames is kept. -/
theorem kept_depth (tokens : List Token) :
    Kept tokens (fun s t => t.scopes.depth = s.scopes.depth)
      (fun s t => t.scopes.depth = s.scopes.depth) where
  row := steady_of_scopes Scopes.depth
  framed := steady_of_scopes Scopes.depth
  of_framed h := h
  emit _ := rfl
  declare _ h := Scopes.depth_declare? h
  update _ h := Scopes.depth_update? h
  frame := by
    intro s t h
    unfold Scopes.depth Scopes.push at h
    unfold Scopes.depth Scopes.pop
    simp only [List.length_cons, List.length_tail] at h ⊢
    omega

end TokenWalk
