import TokenWalk.Proofs.Course
import TokenWalk.Proofs.Kept

/-!
# What sessions hold

What every change of a walk keeps, holds all along the course of a run: `Invariant` asks for the
changes one by one, and `Invariant.reaches` gives the property at every spot.

`Session.Holds V W` is such a property: all bound values are among `V` and all printed ones among
`W`.  Scripts make values in two ways only, from literals and by wrapped arithmetic, and everything
else is looked up (`invariant_holds`).
-/

namespace TokenWalk

open Walk (Keeps Leads InLoop Opens Asks)

variable {tokens : List Token} {cap : Int} {nesting : Nat} {m e o q : Machine}

/-! ## Relations along the course -/

namespace Kept

variable {I J : Session → Session → Prop} {bodyStart : Cursor}

theorem head (hI : Kept tokens I J) : Keeps tokens J Walk.head := by
  have hJ := hI.framed
  refine hJ.bind (hJ.read Reading.forward_advance) fun _ => hJ.bind hJ.condition fun holds => ?_
  exact hJ.bind (hJ.read Reading.forward_openBrace) fun _ => hJ.pure holds

/-- One round of a loop, in its frame. -/
theorem round (hI : Kept tokens I J) (cap : Int) (nesting : Nat)
    (hstart : bodyStart.tokens = tokens) :
    Keeps tokens J (.inFrame do Walk.moveTo bodyStart; Walk.block cap nesting) :=
  hI.inFrame (hI.row.bind (hI.row.moveTo hstart) fun _ => hI.block cap nesting)

/-- The relation between a loop and where it has come to. -/
theorem inLoop (hI : Kept tokens I J) {left : Nat} {holds : Bool} (hm : m.cursor.tokens = tokens)
    (h : InLoop (.block cap nesting) cap m bodyStart left holds e) :
    Leads tokens J m e ∧ bodyStart.tokens = tokens := by
  have hJ := hI.framed
  induction h with
  | first hhead hstart =>
    have hleads := (hI.head m hm).of_ok hhead
    exact ⟨hleads, hstart ▸ hleads.1⟩
  | next _ hturn ih =>
    obtain ⟨hleads, hstart⟩ := ih
    have hkeeps : Keeps tokens J (Walk.turn (.block cap nesting) m.cursor.next bodyStart) := by
      refine hJ.bind (hI.round cap nesting hstart) fun _ => ?_
      exact hJ.bind (hJ.moveTo hm) fun _ => hJ.condition
    exact ⟨hJ.leads_trans hleads ((hkeeps _ hleads.1).of_ok hturn), hstart⟩

/-- The relation between a statement and where it evaluates its condition. -/
theorem asks (hI : Kept tokens I J) (hm : m.cursor.tokens = tokens)
    (h : Asks (.block cap nesting) cap m q) : Leads tokens J m q := by
  cases h with
  | first => exact ⟨hm, hI.framed.refl _⟩
  | again _ _ hin hround =>
    obtain ⟨hleads, hstart⟩ := hI.inLoop hm hin
    have hround := (hI.round cap nesting hstart _ hleads.1).of_ok hround
    exact ⟨hm, hI.framed.trans hleads.2 hround.2⟩

/-- The relation between a statement and the block it runs, but for the frame of the block. -/
theorem opens (hI : Kept tokens I J) (hm : m.cursor.tokens = tokens)
    (h : Opens (.block cap nesting) cap m o) :
    o.cursor.tokens = tokens ∧
      ∃ s, J m.toSession s ∧ o.toSession = { s with scopes := s.scopes.push } := by
  have hJ := hI.framed
  cases h with
  | round _ _ hin =>
    obtain ⟨hleads, hstart⟩ := hI.inLoop hm hin
    exact ⟨hstart, _, hleads.2, rfl⟩
  | branch _ _ hchoice =>
    cases hchoice with
    | consequent htest =>
      have hleads := (hJ.test m hm).of_ok htest
      exact ⟨hleads.1, _, hleads.2, rfl⟩
    | alternative htest hskip =>
      have hleads := (hJ.test m hm).of_ok htest
      have hskipped := (hJ.read Reading.forward_skipBlock _ hleads.1).of_ok hskip
      exact ⟨hskipped.1, _, hJ.trans hleads.2 hskipped.2, rfl⟩

/-- The relation between a session and the end of the statements of a fragment run in it. -/
theorem outcome (hI : Kept tokens I J) (limits : Limits) (file : String) (session : Session) :
    I session (final ((session.start limits tokens file).outcome limits.iterations)).toSession := by
  have hkeeps : Meets _ _ ((session.start limits tokens file).outcome limits.iterations) :=
    hI.statements limits ((session.load tokens).started file) rfl
  have hleads := Meets.final hkeeps
  exact hI.row.trans (hI.row.note session _ rfl) hleads.2

end Kept

/-! ## Invariants -/

/-- A property of sessions that the changes of a walk over the tokens keep. -/
structure Invariant (tokens : List Token) (P : Session → Prop) : Prop where
  note : ∀ {s : Session} (entry : Entry), P s → P { s with journal := s.journal.push entry }
  emit : ∀ {s : Session} {value : Value}, P s → Derived tokens s.scopes value → P (s.emit value)
  declare : ∀ {s : Session} {name : String} {value : Value} {scopes : Scopes}, P s →
    Derived tokens s.scopes value → s.scopes.declare? name value = some scopes →
      P { s with scopes }
  update : ∀ {s : Session} {name : String} {value : Value} {scopes : Scopes}, P s →
    Derived tokens s.scopes value → s.scopes.update? name value = some scopes →
      P { s with scopes }
  push : ∀ {s : Session}, P s → P { s with scopes := s.scopes.push }
  pop : ∀ {s : Session}, P s → P { s with scopes := s.scopes.pop }

namespace Invariant

variable {P : Session → Prop} {s t : Spot}

theorem steady (h : Invariant tokens P) : Steady fun s t => P s → P t where
  refl _ hs := hs
  trans hst htu hs := htu (hst hs)
  note _ entry _ hs := h.note entry hs

theorem kept (h : Invariant tokens P) :
    Kept tokens (fun s t => P s → P t) (fun s t => P s → P t) where
  row := h.steady
  framed := h.steady
  of_framed hst := hst
  emit hderived hs := h.emit hs hderived
  declare hderived hdeclare hs := h.declare hs hderived hdeclare
  update hderived hupdate hs := h.update hs hderived hupdate
  frame hst hs := h.pop (hst (h.push hs))

/-- The spot is over the tokens, and its session has the property. -/
def At (tokens : List Token) (P : Session → Prop) (s : Spot) : Prop :=
  s.machine.cursor.tokens = tokens ∧ P s.machine.toSession

theorem next (h : Invariant tokens P) (hs : At tokens P s) (hnext : Spot.Next cap s t) :
    At tokens P t := by
  cases hnext with
  | @after _ nesting _ _ _ hstatement =>
    have hkeeps := h.kept.statementWith (h.kept.block cap nesting) cap
    have hleads := (hkeeps _ hs.1).of_ok hstatement
    exact ⟨hleads.1, hleads.2 hs.2⟩
  | into _ ho =>
    obtain ⟨htokens, s', hs', hpush⟩ := h.kept.opens hs.1 ho
    refine ⟨htokens, ?_⟩
    show P _
    rw [hpush]
    exact h.push (hs' hs.2)

/-- An invariant holds at every spot on the course of a run. -/
theorem reaches (h : Invariant tokens P) (hs : At tokens P s) (hreaches : Spot.Reaches cap s t) :
    At tokens P t := by
  induction hreaches with
  | refl => exact hs
  | tail _ hnext ih => exact h.next ih hnext

/-- What a session has holds all along the run of a fragment in it. -/
theorem reaches_start {limits : Limits} {file : String} {session : Session}
    (h : Invariant tokens P) (hsession : P session)
    (hreaches : Spot.Reaches cap (session.start limits tokens file) t) : At tokens P t :=
  h.reaches ⟨rfl, h.note _ hsession⟩ hreaches

end Invariant

/-! ## Values -/

/-- All bound values are among `V`, and all printed ones among `W`. -/
structure Session.Holds (V W : Value → Prop) (s : Session) : Prop where
  bound : ∀ frame ∈ s.scopes.frames, ∀ binding ∈ frame, V binding.2
  printed : ∀ value ∈ s.printed, W value

/-- The value of a literal among the tokens. -/
def Literal (tokens : List Token) (value : Value) : Prop :=
  ∃ t ∈ tokens, t.kind ≠ .identifier ∧ t.value? {} = some (.ok value)

theorem Frame.mem_of_get? {frame : Frame} {name : String} {value : Value}
    (h : frame.get? name = some value) : (name, value) ∈ frame := by
  induction frame with
  | nil => cases h
  | cons binding frame ih =>
    rw [Frame.get?_cons] at h
    split at h
    next hname =>
      obtain ⟨other, value'⟩ := binding
      cases h
      subst hname
      exact List.mem_cons_self
    next => exact List.mem_cons_of_mem _ (ih h)

namespace Scopes

variable {s s' : Scopes} {name : String} {value : Value} {V : Value → Prop}

theorem exists_mem_of_lookup (h : s.lookup name = some value) :
    ∃ frame ∈ s.frames, (name, value) ∈ frame := by
  obtain ⟨frame, hframe, hget⟩ := List.exists_of_findSome?_eq_some h
  exact ⟨frame, hframe, Frame.mem_of_get? hget⟩

/-- The bindings after a declaration are the new one and those before. -/
theorem mem_of_declare? (h : s.declare? name value = some s') {frame : Frame}
    (hframe : frame ∈ s'.frames) {binding : String × Value} (hbinding : binding ∈ frame) :
    binding.2 = value ∨ ∃ frame ∈ s.frames, binding ∈ frame := by
  obtain ⟨-, top, below, hframes, hframes'⟩ := declare?_eq_some h
  rw [hframes'] at hframe
  rw [hframes]
  obtain rfl | hframe := List.mem_cons.mp hframe
  · obtain rfl | hbinding := List.mem_cons.mp hbinding
    · exact .inl rfl
    · exact .inr ⟨top, List.mem_cons_self, hbinding⟩
  · exact .inr ⟨frame, List.mem_cons_of_mem _ hframe, hbinding⟩

theorem mem_of_updateFirst {frames : List Frame} {frame : Frame}
    (hframe : frame ∈ updateFirst name value frames) {binding : String × Value}
    (hbinding : binding ∈ frame) :
    binding.2 = value ∨ ∃ frame ∈ frames, binding ∈ frame := by
  induction frames with
  | nil => cases hframe
  | cons first frames ih =>
    unfold updateFirst at hframe
    split at hframe
    · obtain rfl | hframe := List.mem_cons.mp hframe
      · obtain ⟨old, hold, rfl⟩ := List.mem_map.mp hbinding
        split
        · exact .inl rfl
        · exact .inr ⟨first, List.mem_cons_self, hold⟩
      · exact .inr ⟨frame, List.mem_cons_of_mem _ hframe, hbinding⟩
    · obtain rfl | hframe := List.mem_cons.mp hframe
      · exact .inr ⟨frame, List.mem_cons_self, hbinding⟩
      · obtain hvalue | ⟨frame', hframe', hbinding'⟩ := ih hframe
        · exact .inl hvalue
        · exact .inr ⟨frame', List.mem_cons_of_mem _ hframe', hbinding'⟩

/-- The bindings after an update are the new one and those before. -/
theorem mem_of_update? (h : s.update? name value = some s') {frame : Frame}
    (hframe : frame ∈ s'.frames) {binding : String × Value} (hbinding : binding ∈ frame) :
    binding.2 = value ∨ ∃ frame ∈ s.frames, binding ∈ frame := by
  rw [(update?_eq_some h).2] at hframe
  exact mem_of_updateFirst hframe hbinding

end Scopes

section Holds

variable {V W : Value → Prop} {s : Session}

theorem Session.Holds.of_derived {value : Value} (h : s.Holds V W)
    (hwrap : ∀ n, V (.int (wrap n))) (hliteral : ∀ v, Literal tokens v → V v)
    (hderived : Derived tokens s.scopes value) : V value := by
  cases hderived with
  | computed n => exact hwrap n
  | @term t _ ht hvalue =>
    by_cases hkind : t.kind = .identifier
    · simp only [Token.value?, hkind, Option.some.injEq] at hvalue
      cases hlookup : s.scopes.lookup t.text with
      | none =>
        rw [hlookup] at hvalue
        cases hvalue
      | some v =>
        rw [hlookup] at hvalue
        cases hvalue
        obtain ⟨frame, hframe, hmem⟩ := Scopes.exists_mem_of_lookup hlookup
        exact h.bound frame hframe _ hmem
    · -- A literal has the same value whatever is bound.
      have hsame : t.value? {} = t.value? s.scopes := by
        cases hk : t.kind with
        | identifier => exact absurd hk hkind
        | integer | float | string | keyword | operator | punctuation | endOfInput =>
          simp only [Token.value?, hk]
      exact hliteral value ⟨t, ht, hkind, hsame.trans hvalue⟩

/-- If wrapped integers and literals are among `V`, what is bound and printed is so throughout. -/
theorem invariant_holds (hwrap : ∀ n, V (.int (wrap n))) (hliteral : ∀ v, Literal tokens v → V v)
    (hVW : ∀ v, V v → W v) : Invariant tokens (Session.Holds V W) where
  note _ hs := ⟨hs.bound, hs.printed⟩
  emit hs hderived := by
    refine ⟨hs.bound, fun value hvalue => ?_⟩
    obtain hold | rfl := Array.mem_push.mp hvalue
    · exact hs.printed value hold
    · exact hVW _ (hs.of_derived hwrap hliteral hderived)
  declare hs hderived hdeclare := by
    refine ⟨fun frame hframe binding hbinding => ?_, hs.printed⟩
    obtain hvalue | ⟨frame', hframe', hold⟩ := Scopes.mem_of_declare? hdeclare hframe hbinding
    · exact hvalue ▸ hs.of_derived hwrap hliteral hderived
    · exact hs.bound frame' hframe' binding hold
  update hs hderived hupdate := by
    refine ⟨fun frame hframe binding hbinding => ?_, hs.printed⟩
    obtain hvalue | ⟨frame', hframe', hold⟩ := Scopes.mem_of_update? hupdate hframe hbinding
    · exact hvalue ▸ hs.of_derived hwrap hliteral hderived
    · exact hs.bound frame' hframe' binding hold
  push hs := by
    refine ⟨fun frame hframe binding hbinding => ?_, hs.printed⟩
    obtain rfl | hframe := List.mem_cons.mp hframe
    · cases hbinding
    · exact hs.bound frame hframe binding hbinding
  pop hs := by
    refine ⟨fun frame hframe binding hbinding => ?_, hs.printed⟩
    refine hs.bound frame ?_ binding hbinding
    rcases List.mem_append.mp hframe with hinner | hglobal
    · exact List.mem_append_left _ (List.mem_of_mem_tail hinner)
    · exact List.mem_append_right _ hglobal

end Holds

end TokenWalk
