import TokenWalk.Proofs.Course
import TokenWalk.Proofs.Kept

/-!
# Wider limits

A run that meets no limit is the same under wider ones, and a run that meets a limit has printed a
front of what the wider run prints.

`Outlasts` says this of two outcomes, for limits that stop a run in the given ways, and
`Walk.Extends` of two walks from every machine.  It is kept by sequencing because walks only ever
add to what is printed.  The limits come in at two places: where a loop has no round left
(`extends_lasting`) and where a block may not be entered (`extends_block`).

A loop at its limit gives a fault whose words tell the cap.  A cap too long to be written aborts the
run instead, so `Machine.EndsAtCap` covers both.
-/

namespace TokenWalk

variable {α β : Type} {limited : Stop → Prop}

/-- What has been printed before is still printed after. -/
def Session.PrintsOn (s t : Session) : Prop :=
  s.printed.toList <+: t.printed.toList

namespace Session.PrintsOn

variable {s t u : Session}

theorem refl (s : Session) : s.PrintsOn s :=
  List.prefix_refl _

theorem trans (hst : s.PrintsOn t) (htu : t.PrintsOn u) : s.PrintsOn u :=
  List.IsPrefix.trans hst htu

theorem of_printed_eq (h : t.printed = s.printed) : s.PrintsOn t :=
  ⟨[], by rw [List.append_nil, h]⟩

end Session.PrintsOn

theorem steady_printsOn : Steady Session.PrintsOn where
  refl := .refl
  trans := .trans
  note _ _ _ := .of_printed_eq rfl

/-- Walks only add to what is printed. -/
theorem kept_printsOn (tokens : List Token) :
    Kept tokens Session.PrintsOn Session.PrintsOn where
  row := steady_printsOn
  framed := steady_printsOn
  of_framed h := h
  emit _ := by
    unfold Session.PrintsOn Session.emit
    rw [Array.toList_push]
    exact List.prefix_append _ _
  declare _ _ := .of_printed_eq rfl
  update _ _ := .of_printed_eq rfl
  frame h := h

/-- A loop had no round left under the cap. -/
def Stop.AtCap (cap : Int) (stop : Stop) : Prop :=
  ∃ place, stop = .overrun place cap

/-- A block was not to be entered. -/
def Stop.TooDeep (stop : Stop) : Prop :=
  ∃ place, stop = .fault (.ofPlace place .nestingTooDeep)

/-- From the machine, the second outcome prints on.  It is the first one, or a limit stops the first
and the second prints on from there. -/
structure Outlasts (limited : Stop → Prop) (m : Machine) (r r' : EStateM.Result Stop Machine α) :
    Prop where
  appends : m.PrintsOn (final r').toSession
  agrees : r' = r ∨ ∃ stop n, r = .error stop n ∧ limited stop ∧ n.PrintsOn (final r').toSession

namespace Walk

/-- The walk only adds to what is printed. -/
def Appends (w : Walk α) : Prop :=
  ∀ m : Machine, m.PrintsOn (final (w m)).toSession

/-- The second walk does what the first does, but may go on where the first meets a limit. -/
def Extends (limited : Stop → Prop) (x y : Walk α) : Prop :=
  ∀ m, Outlasts limited m (x m) (y m)

theorem Extends.appends {x y : Walk α} (h : Extends limited x y) : Appends y :=
  fun m => (h m).appends

theorem Appends.extends {x : Walk α} (h : Appends x) : Extends limited x x :=
  fun m => ⟨h m, .inl rfl⟩

theorem Appends.bind {x : Walk α} {f : α → Walk β} (hx : Appends x) (hf : ∀ a, Appends (f a)) :
    Appends (x >>= f) := by
  intro m
  have h := hx m
  cases hr : x m with
  | ok a m' =>
    rw [hr] at h
    rw [bind_of_ok hr]
    exact h.trans (hf a m')
  | error e m' =>
    rw [hr] at h
    rw [bind_of_error hr]
    exact h

/-- A sequence prints on from where its first step ends. -/
theorem printsOn_bind {x : Walk α} {f : α → Walk β} (hf : ∀ a, Appends (f a)) (m : Machine) :
    (final (x m)).PrintsOn (final ((x >>= f) m)).toSession := by
  cases hr : x m with
  | ok a m' =>
    rw [bind_of_ok hr]
    exact hf a m'
  | error e m' =>
    rw [bind_of_error hr]
    exact .refl _

theorem Extends.bind {x y : Walk α} {f g : α → Walk β} (hxy : Extends limited x y)
    (hfg : ∀ a, Extends limited (f a) (g a)) : Extends limited (x >>= f) (y >>= g) := by
  intro m
  refine ⟨hxy.appends.bind (fun a => (hfg a).appends) m, ?_⟩
  rcases (hxy m).agrees with heq | ⟨stop, n, hx, hlimited, hprints⟩
  · cases hr : x m with
    | ok a m' =>
      rw [bind_of_ok hr, bind_of_ok (heq.trans hr)]
      exact (hfg a m').agrees
    | error e m' =>
      rw [bind_of_error hr, bind_of_error (heq.trans hr)]
      exact .inl rfl
  · -- The first run is over; the second goes on and only adds to what is printed.
    rw [bind_of_error hx]
    exact .inr ⟨stop, n, rfl, hlimited,
      hprints.trans (printsOn_bind (fun a => (hfg a).appends) m)⟩

theorem extends_get_bind {f g : Machine → Walk β} (hfg : ∀ m, Extends limited (f m) (g m)) :
    Extends limited (get >>= f) (get >>= g) :=
  fun m => hfg m m

/-- A limit that the second walk need not keep to. -/
theorem extends_throw {stop : Stop} {y : Walk α} (hlimited : limited stop) (hy : Appends y) :
    Extends limited (throw stop) y :=
  fun m => ⟨hy m, .inr ⟨stop, m, rfl, hlimited, hy m⟩⟩

theorem appends_pure (a : α) : Appends (pure a) :=
  fun _ => .refl _

theorem appends_throw (stop : Stop) : Appends (throw stop : Walk α) :=
  fun _ => .refl _

theorem appends_read (x : Reading α) : Appends (read x) := by
  intro m
  unfold read
  cases x m.cursor with
  | ok a c => exact .refl _
  | error e c => exact .refl _

theorem appends_note (entry : Entry) : Appends (note entry) :=
  fun _ => .of_printed_eq rfl

theorem appends_moveTo (c : Cursor) : Appends (moveTo c) :=
  fun _ => .refl _

theorem appends_condition : Appends condition :=
  fun m => appends_read (Reading.condition m.scopes) m

theorem appends_of_keeps {w : Walk α} (h : ∀ tokens, Keeps tokens Session.PrintsOn w) :
    Appends w := by
  intro m
  have hkeeps : Leads m.cursor.tokens _ m _ := (h m.cursor.tokens m rfl).final
  exact hkeeps.2

theorem printed_inFrame (body : Walk Unit) (m : Machine) :
    (final (inFrame body m)).printed =
      (final (body { m with scopes := m.scopes.push })).printed := by
  unfold inFrame
  cases body { m with scopes := m.scopes.push } with
  | ok a m' => rfl
  | error e m' => rfl

theorem Extends.inFrame {body body' : Walk Unit} (h : Extends limited body body') :
    Extends limited (inFrame body) (inFrame body') := by
  intro m
  obtain ⟨happends, hagrees⟩ := h { m with scopes := m.scopes.push }
  have hframe : (final (body' { m with scopes := m.scopes.push })).PrintsOn
      (final (Walk.inFrame body' m)).toSession := .of_printed_eq (printed_inFrame body' m)
  refine ⟨happends.trans hframe, ?_⟩
  rcases hagrees with heq | ⟨stop, n, hbody, hlimited, hprints⟩
  · left
    unfold Walk.inFrame
    rw [heq]
  · right
    exact ⟨stop, _, inFrame_error_iff.mpr ⟨n, hbody, rfl⟩, hlimited, hprints.trans hframe⟩

/-! ## Loops and conditionals -/

section Blocks

variable {block block' : Walk Unit} {cap cap' : Int}

theorem extends_turn (hblock : Extends limited block block') (conditionStart bodyStart : Cursor) :
    Extends limited (turn block conditionStart bodyStart)
      (turn block' conditionStart bodyStart) := by
  have hround : Extends limited (Walk.inFrame do moveTo bodyStart; block)
      (Walk.inFrame do moveTo bodyStart; block') :=
    ((appends_moveTo bodyStart).extends.bind fun _ => hblock).inFrame
  refine hround.bind fun _ => (appends_moveTo conditionStart).extends.bind fun _ => ?_
  exact appends_condition.extends

theorem appends_lasting (hblock : Appends block) (cap : Int) (m : Machine) (bodyStart : Cursor)
    (left : Nat) (holds : Bool) : Appends (lasting block cap m bodyStart left holds) := by
  have hend : ∀ left, Appends (lasting block cap m bodyStart left false) := by
    intro left
    rw [lasting_false]
    exact (appends_note _).bind fun _ => (appends_moveTo _).bind fun _ => appends_read _
  induction left generalizing holds with
  | zero =>
    cases holds with
    | false => exact hend 0
    | true =>
      rw [lasting_zero]
      exact appends_throw _
  | succ left ih =>
    cases holds with
    | false => exact hend (left + 1)
    | true =>
      rw [lasting_succ]
      exact (extends_turn hblock.extends _ _ : Extends (fun _ => False) _ _).appends.bind ih

/-- A loop with `more` rounds to spare.  The rounds made so far are the same, so the loops end with
the same note. -/
theorem extends_lasting (hblock : Extends limited block block') {more : Nat}
    (hcap : cap'.toNat = cap.toNat + more)
    (hmore : cap' = cap ∨ ∀ place, limited (.overrun place cap))
    (m : Machine) (bodyStart : Cursor) (left : Nat) (holds : Bool) :
    Extends limited (lasting block cap m bodyStart left holds)
      (lasting block' cap' m bodyStart (left + more) holds) := by
  have hend : ∀ left, Extends limited (lasting block cap m bodyStart left false)
      (lasting block' cap' m bodyStart (left + more) false) := by
    intro left
    rw [lasting_false, lasting_false, hcap, Nat.add_sub_add_right]
    refine (appends_note _).extends.bind fun _ => (appends_moveTo _).extends.bind fun _ => ?_
    exact (appends_read _).extends
  induction left generalizing holds with
  | zero =>
    cases holds with
    | false => exact hend 0
    | true =>
      have happends := appends_lasting hblock.appends cap' m bodyStart (0 + more) true
      rcases hmore with rfl | hlimited
      · obtain rfl : more = 0 := by omega
        exact happends.extends
      · rw [lasting_zero]
        exact extends_throw (hlimited _) happends
  | succ left ih =>
    cases holds with
    | false => exact hend (left + 1)
    | true =>
      rw [lasting_succ, Nat.add_right_comm, lasting_succ]
      exact (extends_turn hblock _ _).bind fun holds => ih holds

theorem appends_head : Appends head := by
  refine (appends_read _).bind fun _ => appends_condition.bind fun holds => ?_
  exact (appends_read _).bind fun _ => appends_pure holds

theorem extends_loop (hblock : Extends limited block block')
    (hcap : cap' = cap ∨ cap ≤ cap' ∧ ∀ place, limited (.overrun place cap)) :
    Extends limited (loop block cap) (loop block' cap') := by
  intro m
  rw [loop_eq, loop_eq]
  have hmore : cap'.toNat = cap.toNat + (cap'.toNat - cap.toNat) := by omega
  refine appends_head.extends.bind (fun holds => extends_get_bind fun e => ?_) m
  have hlasting := extends_lasting hblock hmore (hcap.imp id And.right) m e.cursor cap.toNat holds
  rw [← hmore] at hlasting
  exact hlasting

theorem extends_branch (hblock : Extends limited block block') :
    Extends limited (branch block) (branch block') :=
  (hblock.bind fun _ => (appends_read _).extends).inFrame

theorem extends_alternative {body body' : Walk Unit} (hbody : Extends limited body body') :
    Extends limited (alternative body) (alternative body') := by
  refine (appends_read _).extends.bind fun token => ?_
  split
  · refine (appends_read _).extends.bind fun _ => ?_
    exact (appends_read _).extends.bind fun _ => hbody
  · exact (appends_pure ()).extends

theorem appends_test : Appends test := by
  refine (appends_read _).bind fun keyword => appends_condition.bind fun holds => ?_
  exact (appends_read _).bind fun _ => (appends_note _).bind fun _ => appends_pure holds

theorem extends_conditional (hblock : Extends limited block block') :
    Extends limited (conditional block) (conditional block') := by
  rw [conditional_eq, conditional_eq]
  refine appends_test.extends.bind fun holds => ?_
  have hskip : Extends limited (read .skipBlock) (read .skipBlock) := (appends_read _).extends
  cases holds with
  | true => exact (extends_branch hblock).bind fun _ => extends_alternative hskip
  | false => exact hskip.bind fun _ => extends_alternative (extends_branch hblock)

/-! ## Statements -/

theorem extends_statementWith (hblock : Extends limited block block')
    (hcap : cap' = cap ∨ cap ≤ cap' ∧ ∀ place, limited (.overrun place cap)) :
    Extends limited (statementWith block cap) (statementWith block' cap') := by
  have hsame : ∀ {w : Walk Unit}, (∀ tokens, Keeps tokens Session.PrintsOn w) →
      Extends limited w w := fun h => (appends_of_keeps h).extends
  intro m
  have h := dispatch block cap m
  generalize statementWith block cap m = r at h
  cases h with
  | declaration hkind htext =>
    rw [statementWith_declaration hkind htext]
    exact hsame (fun tokens => (kept_printsOn tokens).declaration) m
  | printing hkind htext =>
    rw [statementWith_printing hkind htext]
    exact hsame (fun tokens => (kept_printsOn tokens).printing) m
  | loop hkind htext =>
    rw [statementWith_loop hkind htext]
    exact extends_loop hblock hcap m
  | conditional hkind htext =>
    rw [statementWith_conditional hkind htext]
    exact extends_conditional hblock m
  | unhandled hkind htext =>
    rw [statementWith_unhandled hkind htext]
    exact ⟨.refl _, .inl rfl⟩
  | assignment hkind =>
    rw [statementWith_assignment hkind]
    exact hsame (fun tokens => (kept_printsOn tokens).assignment) m
  | stray hkeyword hidentifier =>
    rw [statementWith_stray hkeyword hidentifier]
    exact ⟨.refl _, .inl rfl⟩

end Blocks

theorem extends_untilBrace {statement statement' : Walk Unit}
    (h : Extends limited statement statement') (bound : List Token) :
    Extends limited (untilBrace statement bound) (untilBrace statement' bound) := by
  induction bound with
  | nil => exact ((appends_read _).bind fun _ => appends_read _).extends
  | cons _ bound ih =>
    refine (appends_read _).extends.bind fun token => ?_
    split
    · exact (appends_pure ()).extends
    · split
      · exact (appends_read _).extends
      · exact h.bind fun _ => ih

theorem extends_untilEnd {statement statement' : Walk Unit}
    (h : Extends limited statement statement') (bound : List Token) :
    Extends limited (untilEnd statement bound) (untilEnd statement' bound) := by
  induction bound with
  | nil => exact (appends_pure ()).extends
  | cons _ bound ih =>
    refine extends_get_bind fun m => ?_
    split
    · exact (appends_pure ()).extends
    · exact h.bind fun _ => ih

/-- A block under wider limits.  The induction is on the number of blocks that may be open inside
each other under the narrower ones. -/
theorem extends_block {cap cap' : Int} {nesting nesting' : Nat}
    (hcap : cap' = cap ∨ cap ≤ cap' ∧ ∀ place, limited (.overrun place cap))
    (hnesting : nesting' = nesting ∨ nesting ≤ nesting' ∧
      ∀ place, limited (.fault (.ofPlace place .nestingTooDeep))) :
    Extends limited (block cap nesting) (block cap' nesting') := by
  have happends : Appends (block cap' nesting') :=
    appends_of_keeps fun tokens => (kept_printsOn tokens).block cap' nesting'
  induction nesting generalizing nesting' with
  | zero =>
    rcases hnesting with rfl | ⟨-, hlimited⟩
    · exact happends.extends
    · intro m
      exact extends_throw (hlimited m.cursor.token.place) happends m
  | succ nesting ih =>
    obtain ⟨nesting', rfl⟩ : ∃ k, nesting' = k + 1 := ⟨nesting' - 1, by omega⟩
    have hblock : Extends limited (block cap nesting) (block cap' nesting') := by
      refine ih ?_ ?_
      · exact hnesting.imp Nat.succ.inj (And.imp_left Nat.le_of_succ_le_succ)
      · exact appends_of_keeps fun tokens => (kept_printsOn tokens).block cap' nesting'
    refine extends_get_bind fun m => ?_
    exact extends_untilBrace (extends_statementWith hblock hcap) m.cursor.rest

theorem extends_statements {limits limits' : Limits}
    (hcap : limits'.iterations = limits.iterations ∨
      limits.iterations ≤ limits'.iterations ∧
        ∀ place, limited (.overrun place limits.iterations))
    (hnesting : limits'.nesting = limits.nesting ∨
      limits.nesting ≤ limits'.nesting ∧
        ∀ place, limited (.fault (.ofPlace place .nestingTooDeep))) :
    Extends limited (statements limits) (statements limits') := by
  refine extends_get_bind fun m => ?_
  exact extends_untilEnd (extends_statementWith (extends_block hcap hnesting) hcap) m.cursor.rest

end Walk

/-! ## Executions -/

namespace Machine

/-- An execution under wider limits is the same, or the narrower ones stop it and it prints on from
there. -/
theorem execute_of_extends {limits limits' : Limits}
    (h : Walk.Extends limited (.statements limits) (.statements limits')) (file : String)
    (m : Machine) :
    execute limits' file m = execute limits file m ∨
      ∃ stop n, execute limits file m = conclude file (.error stop n) ∧ limited stop ∧
        n.PrintsOn (final (execute limits' file m)).toSession := by
  rcases (h (m.started file)).agrees with heq | ⟨stop, n, hstop, hlimited, hprints⟩
  · left
    rw [execute_eq, execute_eq, heq]
  · right
    refine ⟨stop, n, ?_, hlimited, ?_⟩
    · rw [execute_eq, hstop]
    · rw [execute_eq]
      exact hprints.trans (.of_printed_eq (printed_conclude file _))

theorem printsOn_execute (limits : Limits) (file : String) (m : Machine) :
    m.PrintsOn (final (execute limits file m)).toSession := by
  have hself : Walk.Extends (fun _ => False) (.statements limits) (.statements limits) :=
    Walk.extends_statements (.inl rfl) (.inl rfl)
  have hstarted : (m.started file).PrintsOn _ := (hself (m.started file)).appends
  rw [execute_eq]
  exact hstarted.trans (.of_printed_eq (printed_conclude file _))

/-- With room for more blocks inside each other an execution is the same, unless it is stopped for
want of room. -/
theorem execute_of_nesting_le {nesting nesting' : Nat} (hle : nesting ≤ nesting') (cap : Int)
    (file : String) (m : Machine) :
    execute ⟨cap, nesting'⟩ file m = execute ⟨cap, nesting⟩ file m ∨
      ∃ fault n, execute ⟨cap, nesting⟩ file m = .ok (some fault) n ∧
        fault.cause.family = .nestingTooDeep := by
  have hextends : Walk.Extends Stop.TooDeep (.statements ⟨cap, nesting⟩)
      (.statements ⟨cap, nesting'⟩) :=
    Walk.extends_statements (.inl rfl) (.inr ⟨hle, fun place => ⟨place, rfl⟩⟩)
  rcases execute_of_extends hextends file m with heq | ⟨stop, n, hstop, ⟨place, rfl⟩, -⟩
  · exact .inl heq
  · exact .inr ⟨_, _, hstop, rfl⟩

/-- The execution ends with a loop at its cap: with the fault that says so, or, if the cap is too
long to be told there, with an abort. -/
inductive EndsAtCap (cap : Int) : EStateM.Result Abort Machine (Option Fault) → Prop where
  | told {fault : Fault} {n : Machine} (h : fault.cause.family = .loopLimit) :
      EndsAtCap cap (.ok (some fault) n)
  | untold {n : Machine} (h : Numeral.maxDigits < Numeral.digitCount cap) :
      EndsAtCap cap (.error (.numeral .tooLong) n)

theorem endsAtCap_conclude {cap : Int} {stop : Stop} (hstop : stop.AtCap cap) (file : String)
    (n : Machine) : EndsAtCap cap (conclude file (.error stop n)) := by
  obtain ⟨place, rfl⟩ := hstop
  rcases Nat.lt_or_ge Numeral.maxDigits (Numeral.digitCount cap) with hlong | hshort
  · rw [Stop.overrun_of_long hlong]
    exact .untold hlong
  · rw [Stop.overrun_of_short hshort]
    exact .told rfl

/-- With a higher cap on the rounds of loops, an execution that does not end with a loop at its cap
is the same: the values printed, the bindings, the cursor and the result or abort.  If it does, the
values it prints are the first ones printed under the higher cap.  A cap that can be written is told
in the fault. -/
theorem execute_of_iterations_le {cap cap' : Int} (hle : cap ≤ cap') (nesting : Nat)
    (file : String) (m : Machine) :
    (¬ EndsAtCap cap (execute ⟨cap, nesting⟩ file m) →
      execute ⟨cap', nesting⟩ file m = execute ⟨cap, nesting⟩ file m) ∧
    (EndsAtCap cap (execute ⟨cap, nesting⟩ file m) →
      ∃ outputs more,
        (final (execute ⟨cap, nesting⟩ file m)).printed.toList = m.printed.toList ++ outputs ∧
        (final (execute ⟨cap', nesting⟩ file m)).printed.toList =
          m.printed.toList ++ (outputs ++ more)) ∧
    (Numeral.digitCount cap ≤ Numeral.maxDigits →
      (EndsAtCap cap (execute ⟨cap, nesting⟩ file m) ↔
        ∃ fault n, execute ⟨cap, nesting⟩ file m = .ok (some fault) n ∧
          fault.cause.family = .loopLimit)) := by
  have hextends : Walk.Extends (Stop.AtCap cap) (.statements ⟨cap, nesting⟩)
      (.statements ⟨cap', nesting⟩) :=
    Walk.extends_statements (.inr ⟨hle, fun place => ⟨place, rfl⟩⟩) (.inl rfl)
  have hexecute := execute_of_extends hextends file m
  refine ⟨fun hfree => ?_, fun _ => ?_, fun hshort => ?_⟩
  · rcases hexecute with heq | ⟨stop, n, hstop, hcap, -⟩
    · exact heq
    · rw [hstop] at hfree
      exact absurd (endsAtCap_conclude hcap file n) hfree
  · have hsecond : (final (execute ⟨cap, nesting⟩ file m)).PrintsOn
        (final (execute ⟨cap', nesting⟩ file m)).toSession := by
      rcases hexecute with heq | ⟨stop, n, hstop, -, hprints⟩
      · rw [heq]
        exact .refl _
      · rw [hstop]
        exact Session.PrintsOn.trans (.of_printed_eq (printed_conclude file _).symm) hprints
    obtain ⟨outputs, houtputs⟩ := printsOn_execute ⟨cap, nesting⟩ file m
    obtain ⟨more, hmore⟩ := hsecond
    refine ⟨outputs, more, houtputs.symm, ?_⟩
    rw [← List.append_assoc, houtputs, hmore]
  · generalize execute ⟨cap, nesting⟩ file m = r
    constructor
    · intro hends
      cases hends with
      | told hfamily => exact ⟨_, _, rfl, hfamily⟩
      | untold hlong => exact absurd hlong (Nat.not_lt.mpr hshort)
    · rintro ⟨fault, n, rfl, hfamily⟩
      exact .told hfamily

/-- The tokens of `while "a" == "a" { print("b") }`. -/
def endless : List Token :=
  [⟨.keyword, "while", ⟨1, 1⟩⟩, ⟨.string, "a", ⟨1, 7⟩⟩, ⟨.operator, "==", ⟨1, 11⟩⟩,
    ⟨.string, "a", ⟨1, 14⟩⟩, ⟨.punctuation, "\x7b", ⟨1, 18⟩⟩, ⟨.keyword, "print", ⟨1, 20⟩⟩,
    ⟨.punctuation, "(", ⟨1, 25⟩⟩, ⟨.string, "b", ⟨1, 26⟩⟩, ⟨.punctuation, ")", ⟨1, 29⟩⟩,
    ⟨.punctuation, "\x7d", ⟨1, 31⟩⟩, .endAt ⟨1, 32⟩]

/-- One round and three rounds of a loop without end. -/
theorem execute_endless_of_iterations_le :
    (1 : Int) ≤ 3 ∧ EndsAtCap 1 (execute ⟨1, 1⟩ "f" (Session.load {} endless)) ∧
      ∃ outputs more,
        (final (execute ⟨1, 1⟩ "f" (Session.load {} endless))).printed.toList = outputs ∧
        (final (execute ⟨3, 1⟩ "f" (Session.load {} endless))).printed.toList =
          outputs ++ more := by
  have hlimit : Meets (fun fault? _ => fault?.map (·.cause.family) = some .loopLimit)
      (fun _ _ => False) (execute ⟨1, 1⟩ "f" (Session.load {} endless)) := by
    decide +kernel
  have hends : EndsAtCap 1 (execute ⟨1, 1⟩ "f" (Session.load {} endless)) := by
    revert hlimit
    cases execute ⟨1, 1⟩ "f" (Session.load {} endless) with
    | ok fault? n =>
      intro hlimit
      obtain ⟨fault, rfl, hfamily⟩ := Option.map_eq_some_iff.mp hlimit
      exact .told hfamily
    | error abort n => exact False.elim
  have hmono := execute_of_iterations_le (by decide : (1 : Int) ≤ 3) 1 "f" (Session.load {} endless)
  obtain ⟨outputs, more, houtputs, hmore⟩ := hmono.2.1 hends
  exact ⟨by decide, hends, outputs, more, houtputs, hmore⟩

/-- Under a cap too long to be written, a loop without end is past its cap at once and aborts; under
the cap of no rounds it ends with the fault. -/
theorem execute_endless_aborts :
    Int.negSucc (Nat.pow 10 Numeral.maxDigits) ≤ 0 ∧
      (∃ n, execute ⟨.negSucc (Nat.pow 10 Numeral.maxDigits), 1⟩ "f" (Session.load {} endless) =
        .error (.numeral .tooLong) n) ∧
      ∃ fault n, execute ⟨0, 1⟩ "f" (Session.load {} endless) = .ok (some fault) n ∧
        fault.cause.family = .loopLimit := by
  have hpast : ∀ k, ∃ n, Walk.statements ⟨.negSucc k, 1⟩ ((Session.load {} endless).started "f") =
      .error (.overrun ⟨1, 1⟩ (.negSucc k)) n := fun k => ⟨_, rfl⟩
  obtain ⟨n, hn⟩ := hpast (Nat.pow 10 Numeral.maxDigits)
  rw [Stop.overrun_of_long (Numeral.lt_digitCount_negSucc (by decide))] at hn
  exact ⟨Int.negSucc_le_zero _, ⟨_, execute_of_abort hn⟩, _, _, rfl, rfl⟩

end Machine

end TokenWalk
