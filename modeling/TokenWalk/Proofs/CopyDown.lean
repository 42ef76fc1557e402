import Mathlib.Logic.Function.Basic
import TokenWalk.Fault
import TokenWalk.Proofs.Frames

/-!
# Scopes as copied frames

The scopes never copy a binding.  They behave like a simpler stack that does: `Copies`, in which a
new frame starts as a copy of the frame below it and everything is read from the top frame alone.

There are three groups of lemmas.

* Looking a name up in a list of frames (`lookupIn`) after each kind of change.
* The invariant `Apart`: no name is bound in two frames.  Every request keeps it (`apart_step`).
* The abstraction `copyDown`, which gives each frame all the bindings of the frames below it.  With
  the invariant, a request does the same to the scopes and to their copies (`step_copyDown`).
-/

namespace TokenWalk

/-- What the names of a frame are bound to. -/
abbrev Bindings := String → Option Value

/-! ## Requests -/

/-- The requests that a host can make of a stack of frames. -/
inductive Request where
  | push
  | pop
  | reset
  | contains (name : String)
  | lookup (name : String)
  | declare (name : String) (value : Value) (line column : Option Int)
  | update (name : String) (value : Value)

/-- The replies to requests. -/
inductive Reply where
  | done
  | truth (b : Bool)
  | value (v : Value)
  /-- The name is not bound. -/
  | missing (name : String)
  /-- The name is bound already. -/
  | refused (fault : Fault)

/-- The reply tells of a failure. -/
def Reply.isFailure : Reply → Bool
  | .missing _ => true
  | .refused _ => true
  | _ => false

/-- The reply to a lookup. -/
def Reply.ofLookup (name : String) : Option Value → Reply
  | some v => .value v
  | none => .missing name

/-- The refusal of a declaration at a place. -/
def Reply.redeclared (name : String) (line column : Option Int) : Reply :=
  .refused { cause := .redeclared name, line, column }

/-- What a host sees after a request. -/
structure ScopeView where
  reply : Reply
  depth : Nat
  globals : Bindings
  current : Bindings

namespace Scopes

/-- A request to the scopes. -/
def step (s : Scopes) : Request → Reply × Scopes
  | .push => (.done, s.push)
  | .pop => (.done, s.pop)
  | .reset => (.done, s.reset)
  | .contains name => (.truth (s.contains name), s)
  | .lookup name => (.ofLookup name (s.lookup name), s)
  | .declare name value line column =>
      match s.declare? name value with
      | some s' => (.done, s')
      | none => (.redeclared name line column, s)
  | .update name value =>
      match s.update? name value with
      | some s' => (.done, s')
      | none => (.missing name, s)

/-- The scopes after a row of requests. -/
def after (s : Scopes) (requests : List Request) : Scopes :=
  requests.foldl (fun s request => (s.step request).2) s

/-- What a host sees of a row of requests. -/
def views (s : Scopes) : List Request → List ScopeView
  | [] => []
  | request :: requests =>
      let (reply, s') := s.step request
      ⟨reply, s'.depth, s'.globals.get?, s'.visible.get?⟩ :: s'.views requests

end Scopes

/-! ## The copying stack -/

/-- A stack of frames in which every frame holds all that is visible from it. -/
structure Copies where
  top : Bindings
  below : List Bindings

namespace Copies

/-- The number of frames. -/
def depth (c : Copies) : Nat :=
  c.below.length + 1

/-- The lowest frame. -/
def globals (c : Copies) : Bindings :=
  (c.top :: c.below).getLast (List.cons_ne_nil _ _)

/-- Writes into a frame that has the name. -/
def write (name : String) (value : Value) (frame : Bindings) : Bindings :=
  if (frame name).isSome then Function.update frame name (some value) else frame

/-- A request to the copying stack: a new frame is a copy of the top frame, a declaration goes into
the top frame only, and an update into every frame that has the name. -/
def step (c : Copies) : Request → Reply × Copies
  | .push => (.done, ⟨c.top, c.top :: c.below⟩)
  | .pop =>
      match c.below with
      | [] => (.done, c)
      | frame :: below => (.done, ⟨frame, below⟩)
  | .reset => (.done, ⟨c.globals, []⟩)
  | .contains name => (.truth (c.top name).isSome, c)
  | .lookup name => (.ofLookup name (c.top name), c)
  | .declare name value line column =>
      if (c.top name).isSome then (.redeclared name line column, c)
      else (.done, ⟨Function.update c.top name (some value), c.below⟩)
  | .update name value =>
      if (c.top name).isSome then
        (.done, ⟨write name value c.top, c.below.map (write name value)⟩)
      else (.missing name, c)

/-- The stack after a row of requests. -/
def after (c : Copies) (requests : List Request) : Copies :=
  requests.foldl (fun c request => (c.step request).2) c

/-- What a host sees of a row of requests. -/
def views (c : Copies) : List Request → List ScopeView
  | [] => []
  | request :: requests =>
      let (reply, c') := c.step request
      ⟨reply, c'.depth, c'.globals, c'.top⟩ :: c'.views requests

end Copies

/-! ## Looking up -/

/-- The value of a name in the first of the frames that bind it. -/
def lookupIn (frames : List Frame) : Bindings :=
  fun name => frames.findSome? (·.get? name)

theorem lookupIn_cons (frame : Frame) (frames : List Frame) (name : String) :
    lookupIn (frame :: frames) name = (frame.get? name).or (lookupIn frames name) := by
  unfold lookupIn
  rw [List.findSome?_cons]
  cases frame.get? name with
  | none => rfl
  | some value => rfl

@[simp] theorem lookupIn_singleton (frame : Frame) : lookupIn [frame] = frame.get? := by
  funext name
  rw [lookupIn_cons]
  exact Option.or_none

/-- A name is found exactly if some frame has it. -/
theorem isSome_lookupIn (frames : List Frame) (name : String) :
    (lookupIn frames name).isSome = frames.any (·.has name) := by
  unfold lookupIn
  rw [List.isSome_findSome?]
  rfl

theorem lookupIn_eq_none {frames : List Frame} {name : String}
    (h : ∀ frame ∈ frames, frame.has name = false) : lookupIn frames name = none := by
  have hnone : (lookupIn frames name).isSome = false := by
    rw [isSome_lookupIn, List.any_eq_false]
    intro frame hframe
    simp [h frame hframe]
  exact Option.isSome_eq_false_iff.mp hnone |> Option.isNone_iff_eq_none.mp

/-- A binding added to the first frame. -/
theorem lookupIn_insert (name : String) (value : Value) (frame : Frame) (frames : List Frame) :
    lookupIn (((name, value) :: frame) :: frames) =
      Function.update (lookupIn (frame :: frames)) name (some value) := by
  funext other
  rw [lookupIn_cons, Frame.get?_cons]
  by_cases hother : other = name
  · simp [hother]
  · simp [hother, lookupIn_cons]

/-- A frame that has the name gets another value for it. -/
theorem lookupIn_set {name : String} {frame : Frame} (h : frame.has name = true) (value : Value)
    (frames : List Frame) :
    lookupIn (Frame.set frame name value :: frames) =
      Copies.write name value (lookupIn (frame :: frames)) := by
  have hsome : (lookupIn (frame :: frames) name).isSome = true := by
    rw [isSome_lookupIn, List.any_cons, h, Bool.true_or]
  obtain ⟨old, hold⟩ := Option.isSome_iff_exists.mp h
  funext other
  unfold Copies.write
  rw [if_pos hsome, lookupIn_cons, Frame.get?_set]
  by_cases hother : other = name
  · simp [hother, hold]
  · simp [hother, lookupIn_cons]

/-- Writing into the frame that owns the name is writing into what is visible. -/
theorem lookupIn_updateFirst (name : String) (value : Value) (frames : List Frame) :
    lookupIn (Scopes.updateFirst name value frames) =
      Copies.write name value (lookupIn frames) := by
  induction frames with
  | nil => rfl
  | cons frame frames ih =>
    unfold Scopes.updateFirst
    by_cases hhas : frame.has name
    · rw [if_pos hhas, lookupIn_set hhas]
    · have hget : frame.get? name = none := by
        simpa [Frame.has] using hhas
      have hname : lookupIn (frame :: frames) name = lookupIn frames name := by
        rw [lookupIn_cons, hget, Option.none_or]
      rw [if_neg hhas]
      funext other
      rw [lookupIn_cons, ih]
      unfold Copies.write
      rw [hname]
      by_cases hbound : (lookupIn frames name).isSome
      · rw [if_pos hbound, if_pos hbound]
        by_cases hother : other = name
        · simp [hother, hget]
        · simp [hother, lookupIn_cons]
      · rw [if_neg hbound, if_neg hbound, lookupIn_cons]

theorem get?_flatten (frames : List Frame) (name : String) :
    Frame.get? frames.flatten name = lookupIn frames name := by
  induction frames with
  | nil => rfl
  | cons frame frames ih => rw [List.flatten_cons, Frame.get?_append, ih, lookupIn_cons]

/-- Bindings that are collected unless their name has been seen: the first one of a name counts. -/
theorem get?_foldl_unseen (bindings : List (String × Value)) (seen : Frame) (name : String) :
    Frame.get? (bindings.foldl (fun seen binding =>
        if seen.has binding.1 then seen else binding :: seen) seen) name =
      (seen.get? name).or (Frame.get? bindings name) := by
  induction bindings generalizing seen with
  | nil => exact Option.or_none.symm
  | cons binding bindings ih =>
    rw [List.foldl_cons, ih]
    by_cases hseen : seen.has binding.1
    · rw [if_pos hseen, Frame.get?_cons]
      by_cases hname : name = binding.1
      · obtain ⟨value, hvalue⟩ := Option.isSome_iff_exists.mp hseen
        simp [hname, hvalue]
      · simp [hname]
    · have hnone : seen.get? binding.1 = none := by
        simpa [Frame.has] using hseen
      rw [if_neg hseen, Frame.get?_cons, Frame.get?_cons]
      by_cases hname : name = binding.1
      · simp [hname, hnone]
      · simp [hname]

/-- The frame of all visible bindings has the values that are looked up. -/
theorem Scopes.get?_visible (s : Scopes) : s.visible.get? = s.lookup := by
  funext name
  unfold visible
  rw [get?_foldl_unseen, get?_flatten]
  rfl

/-! ## The invariant -/

/-- No name is bound in both frames. -/
def Frame.Apart (frame frame' : Frame) : Prop :=
  ∀ name, frame.has name = true → frame'.has name = false

namespace Scopes

/-- No name is bound in two frames. -/
def Apart (s : Scopes) : Prop :=
  s.frames.Pairwise Frame.Apart

variable {s s' : Scopes} {name : String} {value : Value}

/-- A write changes no frame's names. -/
theorem has_of_mem_updateFirst {frames : List Frame} {frame : Frame} {other : String}
    (hframe : frame ∈ updateFirst name value frames) (hhas : frame.has other = true) :
    ∃ frame' ∈ frames, frame'.has other = true := by
  induction frames with
  | nil => cases hframe
  | cons first frames ih =>
    unfold updateFirst at hframe
    by_cases hfirst : first.has name
    · rw [if_pos hfirst] at hframe
      rcases List.mem_cons.mp hframe with rfl | hmem
      · rw [Frame.has_set] at hhas
        exact ⟨first, List.mem_cons_self, hhas⟩
      · exact ⟨frame, List.mem_cons_of_mem _ hmem, hhas⟩
    · rw [if_neg hfirst] at hframe
      rcases List.mem_cons.mp hframe with rfl | hmem
      · exact ⟨frame, List.mem_cons_self, hhas⟩
      · obtain ⟨frame', hframe', hhas'⟩ := ih hmem
        exact ⟨frame', List.mem_cons_of_mem _ hframe', hhas'⟩

theorem pairwise_updateFirst {frames : List Frame} (h : frames.Pairwise Frame.Apart)
    (name : String) (value : Value) :
    (updateFirst name value frames).Pairwise Frame.Apart := by
  induction frames with
  | nil => exact List.Pairwise.nil
  | cons first frames ih =>
    obtain ⟨hfirst, hrest⟩ := List.pairwise_cons.mp h
    unfold updateFirst
    by_cases hhas : first.has name
    · rw [if_pos hhas]
      refine List.pairwise_cons.mpr ⟨?_, hrest⟩
      intro frame hframe other hother
      rw [Frame.has_set] at hother
      exact hfirst frame hframe other hother
    · rw [if_neg hhas]
      refine List.pairwise_cons.mpr ⟨?_, ih hrest⟩
      intro frame hframe other hother
      cases hframe' : frame.has other with
      | false => rfl
      | true =>
        obtain ⟨frame', hmem, hhas'⟩ := has_of_mem_updateFirst hframe hframe'
        rw [hfirst frame' hmem other hother] at hhas'
        cases hhas'

theorem step_declare {line column : Option Int} (h : s.declare? name value = some s') :
    s.step (.declare name value line column) = (.done, s') := by
  simp only [step, h]

theorem step_declare_of_none {line column : Option Int} (h : s.declare? name value = none) :
    s.step (.declare name value line column) = (.redeclared name line column, s) := by
  simp only [step, h]

theorem step_update (h : s.update? name value = some s') :
    s.step (.update name value) = (.done, s') := by
  simp only [step, h]

theorem step_update_of_none (h : s.update? name value = none) :
    s.step (.update name value) = (.missing name, s) := by
  simp only [step, h]

theorem apart_pop (h : s.Apart) : s.pop.Apart := by
  unfold Apart at h ⊢
  cases hinner : s.inner with
  | nil =>
    have hpop : s.pop.frames = s.frames := by
      unfold pop frames
      rw [hinner]
      rfl
    rw [hpop]
    exact h
  | cons frame outer =>
    rw [frames_of_inner hinner] at h
    exact (List.pairwise_cons.mp h).2

/-- The name of a declaration is new to all frames. -/
theorem apart_declare (h : s.Apart) (hdeclare : s.declare? name value = some s') : s'.Apart := by
  obtain ⟨hcontains, frame, outer, hframes, hframes'⟩ := declare?_eq_some hdeclare
  unfold contains at hcontains
  unfold Apart at h ⊢
  rw [hframes, List.any_cons, Bool.or_eq_false_iff, List.any_eq_false] at hcontains
  rw [hframes] at h
  obtain ⟨hfirst, hrest⟩ := List.pairwise_cons.mp h
  rw [hframes']
  refine List.pairwise_cons.mpr ⟨?_, hrest⟩
  intro frame' hframe' other hother
  unfold Frame.has at hother
  rw [Frame.get?_cons] at hother
  by_cases hname : other = name
  · rw [hname]
    simpa using hcontains.2 frame' hframe'
  · rw [if_neg hname] at hother
    exact hfirst frame' hframe' other hother

/-- Every request keeps the frames apart. -/
theorem apart_step (h : s.Apart) (request : Request) : (s.step request).2.Apart := by
  cases request with
  | push =>
    refine List.pairwise_cons.mpr ⟨?_, h⟩
    intro frame _ name hname
    cases hname
  | pop => exact apart_pop h
  | reset => exact List.pairwise_singleton _ _
  | contains name => exact h
  | lookup name => exact h
  | declare name value line column =>
    cases hdeclare : s.declare? name value with
    | none =>
      rw [step_declare_of_none hdeclare]
      exact h
    | some s' =>
      rw [step_declare hdeclare]
      exact apart_declare h hdeclare
  | update name value =>
    cases hupdate : s.update? name value with
    | none =>
      rw [step_update_of_none hupdate]
      exact h
    | some s' =>
      rw [step_update hupdate]
      unfold Apart
      rw [(update?_eq_some hupdate).2]
      exact pairwise_updateFirst h name value

theorem apart_after (h : s.Apart) (requests : List Request) : (s.after requests).Apart := by
  induction requests generalizing s with
  | nil => exact h
  | cons request requests ih => exact ih (apart_step h request)

theorem apart_of_globals (globals : Frame) : Apart { globals } :=
  List.pairwise_singleton _ _

end Scopes

/-! ## The abstraction -/

/-- Every frame with the bindings of the frames after it. -/
def copiesOf : List Frame → List Bindings
  | [] => []
  | frame :: frames => lookupIn (frame :: frames) :: copiesOf frames

theorem length_copiesOf (frames : List Frame) : (copiesOf frames).length = frames.length := by
  induction frames with
  | nil => rfl
  | cons frame frames ih => rw [copiesOf, List.length_cons, List.length_cons, ih]

theorem getLast?_copiesOf (inner : List Frame) (globals : Frame) :
    (copiesOf (inner ++ [globals])).getLast? = some globals.get? := by
  induction inner with
  | nil => simp [copiesOf]
  | cons frame inner ih =>
    rw [List.cons_append, copiesOf, List.getLast?_cons, ih]
    rfl

/-- A write into a frame without the name changes nothing. -/
theorem map_write_copiesOf {frames : List Frame} {name : String}
    (h : ∀ frame ∈ frames, frame.has name = false) (value : Value) :
    (copiesOf frames).map (Copies.write name value) = copiesOf frames := by
  induction frames with
  | nil => rfl
  | cons frame frames ih =>
    rw [copiesOf, List.map_cons, ih fun f hf => h f (List.mem_cons_of_mem _ hf)]
    unfold Copies.write
    rw [lookupIn_eq_none h]
    rfl

/-- If the frames are apart, writing into the frame that owns a name is writing into every copy that
has it. -/
theorem copiesOf_updateFirst {frames : List Frame} (h : frames.Pairwise Frame.Apart)
    (name : String) (value : Value) :
    copiesOf (Scopes.updateFirst name value frames) =
      (copiesOf frames).map (Copies.write name value) := by
  induction frames with
  | nil => rfl
  | cons frame frames ih =>
    obtain ⟨hfirst, hrest⟩ := List.pairwise_cons.mp h
    have hhead := lookupIn_updateFirst name value (frame :: frames)
    rw [copiesOf, List.map_cons, ← hhead]
    unfold Scopes.updateFirst
    by_cases hhas : frame.has name
    · rw [if_pos hhas, copiesOf, map_write_copiesOf fun f hf => hfirst f hf name hhas]
    · rw [if_neg hhas, copiesOf, ih hrest]

namespace Scopes

/-- The copying stack that the scopes stand for. -/
def copyDown (s : Scopes) : Copies :=
  ⟨lookupIn s.frames, copiesOf s.frames.tail⟩

variable {s : Scopes}

theorem copyDown_of_frames {frame : Frame} {outer : List Frame} (h : s.frames = frame :: outer) :
    s.copyDown = ⟨lookupIn (frame :: outer), copiesOf outer⟩ := by
  unfold copyDown
  rw [h]
  rfl

theorem frames_eq_cons (s : Scopes) : ∃ frame outer, s.frames = frame :: outer := by
  unfold frames
  cases s.inner with
  | nil => exact ⟨s.globals, [], rfl⟩
  | cons frame outer => exact ⟨frame, outer ++ [s.globals], rfl⟩

/-- The frames of the copying stack are the copies of all frames. -/
theorem top_cons_below_copyDown (s : Scopes) :
    s.copyDown.top :: s.copyDown.below = copiesOf s.frames := by
  obtain ⟨frame, outer, hframes⟩ := s.frames_eq_cons
  rw [copyDown_of_frames hframes, hframes]
  rfl

theorem depth_copyDown (s : Scopes) : s.copyDown.depth = s.depth := by
  have hlength : (s.copyDown.top :: s.copyDown.below).length = s.frames.length := by
    rw [top_cons_below_copyDown, length_copiesOf]
  unfold Copies.depth depth
  unfold frames at hlength
  simp only [List.length_cons, List.length_append, List.length_nil] at hlength
  omega

theorem globals_copyDown (s : Scopes) : s.copyDown.globals = s.globals.get? := by
  have hlast : (s.copyDown.top :: s.copyDown.below).getLast? = some s.globals.get? := by
    rw [top_cons_below_copyDown]
    exact getLast?_copiesOf s.inner s.globals
  rw [List.getLast?_eq_some_getLast (List.cons_ne_nil _ _)] at hlast
  exact Option.some.inj hlast

theorem isSome_top_copyDown (s : Scopes) (name : String) :
    (s.copyDown.top name).isSome = s.contains name :=
  isSome_lookupIn s.frames name

/-- A request does to the copies what it does to the scopes, and gets the same reply. -/
theorem step_copyDown (h : s.Apart) (request : Request) :
    s.copyDown.step request = ((s.step request).1, (s.step request).2.copyDown) := by
  cases request with
  | push =>
    show (Reply.done, Copies.mk s.copyDown.top (s.copyDown.top :: s.copyDown.below)) = _
    rw [top_cons_below_copyDown]
    rfl
  | pop =>
    cases hinner : s.inner with
    | nil =>
      obtain ⟨inner, globals⟩ := s
      cases hinner
      rfl
    | cons frame outer =>
      have hbelow : s.copyDown.below = s.pop.copyDown.top :: s.pop.copyDown.below := by
        rw [copyDown_of_frames (frames_of_inner hinner), top_cons_below_copyDown]
      simp only [Copies.step, hbelow]
      rfl
  | reset =>
    show (Reply.done, Copies.mk s.copyDown.globals []) = _
    rw [globals_copyDown, ← lookupIn_singleton]
    rfl
  | contains name =>
    show (Reply.truth (s.copyDown.top name).isSome, s.copyDown) = _
    rw [isSome_top_copyDown]
    rfl
  | lookup name => rfl
  | declare name value line column =>
    cases hdeclare : s.declare? name value with
    | none =>
      have hcontains : (s.copyDown.top name).isSome = true := by
        rw [isSome_top_copyDown]
        exact declare?_eq_none.mp hdeclare
      rw [step_declare_of_none hdeclare, Copies.step, if_pos hcontains]
    | some s' =>
      obtain ⟨hcontains, frame, outer, hframes, hframes'⟩ := declare?_eq_some hdeclare
      rw [← isSome_top_copyDown] at hcontains
      rw [step_declare hdeclare, Copies.step, if_neg (by simp [hcontains]),
        copyDown_of_frames hframes, copyDown_of_frames hframes', lookupIn_insert]
  | update name value =>
    cases hupdate : s.update? name value with
    | none =>
      have hcontains : (s.copyDown.top name).isSome = false := by
        rw [isSome_top_copyDown]
        exact update?_eq_none.mp hupdate
      rw [step_update_of_none hupdate, Copies.step, if_neg (by simp [hcontains])]
    | some s' =>
      obtain ⟨hcontains, hframes'⟩ := update?_eq_some hupdate
      rw [← isSome_top_copyDown] at hcontains
      have hcopies : s'.copyDown.top :: s'.copyDown.below =
          (s.copyDown.top :: s.copyDown.below).map (Copies.write name value) := by
        rw [top_cons_below_copyDown, top_cons_below_copyDown, hframes',
          copiesOf_updateFirst h]
      rw [List.map_cons] at hcopies
      obtain ⟨htop, hbelow⟩ := List.cons.inj hcopies
      rw [step_update hupdate, Copies.step, if_pos hcontains, ← htop, ← hbelow]

/-- A host sees the same of the scopes and of their copies, whatever it asks for. -/
theorem views_copyDown (h : s.Apart) (requests : List Request) :
    s.views requests = s.copyDown.views requests := by
  induction requests generalizing s with
  | nil => rfl
  | cons request requests ih =>
    have hnext := apart_step h request
    unfold views Copies.views
    rw [step_copyDown h request]
    simp only [depth_copyDown, globals_copyDown, get?_visible, ih hnext]
    rfl

/-- A request that fails leaves the scopes as they are. -/
theorem step_of_isFailure {request : Request} (h : (s.step request).1.isFailure = true) :
    (s.step request).2 = s := by
  cases request with
  | push | pop | reset | contains => cases h
  | lookup name => rfl
  | declare name value line column =>
    cases hdeclare : s.declare? name value with
    | none => rw [step_declare_of_none hdeclare]
    | some s' =>
      rw [step_declare hdeclare] at h
      cases h
  | update name value =>
    cases hupdate : s.update? name value with
    | none => rw [step_update_of_none hupdate]
    | some s' =>
      rw [step_update hupdate] at h
      cases h

end Scopes

/-- A request that fails leaves the copies as they are. -/
theorem Copies.step_of_isFailure {c : Copies} {request : Request}
    (h : (c.step request).1.isFailure = true) : (c.step request).2 = c := by
  cases request with
  | push | reset | contains => cases h
  | pop =>
    unfold step at h
    cases hbelow : c.below with
    | nil =>
      rw [hbelow] at h
      cases h
    | cons frame below =>
      rw [hbelow] at h
      cases h
  | lookup name => rfl
  | declare name value line column =>
    by_cases hhas : (c.top name).isSome
    · rw [step, if_pos hhas]
    · rw [step, if_neg hhas] at h
      cases h
  | update name value =>
    by_cases hhas : (c.top name).isSome
    · rw [step, if_pos hhas] at h
      cases h
    · rw [step, if_neg hhas]

/-- From any global frame, every row of requests shows a host the same as the copying stack does:
the replies, the depth, the global bindings and the visible ones.  No name is ever bound in two
frames, and a request that fails changes neither stack. -/
theorem views_scopes_eq_views_copies (globals : Frame) (requests : List Request) :
    let start : Scopes := { globals }
    let copies : Copies := ⟨globals.get?, []⟩
    start.views requests = copies.views requests ∧ (start.after requests).Apart ∧
      ∀ request,
        (((start.after requests).step request).1.isFailure = true →
          ((start.after requests).step request).2 = start.after requests) ∧
        (((copies.after requests).step request).1.isFailure = true →
          ((copies.after requests).step request).2 = copies.after requests) := by
  intro start copies
  have hapart : start.Apart := Scopes.apart_of_globals globals
  have hcopies : start.copyDown = copies := by
    show Copies.mk (lookupIn [globals]) [] = ⟨globals.get?, []⟩
    rw [lookupIn_singleton]
  refine ⟨?_, Scopes.apart_after hapart requests, ?_⟩
  · rw [← hcopies]
    exact Scopes.views_copyDown hapart requests
  · intro request
    exact ⟨Scopes.step_of_isFailure, Copies.step_of_isFailure⟩

end TokenWalk
