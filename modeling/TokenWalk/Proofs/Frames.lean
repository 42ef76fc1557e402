import TokenWalk.Scopes

/-!
# Frames

How a frame is read after it has changed, and what declarations and updates do to the list of all
frames.  Later proofs use these lemmas in place of the definitions.
-/

namespace TokenWalk

namespace Frame

@[simp] theorem get?_nil (name : String) : get? [] name = none := rfl

theorem get?_cons (binding : String × Value) (frame : Frame) (name : String) :
    get? (binding :: frame) name =
      if name = binding.1 then some binding.2 else frame.get? name := by
  show List.lookup name (binding :: frame) = _
  rw [List.lookup_cons]
  by_cases h : name = binding.1
  · simp [h]
  · have hne : (name == binding.1) = false := by simp [h]
    rw [hne, if_neg h]
    rfl

/-- A new value shows under its name, if the name is bound, and nowhere else. -/
theorem get?_set (frame : Frame) (name : String) (value : Value) (other : String) :
    (Frame.set frame name value).get? other =
      if other = name then (frame.get? name).map fun _ => value else frame.get? other := by
  induction frame with
  | nil => simp [Frame.set]
  | cons binding frame ih =>
    have hset : Frame.set (binding :: frame) name value =
        (if binding.1 == name then (name, value) else binding) :: Frame.set frame name value := rfl
    rw [hset, get?_cons, get?_cons, get?_cons, ih]
    by_cases hname : binding.1 = name
    · by_cases hother : other = name
      · simp [hname, hother]
      · simp [hname, hother]
    · by_cases hother : other = name
      · simp [hname, hother, Ne.symm hname]
      · simp [hname, hother]

theorem has_set (frame : Frame) (name : String) (value : Value) (other : String) :
    (Frame.set frame name value).has other = frame.has other := by
  unfold has
  rw [get?_set]
  by_cases hother : other = name
  · simp [hother]
  · simp [hother]

theorem get?_append (frame frame' : Frame) (name : String) :
    Frame.get? (frame ++ frame') name = (frame.get? name).or (frame'.get? name) := by
  induction frame with
  | nil => rfl
  | cons binding frame ih =>
    rw [List.cons_append, Frame.get?_cons, Frame.get?_cons, ih]
    by_cases hname : name = binding.1
    · simp [hname]
    · simp [hname]

end Frame

namespace Scopes

variable {s s' : Scopes} {name : String} {value : Value}

theorem frames_of_inner {frame : Frame} {outer : List Frame} (h : s.inner = frame :: outer) :
    s.frames = frame :: s.pop.frames := by
  unfold frames pop
  rw [h]
  rfl

/-- A declaration adds a binding to the first frame, if no frame has the name. -/
theorem declare?_eq_some (h : s.declare? name value = some s') :
    s.contains name = false ∧ ∃ frame outer, s.frames = frame :: outer ∧
      s'.frames = ((name, value) :: frame) :: outer := by
  unfold declare? at h
  by_cases hcontains : s.contains name
  · rw [if_pos hcontains] at h
    cases h
  · rw [if_neg hcontains] at h
    refine ⟨by simpa using hcontains, ?_⟩
    unfold frames
    cases hinner : s.inner with
    | nil =>
      simp only [hinner, Option.some.injEq] at h
      subst h
      exact ⟨s.globals, [], rfl, by simp⟩
    | cons frame outer =>
      simp only [hinner, Option.some.injEq] at h
      subst h
      exact ⟨frame, outer ++ [s.globals], rfl, rfl⟩

theorem declare?_eq_none : s.declare? name value = none ↔ s.contains name = true := by
  unfold declare?
  by_cases hcontains : s.contains name
  · simp [hcontains]
  · cases hinner : s.inner with
    | nil => simp [hcontains]
    | cons frame outer => simp [hcontains]

theorem updateFirst_append (name : String) (value : Value) (inner : List Frame) (globals : Frame) :
    updateFirst name value (inner ++ [globals]) =
      if inner.any (·.has name) then updateFirst name value inner ++ [globals]
      else inner ++ updateFirst name value [globals] := by
  induction inner with
  | nil => rfl
  | cons frame inner ih =>
    rw [List.cons_append, updateFirst, updateFirst, List.any_cons]
    by_cases hhas : frame.has name
    · simp [hhas]
    · by_cases hany : inner.any (·.has name)
      · rw [if_pos hany] at ih
        simp [hhas, ih, hany]
      · rw [if_neg hany] at ih
        simp [hhas, ih, hany]

/-- An update writes into the first frame that has the name. -/
theorem update?_eq_some (h : s.update? name value = some s') :
    s.contains name = true ∧ s'.frames = updateFirst name value s.frames := by
  unfold update? at h
  unfold contains frames
  rw [updateFirst_append, List.any_append]
  by_cases hinner : s.inner.any (·.has name)
  · rw [if_pos hinner] at h
    cases h
    simp [hinner]
  · rw [if_neg hinner] at h
    by_cases hglobals : s.globals.has name
    · rw [if_pos hglobals] at h
      cases h
      simp [hinner, hglobals, updateFirst]
    · rw [if_neg hglobals] at h
      cases h

theorem update?_eq_none : s.update? name value = none ↔ s.contains name = false := by
  unfold update? contains frames
  rw [List.any_append]
  by_cases hinner : s.inner.any (·.has name)
  · simp [hinner]
  · by_cases hglobals : s.globals.has name
    · simp [hinner, hglobals]
    · simp [hinner, hglobals]

/-- A visible name can be given another value. -/
theorem exists_update? (h : s.contains name = true) (value : Value) :
    ∃ s', s.update? name value = some s' := by
  cases hupdate : s.update? name value with
  | some s' => exact ⟨s', rfl⟩
  | none =>
    rw [update?_eq_none.mp hupdate] at h
    cases h

theorem length_updateFirst (name : String) (value : Value) (frames : List Frame) :
    (updateFirst name value frames).length = frames.length := by
  induction frames with
  | nil => rfl
  | cons frame frames ih =>
    unfold updateFirst
    by_cases hhas : frame.has name
    · rw [if_pos hhas, List.length_cons, List.length_cons]
    · rw [if_neg hhas, List.length_cons, List.length_cons, ih]

/-! ## The number of frames -/

theorem length_frames (s : Scopes) : s.frames.length = s.depth := by
  unfold frames depth
  rw [List.length_append]
  rfl

theorem depth_declare? (h : s.declare? name value = some s') : s'.depth = s.depth := by
  obtain ⟨-, frame, outer, hframes, hframes'⟩ := declare?_eq_some h
  rw [← length_frames, ← length_frames, hframes, hframes']
  rfl

theorem depth_update? (h : s.update? name value = some s') : s'.depth = s.depth := by
  rw [← length_frames, ← length_frames, (update?_eq_some h).2, length_updateFirst]

/-- Without inner frames, leaving all blocks changes nothing. -/
theorem reset_of_depth (h : s.depth = 1) : s.reset = s := by
  obtain ⟨inner, globals⟩ := s
  have hinner : inner = [] := List.eq_nil_of_length_eq_zero (Nat.succ.inj h)
  subst hinner
  rfl

end Scopes

end TokenWalk
