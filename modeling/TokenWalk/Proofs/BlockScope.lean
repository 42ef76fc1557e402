import Mathlib.Data.Set.Insert
import TokenWalk.Proofs.Kept

/-!
# Bindings follow the blocks

Names come and go with the blocks they are declared in.  A statement, however deep it nests and
however it ends, leaves the number of frames and the names of all frames below the innermost one;
a loop or a conditional leaves the names of the innermost frame as well.  This is `kept_names`, from
which everything about blocks follows.

Only two statements touch the innermost frame themselves.  `declaration_eq_ok` and
`assignment_eq_ok` say what they do to the scopes, and `Declares` and `Assigns` what becomes of the
names and values there.
-/

namespace TokenWalk

namespace Frame

/-- The names bound in a frame. -/
def names (frame : Frame) : Set String :=
  {name | frame.has name = true}

theorem names_set (frame : Frame) (name : String) (value : Value) :
    names (Frame.set frame name value) = names frame := by
  ext other
  show (Frame.set frame name value).has other = true ↔ frame.has other = true
  rw [has_set]

theorem names_cons (name : String) (value : Value) (frame : Frame) :
    names ((name, value) :: frame) = Insert.insert name (names frame) := by
  ext other
  show (get? ((name, value) :: frame) other).isSome = true ↔ other = name ∨ frame.has other = true
  rw [get?_cons]
  by_cases hother : other = name
  · simp [hother]
  · simp [hother, has]

end Frame

namespace Scopes

variable {s s' : Scopes} {name : String} {value : Value}

/-- The names of each frame, innermost first. -/
def names (s : Scopes) : List (Set String) :=
  s.frames.map Frame.names

theorem length_names (s : Scopes) : s.names.length = s.depth := by
  rw [names, List.length_map, length_frames]

theorem names_push (s : Scopes) : s.push.names = Frame.names [] :: s.names := rfl

/-- Leaving a block drops the names of its frame. -/
theorem names_pop (h : s.inner ≠ []) : s.pop.names = s.names.tail := by
  cases hinner : s.inner with
  | nil => exact absurd hinner h
  | cons frame outer =>
    rw [names, names, frames_of_inner hinner]
    rfl

theorem names_updateFirst (name : String) (value : Value) (frames : List Frame) :
    (updateFirst name value frames).map Frame.names = frames.map Frame.names := by
  induction frames with
  | nil => rfl
  | cons frame frames ih =>
    unfold updateFirst
    by_cases hhas : frame.has name
    · rw [if_pos hhas, List.map_cons, List.map_cons, Frame.names_set]
    · rw [if_neg hhas, List.map_cons, List.map_cons, ih]

/-- An update changes no names. -/
theorem names_update? (h : s.update? name value = some s') : s'.names = s.names := by
  rw [names, (update?_eq_some h).2, names_updateFirst]
  rfl

/-- A declaration changes the names of the innermost frame only. -/
theorem tail_names_declare? (h : s.declare? name value = some s') :
    s'.names.tail = s.names.tail := by
  obtain ⟨-, frame, outer, hframes, hframes'⟩ := declare?_eq_some h
  rw [names, names, hframes, hframes']
  rfl

end Scopes

/-! ## What blocks keep -/

/-- All names below the innermost frame are kept, and in a frame of their own walks keep all
names. -/
theorem kept_names (tokens : List Token) :
    Kept tokens (fun s t => t.scopes.names.tail = s.scopes.names.tail)
      (fun s t => t.scopes.names = s.scopes.names) where
  row := steady_of_scopes fun scopes => scopes.names.tail
  framed := steady_of_scopes Scopes.names
  of_framed h := congrArg List.tail h
  emit _ := rfl
  declare _ h := Scopes.tail_names_declare? h
  update _ h := congrArg List.tail (Scopes.names_update? h)
  frame := by
    intro s t h
    -- The frame pushed before is still there, since the names below it are all of the session's.
    rw [Scopes.names_push, List.tail_cons] at h
    have hinner : t.scopes.inner ≠ [] := by
      intro hinner
      have hlength := congrArg List.length h
      rw [List.length_tail, Scopes.length_names, Scopes.length_names, Scopes.depth, Scopes.depth,
        hinner] at hlength
      simp at hlength
    show t.scopes.pop.names = s.scopes.names
    rw [Scopes.names_pop hinner, h]

/-! ## How scopes change -/

namespace Scopes

variable {s s' : Scopes} {name : String} {value : Value}

/-- There are as many frames as before, with the same names in each one below the innermost. -/
structure SameBelow (s s' : Scopes) : Prop where
  depth_eq : s'.depth = s.depth
  names_eq : s'.frames.tail.map Frame.names = s.frames.tail.map Frame.names

/-- One name is new: the innermost frame has it, which had it no more than any other frame, and all
other bindings are as they were. -/
def Declares (s : Scopes) (name : String) (s' : Scopes) : Prop :=
  ∃ top top' below, s.frames = top :: below ∧ s'.frames = top' :: below ∧
    (∀ frame ∈ s.frames, name ∉ frame.names) ∧ top'.names = insert name top.names ∧
    ∀ other ≠ name, top'.get? other = top.get? other

/-- One name may have another value, in the innermost of the frames that have it; all names and all
other bindings are as they were. -/
def Assigns (s : Scopes) (name : String) (s' : Scopes) : Prop :=
  ∃ above owner owner' below, s.frames = above ++ owner :: below ∧
    s'.frames = above ++ owner' :: below ∧
    (∀ frame ∈ above, name ∉ frame.names) ∧ name ∈ owner.names ∧ owner'.names = owner.names ∧
    ∀ other ≠ name, owner'.get? other = owner.get? other

theorem sameBelow_of_tail_names (h : s'.names.tail = s.names.tail) : s.SameBelow s' where
  depth_eq := by
    have hlength := congrArg List.length h
    rw [List.length_tail, List.length_tail, length_names, length_names, depth, depth] at hlength
    rw [depth, depth]
    omega
  names_eq := by
    rw [List.map_tail, List.map_tail]
    exact h

theorem declares_of_declare? (h : s.declare? name value = some s') : s.Declares name s' := by
  obtain ⟨hcontains, top, below, hframes, hframes'⟩ := declare?_eq_some h
  refine ⟨top, _, below, hframes, hframes', ?_, Frame.names_cons name value top, ?_⟩
  · intro frame hframe hname
    have hany : s.contains name = true := List.any_eq_true.mpr ⟨frame, hframe, hname⟩
    rw [hcontains] at hany
    cases hany
  · intro other hother
    rw [Frame.get?_cons, if_neg hother]

/-- An update writes into the first frame that has the name. -/
theorem exists_updateFirst_eq (name : String) (value : Value) (frames : List Frame)
    (h : frames.any (·.has name) = true) :
    ∃ above owner below, frames = above ++ owner :: below ∧
      (∀ frame ∈ above, name ∉ frame.names) ∧ name ∈ owner.names ∧
      updateFirst name value frames = above ++ Frame.set owner name value :: below := by
  induction frames with
  | nil => cases h
  | cons frame frames ih =>
    unfold updateFirst
    by_cases hhas : frame.has name
    · rw [if_pos hhas]
      exact ⟨[], frame, frames, rfl, by simp, hhas, rfl⟩
    · rw [if_neg hhas]
      have hany : frames.any (·.has name) = true := by simpa [hhas] using h
      obtain ⟨above, owner, below, rfl, habove, howner, hupdate⟩ := ih hany
      refine ⟨frame :: above, owner, below, rfl, ?_, howner, ?_⟩
      · intro f hf
        obtain rfl | hf := List.mem_cons.mp hf
        · exact hhas
        · exact habove f hf
      · rw [hupdate]
        rfl

theorem assigns_of_update? (h : s.update? name value = some s') : s.Assigns name s' := by
  obtain ⟨hcontains, hframes'⟩ := update?_eq_some h
  obtain ⟨above, owner, below, hframes, habove, howner, hupdate⟩ :=
    exists_updateFirst_eq name value s.frames hcontains
  refine ⟨above, owner, _, below, hframes, hframes'.trans hupdate, habove, howner,
    Frame.names_set owner name value, ?_⟩
  intro other hother
  rw [Frame.get?_set, if_neg hother]

end Scopes

namespace Walk

variable {m m' : Machine}

/-! ## Declarations and assignments -/

/-- A declaration that ends has declared the name after the keyword. -/
theorem declaration_eq_ok (h : declaration m = .ok () m') :
    ∃ value, m.scopes.declare? m.cursor.next.token.text value = some m'.scopes := by
  unfold declaration at h
  rw [bind_of_ok (read_advance m)] at h
  obtain ⟨name, m₁, hname, h⟩ := bind_ok_iff.mp h
  obtain ⟨c₁, hexpect, rfl⟩ := read_ok_iff.mp hname
  obtain ⟨-, rfl, -⟩ := Reading.expect_ok_iff.mp hexpect
  obtain ⟨_, m₂, hequals, h⟩ := bind_ok_iff.mp h
  obtain ⟨c₂, -, rfl⟩ := read_ok_iff.mp hequals
  obtain ⟨value, m₃, hvalue, h⟩ := bind_ok_iff.mp h
  obtain ⟨c₃, -, rfl⟩ := read_ok_iff.mp hvalue
  rw [bind_of_ok (get_apply _)] at h
  refine ⟨value, ?_⟩
  dsimp only at h
  cases hdeclare : m.scopes.declare? m.cursor.next.token.text value with
  | none =>
    rw [hdeclare] at h
    cases h
  | some scopes =>
    rw [hdeclare] at h
    cases h
    rfl

/-- An assignment that ends has updated the name it starts with. -/
theorem assignment_eq_ok (h : assignment m = .ok () m') :
    ∃ value, m.scopes.update? m.cursor.token.text value = some m'.scopes := by
  unfold assignment at h
  rw [bind_of_ok (read_current m), bind_of_ok (get_apply m)] at h
  split at h
  · cases h
  · change (read .advance >>= fun _ => _) m = _ at h
    rw [bind_of_ok (read_advance m)] at h
    obtain ⟨_, m₁, hequals, h⟩ := bind_ok_iff.mp h
    obtain ⟨c₁, -, rfl⟩ := read_ok_iff.mp hequals
    obtain ⟨value, m₂, hvalue, h⟩ := bind_ok_iff.mp h
    obtain ⟨c₂, -, rfl⟩ := read_ok_iff.mp hvalue
    rw [bind_of_ok (get_apply _)] at h
    refine ⟨value, ?_⟩
    dsimp only at h
    cases hupdate : m.scopes.update? m.cursor.token.text value with
    | none =>
      rw [hupdate] at h
      cases h
    | some scopes =>
      rw [hupdate] at h
      cases h
      rfl

/-- What is kept over the tokens of a machine holds of the machine that a walk leaves. -/
theorem Keeps.final {R : Session → Session → Prop} {w : Walk Unit}
    (h : Keeps m.cursor.tokens R w) : R m.toSession (final (w m)).toSession :=
  (Meets.final (h m rfl)).2

/-- **Bindings follow the blocks.**  However a statement or a block ends, there are as many frames
as before, with the same names below the innermost one.  A loop or a conditional keeps the names of
all frames; a declaration that ends adds its name to the innermost frame and changes nothing else;
an assignment that ends changes the value of its name, in the innermost frame that has it, and
nothing else. -/
theorem bindings_follow_blocks (limits : Limits) (cap : Int) (nesting : Nat) (m : Machine) :
    m.scopes.SameBelow (final (statement limits m)).scopes ∧
    m.scopes.SameBelow (final (block cap nesting m)).scopes ∧
    (m.cursor.token.kind = .keyword →
      m.cursor.token.text = "while" ∨ m.cursor.token.text = "if" →
      (final (statement limits m)).scopes.frames.map Frame.names =
        m.scopes.frames.map Frame.names) ∧
    (∀ m', m.cursor.token.kind = .keyword →
      m.cursor.token.text = "var" ∨ m.cursor.token.text = "let" →
      statement limits m = .ok () m' → m.scopes.Declares m.cursor.next.token.text m'.scopes) ∧
    (∀ m', m.cursor.token.kind = .identifier → statement limits m = .ok () m' →
      m.scopes.Assigns m.cursor.token.text m'.scopes) := by
  have hkept := kept_names m.cursor.tokens
  have hblock := hkept.block limits.iterations limits.nesting
  refine ⟨?_, ?_, ?_, ?_, ?_⟩
  · exact Scopes.sameBelow_of_tail_names (Keeps.final (hkept.statementWith hblock _))
  · exact Scopes.sameBelow_of_tail_names (Keeps.final (hkept.block cap nesting))
  · intro hkind htext
    have hloop := Keeps.final (hkept.loop hblock limits.iterations)
    have hconditional := Keeps.final (hkept.conditional hblock)
    unfold statement
    rcases htext with htext | htext
    · rw [statementWith_loop hkind htext]
      exact hloop
    · rw [statementWith_conditional hkind htext]
      exact hconditional
  · intro m' hkind htext h
    rw [statement, statementWith_declaration hkind htext] at h
    obtain ⟨value, hdeclare⟩ := declaration_eq_ok h
    exact Scopes.declares_of_declare? hdeclare
  · intro m' hkind h
    rw [statement, statementWith_assignment hkind] at h
    obtain ⟨value, hupdate⟩ := assignment_eq_ok h
    exact Scopes.assigns_of_update? hupdate

end Walk

end TokenWalk
