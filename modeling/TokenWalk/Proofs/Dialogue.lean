import Mathlib.Data.List.Induction
import TokenWalk.Proofs.Outcome
import TokenWalk.Repl

/-!
# How typed lines make fragments

In interactive use the lines that are not blank are cut into fragments: each fragment ends with the
line that makes it complete, and the lines after the last one are pending.  `Dialogue.Divides` says
this of a division of given lines, and there is exactly one such division, `Dialogue.ofLines`.

`Repl.play_lines` is the main result.  Interactive use stops where the rule for the exit words says,
and up to there it comes to a new session that runs the fragments of the division one after the
other.  It shows a prompt for each line, which tells whether lines are pending, and what the session
has written since.
-/

namespace TokenWalk

/-! ## Divisions -/

/-- The line without the blanks around it. -/
def stripped (line : String) : String :=
  String.ofList (Text.trim line.toList)

/-- Lines that were typed: those of the fragments that are complete, and those that are pending. -/
structure Dialogue where
  fragments : List (List String) := []
  pending : List String := []

namespace Dialogue

variable {d : Dialogue} {lines ls ms : List String} {line : String}

/-- The text that lines make. -/
def text (lines : List String) : String :=
  "\n".intercalate lines

/-- No first lines of these make a complete text. -/
def StaysOpen (lines : List String) : Prop :=
  ∀ front, front <+: lines → front ≠ [] → Fragment.isComplete (text front) = false

/-- The lines are complete with the last of them, and not before. -/
structure Closes (lines : List String) : Prop where
  ne_nil : lines ≠ []
  complete : Fragment.isComplete (text lines) = true
  earliest : ∀ front, front <+: lines → front ≠ [] → front ≠ lines →
    Fragment.isComplete (text front) = false

/-- The dialogue divides the lines: it has each line that is not blank once, and in order. -/
structure Divides (d : Dialogue) (lines : List String) : Prop where
  lines_eq : lines.filter (stripped · ≠ "") = d.fragments.flatten ++ d.pending
  closes : ∀ fragment ∈ d.fragments, Closes fragment
  staysOpen : StaysOpen d.pending

/-- The dialogue with one more line. -/
def add (d : Dialogue) (line : String) : Dialogue :=
  if stripped line = "" then d
  else if Fragment.isComplete (text (d.pending ++ [line])) then
    ⟨d.fragments ++ [d.pending ++ [line]], []⟩
  else ⟨d.fragments, d.pending ++ [line]⟩

/-- The dialogue that the lines make. -/
def ofLines (lines : List String) : Dialogue :=
  lines.foldl add {}

theorem ofLines_concat (lines : List String) (line : String) :
    ofLines (lines ++ [line]) = (ofLines lines).add line := by
  simp [ofLines]

theorem staysOpen_nil : StaysOpen [] :=
  fun _ hfront hnil => absurd (List.prefix_nil.mp hfront) hnil

theorem staysOpen_concat (h : StaysOpen ls)
    (hopen : Fragment.isComplete (text (ls ++ [line])) = false) : StaysOpen (ls ++ [line]) := by
  intro front hfront hnil
  obtain rfl | hfront := List.prefix_concat_iff.mp hfront
  · exact hopen
  · exact h front hfront hnil

theorem closes_concat (h : StaysOpen ls) (hcomplete : Fragment.isComplete (text (ls ++ [line]))) :
    Closes (ls ++ [line]) where
  ne_nil := by simp
  complete := hcomplete
  earliest front hfront hnil hne :=
    h front ((List.prefix_concat_iff.mp hfront).resolve_left hne) hnil

/-- One more line keeps a division. -/
theorem Divides.add (h : d.Divides lines) (line : String) :
    (d.add line).Divides (lines ++ [line]) := by
  have hlines : (lines ++ [line]).filter (stripped · ≠ "") =
      d.fragments.flatten ++ d.pending ++ [line].filter (stripped · ≠ "") := by
    rw [List.filter_append, h.lines_eq]
  unfold Dialogue.add
  split
  next hblank => exact ⟨hlines.trans (by simp [hblank]), h.closes, h.staysOpen⟩
  next hblank =>
    split
    next hcomplete =>
      refine ⟨hlines.trans (by simp [hblank]), fun fragment hmem => ?_, staysOpen_nil⟩
      obtain hmem | hlast := List.mem_append.mp hmem
      · exact h.closes fragment hmem
      · rw [List.mem_singleton.mp hlast]
        exact closes_concat h.staysOpen hcomplete
    next hopen =>
      refine ⟨hlines.trans (by simp [hblank]), h.closes, ?_⟩
      exact staysOpen_concat h.staysOpen (Bool.eq_false_iff.mpr hopen)

theorem divides_ofLines (lines : List String) : (ofLines lines).Divides lines := by
  induction lines using List.reverseRecOn with
  | nil => exact ⟨rfl, nofun, staysOpen_nil⟩
  | append_singleton lines line ih =>
    rw [ofLines_concat]
    exact ih.add line

/-! ## There is one division -/

/-- Lines that close are not the first ones of lines that stay open. -/
theorem Closes.not_staysOpen (h : Closes ls) (hfront : ls <+: ms) : ¬ StaysOpen ms := by
  intro hopen
  have hfalse := hopen ls hfront h.ne_nil
  rw [h.complete] at hfalse
  cases hfalse

/-- Of two lists of lines that close, neither goes on beyond the other. -/
theorem Closes.eq_of_front (h : Closes ls) (h' : Closes ms) (hfront : ls <+: ms) : ls = ms := by
  by_contra hne
  have hfalse := h'.earliest ls hfront h.ne_nil hne
  rw [h.complete] at hfalse
  cases hfalse

/-- Fragments and pending lines can be told from the lines that they make together. -/
theorem eq_of_flatten_append_eq (fs gs : List (List String)) (hls : StaysOpen ls)
    (hms : StaysOpen ms) (hfs : ∀ f ∈ fs, Closes f) (hgs : ∀ g ∈ gs, Closes g)
    (h : fs.flatten ++ ls = gs.flatten ++ ms) : fs = gs ∧ ls = ms := by
  induction fs generalizing gs with
  | nil =>
    cases gs with
    | nil => exact ⟨rfl, h⟩
    | cons g gs =>
      have hfront : g <+: ls := ⟨gs.flatten ++ ms, by simpa using h.symm⟩
      exact absurd hls ((hgs g List.mem_cons_self).not_staysOpen hfront)
  | cons f fs ih =>
    have hf := hfs f List.mem_cons_self
    cases gs with
    | nil =>
      have hfront : f <+: ms := ⟨fs.flatten ++ ls, by simpa using h⟩
      exact absurd hms (hf.not_staysOpen hfront)
    | cons g gs =>
      have hg := hgs g List.mem_cons_self
      rw [List.flatten_cons, List.flatten_cons, List.append_assoc, List.append_assoc] at h
      -- Both first fragments start the same lines, so one of them is a front of the other.
      have hfg : f = g := by
        obtain hfront | hfront := List.prefix_or_prefix_of_prefix ⟨_, h⟩ ⟨_, rfl⟩
        · exact hf.eq_of_front hg hfront
        · exact (hg.eq_of_front hf hfront).symm
      subst hfg
      obtain ⟨rfl, rfl⟩ := ih gs (fun f hf => hfs f (List.mem_cons_of_mem _ hf))
        (fun g hg => hgs g (List.mem_cons_of_mem _ hg)) (List.append_cancel_left h)
      exact ⟨rfl, rfl⟩

/-- The rule for fragments fixes the division. -/
theorem divides_iff : d.Divides lines ↔ d = ofLines lines := by
  constructor
  · intro h
    have h' := divides_ofLines lines
    obtain ⟨hfragments, hpending⟩ := eq_of_flatten_append_eq d.fragments (ofLines lines).fragments
      h.staysOpen h'.staysOpen h.closes h'.closes (h.lines_eq.symm.trans h'.lines_eq)
    cases d
    cases hfragments
    cases hpending
    rfl
  · rintro rfl
    exact divides_ofLines lines

-- Inside a block an exit word is a line like any other.
example : (ofLines ["if x \x7b", " ", "exit", "\x7d", "else"]).fragments =
    [["if x \x7b", "exit", "\x7d"]] := by
  decide +kernel

end Dialogue

/-! ## Running the fragments -/

namespace Repl

variable {debug : Bool} {limits : Limits} {read front : List String} {line : String}
  {fs : List (List String)} {rs : List (Option Fault)} {s s' : Session} {a : Abort}
  {repl next : Repl} {keys : List Keystroke} {written : Transcript}

/-- Runs the fragments one after the other, whether they end in a fault or not. -/
def runAll (limits : Limits) (fragments : List (List String)) :
    EStateM Abort Session (List (Option Fault)) :=
  fragments.mapM fun lines => Session.run limits (Dialogue.text lines) file

theorem runAll_append (fs gs : List (List String)) : runAll limits (fs ++ gs) = (do
    let rs ← runAll limits fs
    let rs' ← runAll limits gs
    return rs ++ rs') :=
  List.mapM_append

theorem runAll_append_of_error (h : runAll limits fs s = .error a s') (gs : List (List String)) :
    runAll limits (fs ++ gs) s = .error a s' := by
  rw [runAll_append]
  exact bind_of_error h

theorem runAll_concat_of_ok (h : runAll limits fs s = .ok rs s') (f : List String) :
    runAll limits (fs ++ [f]) s =
      match Session.run limits (Dialogue.text f) file s' with
      | .ok r s'' => .ok (rs ++ [r]) s''
      | .error a s'' => .error a s'' := by
  rw [runAll_append, bind_of_ok h]
  cases hr : Session.run limits (Dialogue.text f) file s' with
  | ok r s'' =>
    have hf : runAll limits [f] s' = .ok [r] s'' := by
      unfold runAll
      rw [List.mapM_cons, bind_of_ok hr]
      rfl
    rw [bind_of_ok hf]
    rfl
  | error a s'' =>
    have hf : runAll limits [f] s' = .error a s'' := by
      unfold runAll
      rw [List.mapM_cons, bind_of_error hr]
    rw [bind_of_error hf]

/-! ## Where it stops and what it shows -/

/-- After the lines in front, the line ends interactive use. -/
def Leaves (front : List String) (line : String) : Prop :=
  (stripped line = "exit" ∨ stripped line = "quit") ∧ (Dialogue.ofLines front).pending = []

/-- Of the lines `read ++ rest`, those in `read` are taken: no line of them ends interactive use,
and what comes next does or is the end of input. -/
structure EndsAt (read rest : List String) : Prop where
  passes : ∀ front line, front ++ [line] <+: read → ¬ Leaves front line
  stops : rest = [] ∨ ∃ line unread, rest = line :: unread ∧ Leaves read line

/-- The session after the lines, which is the one that has run their fragments. -/
def sessionAfter (limits : Limits) (lines : List String) : Session :=
  final (runAll limits (Dialogue.ofLines lines).fragments {})

/-- The prompt after the lines, which continues a fragment if some are pending. -/
def promptAfter (lines : List String) : String :=
  if (Dialogue.ofLines lines).pending = [] then ">>> " else "... "

/-- The exchanges while the lines are read: for each line the prompt before it and what the session
writes because of it. -/
def exchanges (debug : Bool) (limits : Limits) (read : List String) : List Transcript :=
  (List.range read.length).map fun i =>
    .say (promptAfter (read.take i)) ++
      .between debug (sessionAfter limits (read.take i)) (sessionAfter limits (read.take (i + 1)))

theorem exchanges_concat (read : List String) (line : String) :
    exchanges debug limits (read ++ [line]) = exchanges debug limits read ++
      [.say (promptAfter read) ++
        .between debug (sessionAfter limits read) (sessionAfter limits (read ++ [line]))] := by
  unfold exchanges
  rw [List.length_append, List.length_singleton, List.range_succ, List.map_append]
  congr 1
  · refine List.map_congr_left fun i hi => ?_
    have hlt := List.mem_range.mp hi
    rw [List.take_append_of_le_length (Nat.le_of_lt hlt), List.take_append_of_le_length hlt]
  · have hall : (read ++ [line]).take (read.length + 1) = read ++ [line] :=
      List.take_of_length_le (by simp)
    simp [hall]

/-- Some first lines are taken. -/
theorem exists_endsAt (lines : List String) :
    ∃ read rest, lines = read ++ rest ∧ EndsAt read rest := by
  induction lines using List.reverseRecOn with
  | nil => exact ⟨[], [], rfl, by simp, .inl rfl⟩
  | append_singleton lines line ih =>
    obtain ⟨read, rest, rfl, hpasses, rfl | ⟨word, unread, rfl, hleaves⟩⟩ := ih
    · rw [List.append_nil]
      by_cases hleaves : Leaves read line
      · exact ⟨read, [line], rfl, hpasses, .inr ⟨line, [], rfl, hleaves⟩⟩
      · refine ⟨read ++ [line], [], (List.append_nil _).symm, fun front l hfront => ?_, .inl rfl⟩
        obtain hlast | hfront := List.prefix_concat_iff.mp hfront
        · obtain ⟨rfl, hl⟩ := List.append_inj' hlast rfl
          cases hl
          exact hleaves
        · exact hpasses front l hfront
    · exact ⟨read, word :: unread ++ [line], by simp, hpasses, .inr ⟨word, _, rfl, hleaves⟩⟩

/-! ## One line -/

theorem prompt_eq_promptAfter (session : Session) (lines : List String) :
    prompt ⟨session, (Dialogue.ofLines lines).pending.reverse⟩ = promptAfter lines := by
  simp [prompt, promptAfter]

/-- Taking a line, by the lines that are pending before it. -/
theorem feed_eq (line : String) (session : Session) (pending : List String) :
    feed limits line ⟨session, pending.reverse⟩ =
      if pending = [] ∧ (stripped line = "exit" ∨ stripped line = "quit") then
        (⟨session, pending.reverse⟩, .leave)
      else if stripped line = "" then (⟨session, pending.reverse⟩, .goOn)
      else if Fragment.isComplete (Dialogue.text (pending ++ [line])) then
        match Session.run limits (Dialogue.text (pending ++ [line])) file session with
        | .ok _ session => (⟨session, []⟩, .goOn)
        | .error a session => (⟨session, line :: pending.reverse⟩, .abort a)
      else (⟨session, (pending ++ [line]).reverse⟩, .goOn) := by
  unfold feed
  simp only [List.isEmpty_reverse, Bool.and_eq_true, List.isEmpty_iff, Bool.or_eq_true, beq_iff_eq,
    String.isEmpty_iff, List.reverse_cons, List.reverse_reverse, stripped, Dialogue.text]
  by_cases hcomplete : Fragment.isComplete ("\n".intercalate (pending ++ [line])) = true
  · simp only [hcomplete]
    rfl
  · simp [hcomplete]

theorem feed_of_leaves (h : Leaves front line) (session : Session) :
    feed limits line ⟨session, (Dialogue.ofLines front).pending.reverse⟩ =
      (⟨session, (Dialogue.ofLines front).pending.reverse⟩, .leave) := by
  rw [feed_eq, if_pos ⟨h.2, h.1⟩]

/-- What a line makes of a session that has run the fragments so far. -/
theorem feed_of_not_leaves (h : ¬ Leaves front line)
    (hfront : runAll limits (Dialogue.ofLines front).fragments {} = .ok rs s) :
    (∀ rs' s', runAll limits (Dialogue.ofLines (front ++ [line])).fragments {} = .ok rs' s' →
      feed limits line ⟨s, (Dialogue.ofLines front).pending.reverse⟩ =
        (⟨s', (Dialogue.ofLines (front ++ [line])).pending.reverse⟩, .goOn)) ∧
    (∀ a s', runAll limits (Dialogue.ofLines (front ++ [line])).fragments {} = .error a s' →
      ∃ repl, feed limits line ⟨s, (Dialogue.ofLines front).pending.reverse⟩ =
        (repl, .abort a)) := by
  rw [Dialogue.ofLines_concat, feed_eq, if_neg fun hleaves => h ⟨hleaves.2, hleaves.1⟩]
  unfold Dialogue.add
  split
  next hblank =>
    rw [hfront]
    constructor
    · rintro rs' s' ⟨⟩
      rfl
    · nofun
  next hblank =>
    split
    next hcomplete =>
      rw [runAll_concat_of_ok hfront]
      cases Session.run limits (Dialogue.text _) file s with
      | ok r s₁ =>
        constructor
        · rintro rs' s' ⟨⟩
          rfl
        · nofun
      | error a s₁ =>
        constructor
        · nofun
        · rintro a s' ⟨⟩
          exact ⟨_, rfl⟩
    next hopen =>
      rw [hfront]
      constructor
      · rintro rs' s' ⟨⟩
        rfl
      · nofun

/-! ## All lines -/

theorem play_line_of_goOn (h : feed limits line repl = (next, .goOn)) :
    play debug limits (.line line :: keys) repl written = play debug limits keys next
      (written ++ .say repl.prompt ++ .between debug repl.session next.session) := by
  simp only [play, h]

theorem play_line_of_leave (h : feed limits line repl = (repl, .leave)) :
    play debug limits (.line line :: keys) repl written =
      (written ++ .say repl.prompt, .ok repl) := by
  simp only [play, h, Transcript.append_between_self]

theorem play_line_of_abort (h : feed limits line repl = (next, .abort a)) :
    (play debug limits (.line line :: keys) repl written).2 = .error a := by
  simp only [play, h]

/-- What happened before a line stays so with it. -/
theorem runAll_concat_of_error
    (h : runAll limits (Dialogue.ofLines front).fragments {} = .error a s) (line : String) :
    runAll limits (Dialogue.ofLines (front ++ [line])).fragments {} = .error a s := by
  rw [Dialogue.ofLines_concat, Dialogue.add]
  split
  · exact h
  · split
    · exact runAll_append_of_error h _
    · exact h

/-- As long as no line ends it, interactive use comes to running the fragments of its lines. -/
theorem play_of_passes (debug : Bool) (limits : Limits) (written : Transcript)
    (hpasses : ∀ front line, front ++ [line] <+: read → ¬ Leaves front line)
    (keys : List Keystroke) :
    (∀ rs s, runAll limits (Dialogue.ofLines read).fragments {} = .ok rs s →
      play debug limits (read.map .line ++ keys) {} written =
        play debug limits keys ⟨s, (Dialogue.ofLines read).pending.reverse⟩
          ((exchanges debug limits read).foldl (· ++ ·) written)) ∧
    (∀ a s, runAll limits (Dialogue.ofLines read).fragments {} = .error a s →
      (play debug limits (read.map .line ++ keys) {} written).2 = .error a) := by
  induction read using List.reverseRecOn generalizing keys with
  | nil =>
    constructor
    · rintro rs s ⟨⟩
      rfl
    · nofun
  | append_singleton read line ih =>
    have ih := ih (fun front l hfront => hpasses front l (hfront.trans (List.prefix_append ..)))
      (.line line :: keys)
    rw [List.map_append, List.append_assoc]
    cases hread : runAll limits (Dialogue.ofLines read).fragments {} with
    | error a s =>
      rw [runAll_concat_of_error hread]
      constructor
      · nofun
      · rintro a s ⟨⟩
        exact ih.2 a s hread
    | ok rs s =>
      have hfeed := feed_of_not_leaves (hpasses read line (List.prefix_refl _)) hread
      constructor
      · intro rs' s' hnext
        refine (ih.1 rs s hread).trans ((play_line_of_goOn (hfeed.1 rs' s' hnext)).trans ?_)
        have hsession : sessionAfter limits read = s := congrArg final hread
        have hsession' : sessionAfter limits (read ++ [line]) = s' := congrArg final hnext
        rw [exchanges_concat, List.foldl_append, hsession, hsession', prompt_eq_promptAfter,
          Transcript.append_assoc]
        rfl
      · intro a s' hnext
        obtain ⟨repl, hrepl⟩ := hfeed.2 a s' hnext
        refine (congrArg Prod.snd (ih.1 rs s hread)).trans ?_
        exact play_line_of_abort hrepl

/-- **Interactive use runs the fragments of its lines.**  It takes the lines up to the first exit
word that finds none pending, or else all.  What it comes to is the session that runs their
fragments one after the other, which the rule for fragments fixes, with the rest of the lines that
are not blank pending.  An abort ends it only where it ends these runs.  Each line is prompted for,
and the prompt tells whether lines are pending. -/
theorem play_lines (debug : Bool) (limits : Limits) (lines : List String) (written : Transcript) :
    ∃ read rest, lines = read ++ rest ∧ EndsAt read rest ∧
      (∀ front, front <+: read → ∀ d : Dialogue, d.Divides front ↔ d = .ofLines front) ∧
      (∀ results session,
        runAll limits (Dialogue.ofLines read).fragments {} = .ok results session →
        play debug limits (lines.map .line) {} written =
          ((exchanges debug limits read).foldl (· ++ ·) written ++
              .say (promptAfter read ++ if rest = [] then "\n" else ""),
            .ok ⟨session, (Dialogue.ofLines read).pending.reverse⟩)) ∧
      (∀ abort session,
        runAll limits (Dialogue.ofLines read).fragments {} = .error abort session →
        (play debug limits (lines.map .line) {} written).2 = .error abort) := by
  obtain ⟨read, rest, rfl, hends⟩ := exists_endsAt lines
  have hplay := play_of_passes debug limits written hends.passes (rest.map .line)
  refine ⟨read, rest, rfl, hends, fun front _ d => Dialogue.divides_iff,
    fun results session h => ?_, fun abort session h => ?_⟩
  · rw [List.map_append]
    refine (hplay.1 results session h).trans ?_
    obtain rfl | ⟨line, unread, rfl, hleaves⟩ := hends.stops
    · simp [play, prompt_eq_promptAfter]
    · refine (play_line_of_leave (feed_of_leaves hleaves session)).trans ?_
      simp [prompt_eq_promptAfter]
  · rw [List.map_append]
    exact hplay.2 abort session h

end Repl

end TokenWalk
