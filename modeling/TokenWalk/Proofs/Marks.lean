import TokenWalk.Proofs.MaximalMunch
import TokenWalk.Token.Source

/-!
# Marks

Cutting counts lines by what a piece is: a line end starts a line, blanks and line comments stay on
theirs, other pieces are looked through, and so is the whole text behind a comment that never ends.
`Mark.after` counts character by character.

* `Mark.past_eq_after`: the two agree on every piece that a rule can cut;
* `Mark.place_after`: the place of a mark follows its text, as `Place.after` does;
* `Mark.endOf_append`: looking through the rest of a text leads to its end.
-/

namespace TokenWalk

/-! ## Places -/

/-- The place after one more character. -/
def Place.next (p : Place) (c : Char) : Place :=
  if c == '\n' then ⟨p.line + 1, 1⟩ else ⟨p.line, p.column + 1⟩

/-- The place after a text that starts at `p`. -/
def Place.after (p : Place) (cs : List Char) : Place :=
  cs.foldl Place.next p

@[simp] theorem Place.after_nil (p : Place) : p.after [] = p := rfl

@[simp] theorem Place.after_cons (p : Place) (c : Char) (cs : List Char) :
    p.after (c :: cs) = (p.next c).after cs := rfl

/-- Places can be followed piece by piece. -/
theorem Place.after_append (p : Place) (xs ys : List Char) :
    p.after (xs ++ ys) = (p.after xs).after ys :=
  List.foldl_append

/-! ## The start of the last line -/

theorem lastLineStart_eq_zero_iff {cs : List Char} : lastLineStart cs = 0 ↔ cs.count '\n' = 0 := by
  induction cs with
  | nil => simp [lastLineStart]
  | cons c cs ih =>
    rw [lastLineStart, List.count_cons]
    cases hstart : lastLineStart cs with
    | zero => simp [ih.mp hstart]
    | succ n =>
      have hcount : cs.count '\n' ≠ 0 := fun h => by rw [ih.mpr h] at hstart; cases hstart
      simp [hcount]

theorem lastLineStart_cons {c : Char} {cs : List Char} (h : cs.count '\n' ≠ 0) :
    lastLineStart (c :: cs) = lastLineStart cs + 1 := by
  rw [lastLineStart]
  cases hstart : lastLineStart cs with
  | zero => exact absurd (lastLineStart_eq_zero_iff.mp hstart) h
  | succ n => rfl

/-- The last line of a text is that of its second part, if a line ends there. -/
theorem lastLineStart_append {xs ys : List Char} (h : ys.count '\n' ≠ 0) :
    lastLineStart (xs ++ ys) = xs.length + lastLineStart ys := by
  induction xs with
  | nil => simp
  | cons x xs ih =>
    have hcount : (xs ++ ys).count '\n' ≠ 0 := by
      rw [List.count_append]
      omega
    rw [List.cons_append, lastLineStart_cons hcount, ih, List.length_cons]
    omega

namespace Mark

/-! ## Counting character by character -/

/-- The mark after one more character. -/
def next (m : Mark) (c : Char) : Mark :=
  if c == '\n' then ⟨m.offset + 1, m.line + 1, m.offset + 1, Nat.le_refl _⟩
  else ⟨m.offset + 1, m.line, m.lineStart, Nat.le_succ_of_le m.lineStart_le⟩

/-- The mark after a text. -/
def after (m : Mark) (cs : List Char) : Mark :=
  cs.foldl next m

@[simp] theorem after_nil (m : Mark) : m.after [] = m := rfl

theorem after_append (m : Mark) (xs ys : List Char) :
    m.after (xs ++ ys) = (m.after xs).after ys :=
  List.foldl_append

theorem offset_next (m : Mark) (c : Char) : (m.next c).offset = m.offset + 1 := by
  unfold next
  split <;> rfl

@[simp] theorem offset_after (m : Mark) (cs : List Char) :
    (m.after cs).offset = m.offset + cs.length := by
  induction cs generalizing m with
  | nil => rfl
  | cons c cs ih =>
    refine (ih (m.next c)).trans ?_
    rw [offset_next, List.length_cons]
    omega

theorem place_next (m : Mark) (c : Char) : (m.next c).place = m.place.next c := by
  have hle := m.lineStart_le
  unfold next Place.next
  split
  · simp [place, placeOf]
  · simp only [place, placeOf, Place.mk.injEq, true_and]
    omega

/-- The place of a mark follows its text. -/
theorem place_after (m : Mark) (cs : List Char) : (m.after cs).place = m.place.after cs := by
  induction cs generalizing m with
  | nil => rfl
  | cons c cs ih => exact (ih (m.next c)).trans (congrArg (Place.after · cs) (m.place_next c))

theorem line_after (m : Mark) (cs : List Char) : (m.after cs).line = m.line + cs.count '\n' := by
  induction cs generalizing m with
  | nil => rfl
  | cons c cs ih =>
    refine (ih (m.next c)).trans ?_
    unfold next
    by_cases hc : c = '\n'
    · simp [hc]
      omega
    · simp [hc]

theorem lineStart_after (m : Mark) (cs : List Char) :
    (m.after cs).lineStart =
      if cs.count '\n' = 0 then m.lineStart else m.offset + lastLineStart cs := by
  induction cs generalizing m with
  | nil => rfl
  | cons c cs ih =>
    refine (ih (m.next c)).trans ?_
    by_cases hcs : cs.count '\n' = 0
    · have hstart := lastLineStart_eq_zero_iff.mpr hcs
      unfold next
      by_cases hc : c = '\n' <;> simp [hc, hcs, hstart, lastLineStart]
    · have hcount : (c :: cs).count '\n' ≠ 0 := by
        rw [List.count_cons]
        omega
      rw [if_neg hcs, if_neg hcount, lastLineStart_cons hcs, offset_next]
      omega

/-! ## Counting piece by piece -/

/-- A text without line ends moves the mark along its line. -/
theorem after_of_count_eq_zero {cs : List Char} (h : cs.count '\n' = 0) (m : Mark) :
    m.after cs =
      ⟨m.offset + cs.length, m.line, m.lineStart, Nat.le_add_right_of_le m.lineStart_le⟩ := by
  ext <;> simp [line_after, lineStart_after, h]

/-- Every rule's way of counting counts the characters of its pieces. -/
theorem past_eq_after {rule : Rule} {text : List Char} (h : text ∈ rule.language) (m : Mark) :
    m.past rule text = m.after text := by
  have hstay : Rule.Within (· != '\n') rule.language → text.count '\n' = 0 := by
    intro hwithin
    refine List.count_eq_zero.mpr fun hmem => ?_
    have hne := hwithin text h _ hmem
    cases hne
  cases rule with
  | newline =>
    rw [Rule.mem_char.mp h]
    rfl
  | blank =>
    have hspace (c : Char) (hc : Rule.isSpace c = true) : (c != '\n') = true := by
      simp only [Rule.isSpace, Bool.and_eq_true] at hc
      exact hc.2
    have hcount := hstay (.mul (Rule.within_one hspace) (Rule.within_star_one hspace))
    exact (after_of_count_eq_zero hcount m).symm
  | lineComment =>
    have hslash (c : Char) (hc : (c == '/') = true) : (c != '\n') = true := by
      rw [beq_iff_eq.mp hc]
      rfl
    have hcount := hstay (.mul (Rule.within_one hslash)
      (.mul (Rule.within_one hslash) (Rule.within_star_one fun c hc => hc)))
    exact (after_of_count_eq_zero hcount m).symm
  | _ =>
    by_cases hcount : text.count '\n' = 0
    · rw [after_of_count_eq_zero hcount]
      exact if_pos hcount
    · ext <;> simp [past, line_after, lineStart_after, hcount]

/-- Looking through the rest of a text leads to its end. -/
theorem endOf_append {m : Mark} {before : List Char} (h : m.offset = before.length)
    (rest : List Char) : m.endOf (before ++ rest) = m.place.after rest := by
  have hrest : (before ++ rest).drop m.offset = rest := by rw [h, List.drop_left]
  have hlength : (before ++ rest).length = m.offset + rest.length := by rw [List.length_append, h]
  rw [← place_after, place, placeOf, line_after, offset_after, lineStart_after, endOf, hrest,
    hlength]
  by_cases hcount : rest.count '\n' = 0
  · rw [if_pos hcount, if_pos hcount, hcount]
    rfl
  · rw [if_neg hcount, if_neg hcount, lastLineStart_append hcount, ← h]

end Mark

end TokenWalk
