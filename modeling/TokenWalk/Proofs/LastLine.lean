import Mathlib.Data.List.DropRight
import TokenWalk.Fragment

/-!
# The last line that is not blank

Where `\n` is the only character that ends lines, a text can be taken apart by hand around its last
line that is not blank; `LastLineAt` says how.  The program then finds that line without the blanks
around it (`LastLineAt.lastLine?_eq`), and its number is one more than there are line ends before it
(`LastLineAt.lastLineNumber_eq`).

Both follow from one equation, `lines_append_newline`: the lines of a text are those up to a line
end and those behind it.
-/

namespace TokenWalk

namespace Text

variable {xs ys : List Char}

/-! ## Lines -/

/-- No character but `\n` ends a line of the text. -/
def PlainLines (cs : List Char) : Prop :=
  ∀ c ∈ cs, isLineEnd c = true → c = '\n'

theorem plainLines_iff {cs : List Char} :
    PlainLines cs ↔ cs.all (fun c => !isLineEnd c || c == '\n') = true := by
  simp only [PlainLines, List.all_eq_true, Bool.or_eq_true, Bool.not_eq_true', beq_iff_eq,
    ← Bool.not_eq_true, ← imp_iff_not_or]

instance (cs : List Char) : Decidable (PlainLines cs) :=
  decidable_of_iff _ plainLines_iff.symm

theorem lines_newline_cons (cs : List Char) : lines ('\n' :: cs) = [] :: lines cs := by
  rw [lines]
  · rfl
  · nofun

theorem lines_cons {c : Char} (h : isLineEnd c = false) (cs : List Char) :
    lines (c :: cs) = match lines cs with
      | [] => [[c]]
      | line :: rest => (c :: line) :: rest := by
  rw [lines]
  · refine (if_neg (by simp [h])).trans ?_
    cases lines cs with
    | nil => rfl
    | cons line rest => rfl
  · rintro cs rfl
    cases h

theorem isLineEnd_of_ne {c : Char} (h : PlainLines (c :: xs)) (hc : c ≠ '\n') :
    isLineEnd c = false :=
  Bool.eq_false_iff.mpr fun hend => hc (h c List.mem_cons_self hend)

theorem PlainLines.tail {c : Char} (h : PlainLines (c :: xs)) : PlainLines xs :=
  fun d hd => h d (List.mem_cons_of_mem c hd)

/-- Every line end ends a line. -/
theorem length_lines_newline (h : PlainLines xs) :
    (lines (xs ++ ['\n'])).length = xs.count '\n' + 1 := by
  induction xs with
  | nil => rfl
  | cons c xs ih =>
    have ih := ih h.tail
    rw [List.cons_append]
    by_cases hc : c = '\n'
    · subst hc
      rw [lines_newline_cons, List.length_cons, ih, List.count_cons_self]
    · rw [lines_cons (isLineEnd_of_ne h hc), List.count_cons_of_ne hc, ← ih]
      cases hlines : lines (xs ++ ['\n']) with
      | nil => simp [hlines] at ih
      | cons line rest => rfl

/-- The lines of a text are those up to a line end and those behind it. -/
theorem lines_append_newline (h : PlainLines xs) (ys : List Char) :
    lines (xs ++ '\n' :: ys) = lines (xs ++ ['\n']) ++ lines ys := by
  induction xs with
  | nil =>
    rw [List.nil_append, List.nil_append, lines_newline_cons, lines_newline_cons]
    rfl
  | cons c xs ih =>
    have ih := ih h.tail
    rw [List.cons_append, List.cons_append]
    by_cases hc : c = '\n'
    · subst hc
      rw [lines_newline_cons, lines_newline_cons, ih, List.cons_append]
    · have hend := isLineEnd_of_ne h hc
      have hlength := length_lines_newline h.tail
      rw [lines_cons hend, lines_cons hend, ih]
      cases hlines : lines (xs ++ ['\n']) with
      | nil => simp [hlines] at hlength
      | cons line rest => rfl

/-- A text without line ends is one line. -/
theorem lines_of_line (h : ∀ c ∈ xs, isLineEnd c = false) (hne : xs ≠ []) : lines xs = [xs] := by
  induction xs with
  | nil => exact absurd rfl hne
  | cons c xs ih =>
    rw [List.forall_mem_cons] at h
    rw [lines_cons h.1]
    cases xs with
    | nil => rfl
    | cons d xs => rw [ih h.2 (by simp)]

theorem lines_of_line_newline (h : ∀ c ∈ xs, isLineEnd c = false) :
    lines (xs ++ ['\n']) = [xs] := by
  induction xs with
  | nil => rfl
  | cons c xs ih =>
    rw [List.forall_mem_cons] at h
    rw [List.cons_append, lines_cons h.1, ih h.2]

/-- The characters of a line are characters of the text. -/
theorem mem_of_mem_lines {cs line : List Char} (hline : line ∈ lines cs) {c : Char}
    (hc : c ∈ line) : c ∈ cs := by
  fun_induction lines cs generalizing line with
  | case1 => cases hline
  | case2 cs ih =>
    rcases List.mem_cons.mp hline with rfl | htail
    · cases hc
    · exact List.mem_cons_of_mem _ (List.mem_cons_of_mem _ (ih htail hc))
  | case3 d cs _ _ ih =>
    rcases List.mem_cons.mp hline with rfl | htail
    · cases hc
    · exact List.mem_cons_of_mem d (ih htail hc)
  | case4 d cs _ _ _ ih =>
    rw [List.mem_singleton.mp hline, List.mem_singleton] at hc
    rw [hc]
    exact List.mem_cons_self
  | case5 d cs _ _ first rest hlines ih =>
    rw [hlines] at ih
    rcases List.mem_cons.mp hline with rfl | htail
    · rcases List.mem_cons.mp hc with rfl | hc
      · exact List.mem_cons_self
      · exact List.mem_cons_of_mem d (ih List.mem_cons_self hc)
    · exact List.mem_cons_of_mem d (ih (List.mem_cons_of_mem first htail) hc)

/-- Whole lines in front of a text are lines of their own. -/
theorem exists_lines_append (h : PlainLines xs) (hended : xs = [] ∨ ∃ zs, xs = zs ++ ['\n'])
    (ys : List Char) :
    ∃ above, lines (xs ++ ys) = above ++ lines ys ∧ above.length = xs.count '\n' := by
  rcases hended with rfl | ⟨zs, rfl⟩
  · exact ⟨[], rfl, rfl⟩
  · have hzs : PlainLines zs := fun c hc => h c (List.mem_append_left _ hc)
    refine ⟨lines (zs ++ ['\n']), ?_, ?_⟩
    · rw [List.append_assoc, List.singleton_append, lines_append_newline hzs]
    · rw [length_lines_newline hzs, List.count_append, List.count_singleton_self]

/-! ## Trimming -/

/-- Blanks around a text that neither begins nor ends with one are dropped. -/
theorem trim_eq {gap core tail : List Char} (hgap : ∀ c ∈ gap, isBlank c = true)
    (hhead : core.head?.any isBlank = false) (hlast : core.getLast?.any isBlank = false)
    (hne : core ≠ []) (htail : ∀ c ∈ tail, isBlank c = true) :
    trim (gap ++ core ++ tail) = core := by
  have hfront : (gap ++ core ++ tail).dropWhile isBlank = core ++ tail := by
    obtain ⟨c, cs, rfl⟩ := List.exists_cons_of_ne_nil hne
    have hc : isBlank c = false := hhead
    rw [List.append_assoc, List.dropWhile_append_of_pos hgap, List.cons_append,
      List.dropWhile_cons_of_neg (by simp [hc])]
  have hback : (tail.reverse ++ core.reverse).dropWhile isBlank = core.reverse := by
    obtain ⟨cs, c, rfl⟩ : ∃ cs c, core = cs ++ [c] :=
      ⟨_, _, (List.dropLast_append_getLast hne).symm⟩
    have hc : isBlank c = false := by simpa using hlast
    rw [List.dropWhile_append_of_pos (by simpa using htail), List.reverse_append,
      List.reverse_singleton, List.singleton_append, List.dropWhile_cons_of_neg (by simp [hc])]
  rw [trim, trimBy, hfront, List.reverse_append, hback, List.reverse_reverse]

theorem trim_of_blank (h : ∀ c ∈ xs, isBlank c = true) : trim xs = [] := by
  have hnone : xs.dropWhile isBlank = [] := List.dropWhile_eq_nil_iff.mpr h
  rw [trim, trimBy, hnone]
  rfl

end Text

namespace Fragment

open Text

/-! ## The last line -/

/-- The number of the last line that is not blank, counted from one, and zero if there is none. -/
def lastLineNumber (cs : List Char) : Nat :=
  ((lines cs).rdropWhile fun line => line.all isBlank).length

theorem lastLine?_of_blank {cs : List Char} (h : ∀ c ∈ cs, isBlank c = true) :
    lastLine? cs = none := by
  rw [lastLine?, List.getLast?_eq_none_iff, List.filter_eq_nil_iff]
  intro line hline
  obtain ⟨raw, hraw, rfl⟩ := List.mem_map.mp hline
  rw [trim_of_blank fun c hc => h c (mem_of_mem_lines hraw hc)]
  simp

theorem lastLineNumber_of_blank {cs : List Char} (h : ∀ c ∈ cs, isBlank c = true) :
    lastLineNumber cs = 0 := by
  rw [lastLineNumber, List.length_eq_zero_iff, List.rdropWhile_eq_nil_iff]
  intro line hline
  exact List.all_eq_true.mpr fun c hc => h c (mem_of_mem_lines hline hc)

/-- A text around its last line that is not blank: whole lines, the blanks that line begins with,
the line from its first to its last character that is not blank, and blanks behind it. -/
structure LastLineAt (front gap core back : List Char) : Prop where
  plain : PlainLines (front ++ (gap ++ core ++ back))
  front_ended : front = [] ∨ ∃ cs, front = cs ++ ['\n']
  gap_blank : ∀ c ∈ gap, isBlank c = true
  gap_line : '\n' ∉ gap
  core_line : '\n' ∉ core
  core_head : core.head?.any isBlank = false
  core_last : core.getLast?.any isBlank = false
  core_ne : core ≠ []
  back_blank : ∀ c ∈ back, isBlank c = true

namespace LastLineAt

variable {front gap core back : List Char}

/-- The lines of the text, with the last one that is not blank among them. -/
theorem exists_lines (h : LastLineAt front gap core back) :
    ∃ above tail below,
      lines (front ++ (gap ++ core ++ back)) = above ++ (gap ++ core ++ tail) :: below ∧
      above.length = front.count '\n' ∧ (∀ c ∈ tail, isBlank c = true) ∧
      ∀ line ∈ below, ∀ c ∈ line, isBlank c = true := by
  have hfront : PlainLines front := fun c hc => h.plain c (List.mem_append_left _ hc)
  have hrest : PlainLines (gap ++ core ++ back) :=
    fun c hc => h.plain c (List.mem_append_right _ hc)
  obtain ⟨above, hlines, habove⟩ := exists_lines_append hfront h.front_ended (gap ++ core ++ back)
  have hline : '\n' ∉ gap ++ core := by
    simp only [List.mem_append, not_or]
    exact ⟨h.gap_line, h.core_line⟩
  have hends : ∀ tail, tail <+: back → '\n' ∉ tail →
      ∀ c ∈ gap ++ core ++ tail, isLineEnd c = false := by
    intro tail hprefix htail c hc
    refine Bool.eq_false_iff.mpr fun hend => ?_
    have hnewline := hrest c ((List.prefix_append_right_inj _).mpr hprefix |>.subset hc) hend
    subst hnewline
    exact (List.mem_append.mp hc).elim hline htail
  by_cases hback : '\n' ∈ back
  · obtain ⟨tail, more, rfl, htail⟩ := List.eq_append_cons_of_mem hback
    have hends := hends tail (List.prefix_append _ _) htail
    refine ⟨above, tail, lines more, ?_, habove, fun c hc => h.back_blank c (by simp [hc]), ?_⟩
    · have hplain : PlainLines (gap ++ core ++ tail) := fun c hc hend => by
        rw [hends c hc] at hend
        cases hend
      rw [hlines, ← List.append_assoc, lines_append_newline hplain, lines_of_line_newline hends]
      rfl
    · intro line hmem c hc
      exact h.back_blank c (by simp [mem_of_mem_lines hmem hc])
  · refine ⟨above, back, [], ?_, habove, h.back_blank, nofun⟩
    rw [hlines, lines_of_line (hends back (List.prefix_refl _) hback) (by simp [h.core_ne])]

theorem lastLine?_eq (h : LastLineAt front gap core back) :
    lastLine? (front ++ (gap ++ core ++ back)) = some core := by
  obtain ⟨above, tail, below, hlines, _, htail, hbelow⟩ := h.exists_lines
  have htrim := trim_eq h.gap_blank h.core_head h.core_last h.core_ne htail
  have hnone : (below.map trim).filter (!·.isEmpty) = [] := by
    rw [List.filter_eq_nil_iff]
    intro line hline
    obtain ⟨raw, hraw, rfl⟩ := List.mem_map.mp hline
    simp [trim_of_blank (hbelow raw hraw)]
  rw [lastLine?, hlines, List.map_append, List.map_cons, htrim, List.filter_append,
    List.filter_cons_of_pos (by simp [h.core_ne]), hnone, List.getLast?_append]
  rfl

theorem lastLineNumber_eq (h : LastLineAt front gap core back) :
    lastLineNumber (front ++ (gap ++ core ++ back)) = 1 + front.count '\n' := by
  obtain ⟨above, tail, below, hlines, habove, _, hbelow⟩ := h.exists_lines
  obtain ⟨c, cs, hcore⟩ := List.exists_cons_of_ne_nil h.core_ne
  have hhead := h.core_head
  have hline : ¬ (gap ++ core ++ tail).all isBlank = true := by
    rw [hcore] at hhead ⊢
    have hc : isBlank c = false := hhead
    simp [hc]
  have hblank : ∀ line ∈ below.reverse, line.all isBlank = true := by
    intro line hmem
    exact List.all_eq_true.mpr (hbelow line (List.mem_reverse.mp hmem))
  have hdrop : ((gap ++ core ++ tail) :: above.reverse).dropWhile (fun line => line.all isBlank) =
      (gap ++ core ++ tail) :: above.reverse :=
    List.dropWhile_cons_of_neg hline
  rw [lastLineNumber, hlines, List.rdropWhile, List.reverse_append, List.reverse_cons,
    List.append_assoc, List.dropWhile_append_of_pos hblank, List.singleton_append, hdrop,
    List.length_reverse, List.length_cons, List.length_reverse, habove, Nat.add_comm]

end LastLineAt

end Fragment

end TokenWalk
