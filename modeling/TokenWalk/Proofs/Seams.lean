import TokenWalk.Proofs.Lexemes

/-!
# Seams

What follows a lexeme can change it: a digit makes a number longer, a quote ends a string literal.
A blank does not, except that it makes blanks longer and that a line comment only ends at a line
end; and it changes nothing about a comment or a string literal that has its end.

* `extent?_append_blank` and its companions compare the extents of the rules with and without a text
  that begins with a blank;
* `first_append` is the result for the first rule;
* `munched_of_mem` and its companions say where a word of a rule is one piece of a text.
-/

namespace TokenWalk

open Text

namespace Rule

/-- The characters that rules look for behind the first one. -/
def isMark (c : Char) : Bool :=
  c == '/' || c == '*' || c == '.' || c == 'e' || c == 'E' || c == '+' || c == '-' ||
    longOperators.any (·.2 == c)

theorem isMark_of_isBlank {b : Char} (h : isBlank b = true) : isMark b = false := by
  simpa using of_isBlank (q := fun c => !isMark c) (by decide +kernel) h

section Blank

variable {p : Char → Bool} {b c : Char} {cs : List Char} {rule : Rule} {n : Nat}

theorem takeWhile_append_stop (hb : p b = false) (cs ds : List Char) :
    (cs ++ b :: ds).takeWhile p = cs.takeWhile p := by
  induction cs with
  | nil => simp [hb]
  | cons c cs ih => simp only [List.cons_append, List.takeWhile_cons, ih]

theorem dropWhile_append_stop (hb : p b = false) (cs ds : List Char) :
    (cs ++ b :: ds).dropWhile p = cs.dropWhile p ++ b :: ds := by
  induction cs with
  | nil => simp [hb]
  | cons c cs ih =>
    simp only [List.cons_append, List.dropWhile_cons, ih]
    split <;> rfl

theorem run_append_stop (hb : p b = false) (cs ds : List Char) :
    run p (cs ++ b :: ds) = run p cs := by
  rw [run, run, takeWhile_append_stop hb]

theorem exponent_append_blank (hb : isBlank b = true) (cs ds : List Char) :
    exponent (cs ++ b :: ds) = exponent cs := by
  have hmark := isMark_of_isBlank hb
  have hdigit := isDigit_of_isBlank hb
  simp only [isMark, Bool.or_eq_false_iff] at hmark
  cases cs with
  | nil => simp [exponent, hmark]
  | cons e cs =>
    cases cs with
    | nil => simp [exponent, hmark, run, hdigit]
    | cons sign cs =>
      have hrest := run_append_stop hdigit cs ds
      have hall := run_append_stop hdigit (sign :: cs) ds
      simp only [List.cons_append] at hall ⊢
      simp only [exponent, hrest, hall]

theorem notMem_longOperators_of_isBlank (hb : isBlank b = true) (c : Char) :
    (c, b) ∉ longOperators := by
  have hmark := isMark_of_isBlank hb
  simp only [isMark, Bool.or_eq_false_iff] at hmark
  intro hmem
  exact List.any_eq_false.mp hmark.2 _ hmem (beq_self_eq_true b)

/-- The rules whose words a blank cannot continue or complete. -/
def endsAtBlank : Rule → Bool
  | .blank => false
  | .lineComment => false
  | .blockComment => false
  | .string => false
  | _ => true

theorem extent?_append_blank (hb : isBlank b = true) (hrule : rule.endsAtBlank = true)
    (c : Char) (cs ds : List Char) : extent? c (cs ++ b :: ds) rule = extent? c cs rule := by
  have hmark := isMark_of_isBlank hb
  have hdigit := isDigit_of_isBlank hb
  simp only [isMark, Bool.or_eq_false_iff, beq_eq_false_iff_ne] at hmark
  cases rule with
  | blank | lineComment | blockComment | string => cases hrule
  | newline | openString | punctuation | unmatched => rfl
  | openComment =>
    cases cs with
    | nil =>
      have hstar : b ≠ '*' := hmark.1.1.1.1.1.1.2
      simp [extent?, hstar]
    | cons d cs =>
      simp only [extent?, List.cons_append]
      split <;> split <;> simp_all
  | float =>
    have hpoint : b ≠ '.' := hmark.1.1.1.1.1.2
    simp only [extent?, run_append_stop hdigit, dropWhile_append_stop hdigit]
    cases hcs : cs.dropWhile isDigit with
    | nil => simp [hpoint]
    | cons x xs =>
      by_cases hx : x = '.'
      · simp only [hx, List.cons_append, run_append_stop hdigit, dropWhile_append_stop hdigit,
          exponent_append_blank hb]
      · simp [hx]
  | integer =>
    simp only [extent?, run_append_stop hdigit, dropWhile_append_stop hdigit,
      exponent_append_blank hb]
  | name => simp only [extent?, run_append_stop (inName_of_isBlank hb)]
  | operator =>
    cases cs with
    | nil =>
      have hpair := notMem_longOperators_of_isBlank hb c
      simp [extent?, hpair]
    | cons d cs => rfl

theorem commentEnd?_append (h : commentEnd? cs = some n) (ds : List Char) :
    commentEnd? (cs ++ ds) = some n := by
  fun_induction commentEnd? cs generalizing n with
  | case1 cs => exact h
  | case2 c cs hopen ih =>
    obtain ⟨k, hk, rfl⟩ := Option.map_eq_some_iff.mp h
    rw [List.cons_append, commentEnd?, ih hk]
    · rfl
    · -- What the comment ends in is part of `cs`, so `cs` is not empty.
      intro rest hc hrest
      cases cs with
      | nil => cases hk
      | cons d cs =>
        obtain ⟨rfl, _⟩ := List.cons.inj hrest
        exact hopen cs hc rfl
  | case3 => cases h

theorem stringEnd?_append {quote : Char} (hquote : quote ≠ '\\') (h : stringEnd? quote cs = some n)
    (ds : List Char) : stringEnd? quote (cs ++ ds) = some n := by
  fun_induction stringEnd? quote cs generalizing n with
  | case1 => cases h
  | case2 x cs ih =>
    obtain ⟨k, hk, rfl⟩ := Option.map_eq_some_iff.mp h
    rw [List.cons_append, List.cons_append, stringEnd?, ih hk]
    rfl
  | case3 c cs hescape hlast =>
    rw [List.cons_append, stringEnd?, if_pos hlast]
    · exact h
    · intro x rest hc _
      exact hquote ((beq_iff_eq.mp hlast).symm.trans hc)
  | case4 => cases h
  | case5 c cs hescape hlast hslash ih =>
    obtain ⟨k, hk, rfl⟩ := Option.map_eq_some_iff.mp h
    rw [List.cons_append, stringEnd?, if_neg hlast, if_neg hslash, ih hk]
    · rfl
    · intro x rest hc _
      exact hslash (beq_iff_eq.mpr hc)

theorem extent?_blockComment_append (h : extent? c cs .blockComment = some n) (ds : List Char) :
    extent? c (cs ++ ds) .blockComment = some n := by
  obtain ⟨body, rfl, rfl, _⟩ := extent?_blockComment h
  obtain ⟨k, hk, rfl⟩ := Option.map_eq_some_iff.mp h
  simp only [extent?, List.cons_append, commentEnd?_append hk]
  rfl

theorem extent?_string_append (h : extent? c cs .string = some n) (ds : List Char) :
    extent? c (cs ++ ds) .string = some n := by
  simp only [extent?, Option.ite_none_right_eq_some] at h ⊢
  obtain ⟨hquote, hend⟩ := h
  refine ⟨hquote, stringEnd?_append ?_ hend ds⟩
  rintro rfl
  cases hquote

/-- A comment with an end is also the opening of one. -/
theorem blockComment_of_openComment (h : extent? c cs .openComment = none) :
    extent? c cs .blockComment = none := by
  refine Option.eq_none_iff_forall_ne_some.mpr fun n hn => ?_
  obtain ⟨ds, rfl, rfl, _⟩ := extent?_blockComment hn
  cases h

theorem string_of_openString (h : extent? c cs .openString = none) :
    extent? c cs .string = none := by
  simp only [extent?, ite_eq_right_iff] at h ⊢
  intro hquote
  cases h hquote

theorem lineComment_append_blank (hb : isBlank b = true) (h : extent? c cs .lineComment = none)
    (ds : List Char) : extent? c (cs ++ b :: ds) .lineComment = none := by
  have hmark := isMark_of_isBlank hb
  simp only [isMark, Bool.or_eq_false_iff, beq_eq_false_iff_ne] at hmark
  refine Option.eq_none_iff_forall_ne_some.mpr fun n hn => ?_
  obtain ⟨rest, rfl, hcs, _⟩ := extent?_lineComment hn
  cases cs with
  | nil => exact hmark.1.1.1.1.1.1.1 (List.cons.inj hcs).1
  | cons d cs =>
    rw [(List.cons.inj hcs).1] at h
    cases h

/-- A text that begins with a blank behind it leaves the first rule of a piece as it is, unless the
piece can go on with that blank or looks for its end. -/
theorem first_append (hb : isBlank b = true) (h : first c cs = (rule, n))
    (hcomment : rule ≠ .openComment) (hstring : rule ≠ .openString)
    (hlayout : rule = .blank ∨ rule = .lineComment → b = '\n') (ds : List Char) :
    first c (cs ++ b :: ds) = (rule, n) := by
  obtain ⟨hextent, hbefore⟩ := first_eq_iff.mp h
  refine first_eq_iff.mpr ⟨?_, fun other hrank => ?_⟩
  · cases rule with
    | openComment => exact absurd rfl hcomment
    | openString => exact absurd rfl hstring
    | blockComment => exact extent?_blockComment_append hextent _
    | string => exact extent?_string_append hextent _
    | blank =>
      rw [hlayout (.inl rfl), ← hextent]
      simp only [extent?, run_append_stop (p := isSpace) (b := '\n') rfl]
    | lineComment =>
      obtain ⟨body, rfl, rfl, _⟩ := extent?_lineComment hextent
      rw [hlayout (.inr rfl), ← hextent]
      simp only [extent?, List.cons_append, run_append_stop (p := (· != '\n')) (b := '\n') rfl]
    | _ =>
      rw [extent?_append_blank hb rfl]
      exact hextent
  · have hnone := hbefore other hrank
    -- A rule that looks for an end would have left its piece to the rule behind it.
    have hopening : ∀ opening : Rule, opening.rank = other.rank + 1 → rule ≠ opening →
        extent? c cs opening = none := by
      intro opening hnext hne
      refine hbefore opening ?_
      have hrank' : rule.rank ≠ opening.rank := fun heq => hne (eq_of_rank_eq heq)
      omega
    cases other with
    | blockComment =>
      apply blockComment_of_openComment
      rw [extent?_append_blank hb rfl]
      exact hopening .openComment rfl hcomment
    | string =>
      apply string_of_openString
      rw [extent?_append_blank hb rfl]
      exact hopening .openString rfl hstring
    | blank =>
      simp only [extent?, ite_eq_right_iff] at hnone ⊢
      intro hspace
      cases hnone hspace
    | lineComment => exact lineComment_append_blank hb hnone ds
    | _ =>
      rw [extent?_append_blank hb rfl]
      exact hnone

/-- A text that is a word of a rule is one piece, by that rule. -/
theorem first_of_mem (h : c :: cs ∈ rule.language) (hrule : rule ≠ .unmatched) :
    first c cs = (rule, cs.length) := by
  obtain ⟨m, hm, hlength⟩ := exists_extent? h (List.prefix_refl _)
  rcases hfirst : first c cs with ⟨other, n⟩
  obtain ⟨hextent, hbefore⟩ := first_eq_iff.mp hfirst
  have hn : n = cs.length := by
    have hle := extent?_le_first hfirst hm
    have hbound := le_of_extent? hextent
    rw [List.length_cons] at hlength
    omega
  rcases Nat.lt_trichotomy other.rank rule.rank with hlt | heq | hgt
  · -- An earlier rule would take more than the whole text.
    have hless := extent?_lt_of_before hextent hm hlt hrule
    rw [List.length_cons] at hlength
    omega
  · rw [eq_of_rank_eq heq, hn]
  · rw [hbefore rule hgt] at hm
    cases hm

/-- A word of a rule that a blank cannot continue is one piece at the end of a text and before a
blank. -/
theorem munched_of_mem {w rest : List Char} (h : w ∈ rule.language)
    (hlayout : rule.isLayout = false) (hfailure : rule.isFailure = false)
    (hrest : ∀ b ds, rest = b :: ds → isBlank b = true) : rule.Munched w rest := by
  cases w with
  | nil => exact absurd h (nil_notMem_language rule)
  | cons c cs =>
    have hfirst : first c cs = (rule, cs.length) := first_of_mem h (by rintro rfl; cases hfailure)
    have happend : first c (cs ++ rest) = (rule, cs.length) := by
      cases rest with
      | nil => rwa [List.append_nil]
      | cons b ds =>
        refine first_append (hrest b ds rfl) hfirst ?_ ?_ ?_ ds
        · rintro rfl
          cases hfailure
        · rintro rfl
          cases hfailure
        · rintro (rfl | rfl)
          · cases hlayout
          · cases hlayout
    have hmunched := munched_of_first happend
    rwa [List.take_left, List.drop_left] at hmunched

/-- A line comment goes on to the line end. -/
theorem munched_lineComment {w : List Char} (h : w ∈ Rule.lineComment.language) (ds : List Char) :
    Munched .lineComment w ('\n' :: ds) := by
  cases w with
  | nil => exact absurd h (nil_notMem_language _)
  | cons c cs =>
    have hfirst := first_of_mem h (by decide)
    have happend := first_append (b := '\n') (by decide) hfirst (by decide) (by decide)
      (fun _ => rfl) ds
    have hmunched := munched_of_first happend
    rwa [List.take_left, List.drop_left] at hmunched

/-- A comment with its end is one piece, whatever follows. -/
theorem munched_blockComment {w : List Char} (h : w ∈ Rule.blockComment.language)
    (rest : List Char) : Munched .blockComment w rest := by
  cases w with
  | nil => exact absurd h (nil_notMem_language _)
  | cons c cs =>
    have hextent := (first_eq_iff.mp (first_of_mem h (by decide))).1
    obtain ⟨body, rfl, rfl, _⟩ := extent?_blockComment hextent
    have happend : first '/' ('*' :: body ++ rest) = (.blockComment, ('*' :: body).length) := by
      refine first_eq_iff.mpr ⟨extent?_blockComment_append hextent rest, fun other hrank => ?_⟩
      cases other with
      | newline | blank | lineComment => rfl
      | _ => exact absurd hrank (by decide)
    have hmunched := munched_of_first happend
    rwa [List.take_left, List.drop_left] at hmunched

end Blank

end Rule

end TokenWalk
