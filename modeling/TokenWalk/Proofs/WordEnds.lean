import TokenWalk.Proofs.FragmentBraces
import TokenWalk.Proofs.LastLine
import TokenWalk.Proofs.Positions

/-!
# Where words begin and end

Lexical rules and the tests of a fragment's last line each have a notion of a word.  A name is a
longest row of word characters and dollars that does not begin with a digit; the tests look for a
word with no word character beside it.

* `EndsIn` and `endsIn_of_ne_name`: only names end in a letter, so a word character in front of a
  name is the last digit of a number (`Munched.isDigit_getLast`);
* `beginsWith_iff_of_name` and `endsWith_iff_of_name` say for one name when the tests find a word at
  that end of it: if it is the word, or if a dollar divides the word from the rest of the name.
-/

namespace TokenWalk

open Text
open scoped Computability

/-! ## Digits and letters -/

namespace Text

/-- A digit stands less than ten behind the zero of its script. -/
theorem exists_digitZeros {c : Char} (h : isDigit c = true) :
    ∃ first ∈ digitZeros, first ≤ c.toNat ∧ c.toNat < first + 10 := by
  simp only [isDigit, digitValue?] at h
  split at h
  · split at h
    · rename_i hdigit
      simp only [Char.isDigit, Bool.and_eq_true, decide_eq_true_eq] at hdigit
      obtain ⟨hle, hlt⟩ := hdigit
      have hle : 0x30 ≤ c.toNat := hle
      have hlt : c.toNat ≤ 0x39 := hlt
      exact ⟨0x30, by decide, hle, by omega⟩
    · cases h
  · rw [Option.isSome_map] at h
    obtain ⟨first, hfirst⟩ := Option.isSome_iff_exists.mp h
    have hrange := List.find?_some hfirst
    simp only [Bool.and_eq_true, decide_eq_true_eq] at hrange
    exact ⟨first, List.mem_of_find?_eq_some hfirst, hrange⟩

/-- The ten code points from `first` on lie in one of the ranges. -/
def spans (ranges : List (Nat × Nat)) (first : Nat) : Bool :=
  ranges.any fun range => range.1 ≤ first && first + 9 ≤ range.2

theorem inRanges_of_spans {ranges : List (Nat × Nat)} {first n : Nat}
    (h : spans ranges first = true) (hle : first ≤ n) (hlt : n < first + 10) :
    inRanges ranges n = true := by
  obtain ⟨range, hrange, hspan⟩ := List.any_eq_true.mp h
  simp only [Bool.and_eq_true, decide_eq_true_eq] at hspan
  refine List.any_eq_true.mpr ⟨range, hrange, ?_⟩
  simp only [Bool.and_eq_true, decide_eq_true_eq]
  omega

theorem isWord_of_isDigit {c : Char} (h : isDigit c = true) : isWord c = true := by
  -- Digits come in rows of ten, and no range of the tables cuts such a row.
  have hrows : ∀ first ∈ digitZeros, first = 0x30 ∨
      (0x80 ≤ first ∧ first + 9 < 0x2000 ∧ spans earlyAlphanumerics first = true) ∨
      (0x2000 ≤ first ∧ first + 9 < 0x10000 ∧ spans middleAlphanumerics first = true) ∨
      (0x10000 ≤ first ∧ spans lateAlphanumerics first = true) := by
    decide +kernel
  obtain ⟨first, hfirst, hle, hlt⟩ := exists_digitZeros h
  have halphanumeric : isAlphanumeric c = true := by
    simp only [isAlphanumeric]
    rcases hrows first hfirst with rfl | ⟨hlow, hhigh, hspans⟩ | ⟨hlow, hhigh, hspans⟩ |
      ⟨hlow, hspans⟩
    · rw [if_pos (by omega)]
      have hdigit : c.isDigit = true := by
        simp only [Char.isDigit, Bool.and_eq_true, decide_eq_true_eq]
        exact ⟨hle, Nat.le_of_lt_succ hlt⟩
      rw [Char.isAlphanum, hdigit, Bool.or_true]
    · rw [if_neg (by omega), if_pos (by omega)]
      exact inRanges_of_spans hspans hle hlt
    · rw [if_neg (by omega), if_neg (by omega), if_pos (by omega)]
      exact inRanges_of_spans hspans hle hlt
    · rw [if_neg (by omega), if_neg (by omega), if_neg (by omega)]
      exact inRanges_of_spans hspans hle hlt
  rw [isWord, halphanumeric, Bool.true_or]

end Text

namespace Rule

variable {p q : Char → Bool} {L M : Language Char} {rule : Rule} {c : Char}
variable {w text rest : List Char}

/-! ## Last characters -/

/-- All words end in a character with the property. -/
def EndsIn (p : Char → Bool) (L : Language Char) : Prop :=
  ∀ w ∈ L, ∃ u c, w = u ++ [c] ∧ p c = true

theorem endsIn_one (h : ∀ c, q c = true → p c = true) : EndsIn p (one q) := by
  intro w hw
  obtain ⟨c, hc, rfl⟩ := mem_one.mp hw
  exact ⟨[], c, rfl, h c hc⟩

theorem EndsIn.mul (hM : EndsIn p M) : EndsIn p (L * M) := by
  intro w hw
  obtain ⟨u, _, v, hv, rfl⟩ := Language.mem_mul.mp hw
  obtain ⟨v, c, rfl, hc⟩ := hM v hv
  exact ⟨u ++ v, c, (List.append_assoc u v [c]).symm, hc⟩

/-- A language that a further one may follow. -/
theorem EndsIn.mul_optional (hL : EndsIn p L) (hM : EndsIn p M) : EndsIn p (L * (1 + M)) := by
  intro w hw
  obtain ⟨u, hu, v, hv | hv, rfl⟩ := Language.mem_mul.mp hw
  · rw [(Language.mem_one v).mp hv, List.append_nil]
    exact hL u hu
  · exact hM.mul _ (Language.append_mem_mul hu hv)

theorem EndsIn.mul_star (hL : EndsIn p L) (h : ∀ c, q c = true → p c = true) :
    EndsIn p (L * (one q)∗) := by
  intro w hw
  obtain ⟨u, hu, v, hv, rfl⟩ := Language.mem_mul.mp hw
  rcases List.eq_nil_or_concat v with rfl | ⟨v, c, rfl⟩
  · rw [List.append_nil]
    exact hL u hu
  · refine ⟨u ++ v, c, ?_, h c (mem_star_one.mp hv c (by simp))⟩
    rw [List.concat_eq_append, List.append_assoc]

/-- Outside string literals and comments, only a name can end in a letter. -/
theorem endsIn_of_ne_name (hname : rule ≠ .name) (hfailure : rule.isFailure = false)
    (henclosing : rule.isEnclosing = false) :
    EndsIn (fun c => !isWordStart c) rule.language := by
  have hblank : ∀ c, isBlank c = true → (!isWordStart c) = true := by
    intro c hc
    simp [isWordStart, isWord_of_isBlank hc]
  have hspace : ∀ c, isSpace c = true → (!isWordStart c) = true := fun c hc =>
    hblank c (Bool.and_eq_true_iff.mp hc).1
  have hdigit : ∀ c, isDigit c = true → (!isWordStart c) = true := by
    intro c hc
    simp [isWordStart, hc]
  have hdigits : EndsIn (fun c => !isWordStart c) digits := (endsIn_one hdigit).mul_star hdigit
  have hpower : EndsIn (fun c => !isWordStart c) power := hdigits.mul.mul
  cases rule with
  | newline =>
    refine endsIn_one fun c hc => hblank c ?_
    rw [beq_iff_eq.mp hc]
    decide
  | blank => exact (endsIn_one hspace).mul_star hspace
  | float =>
    have hpoint : EndsIn (fun c => !isWordStart c) (char '.') := by
      refine endsIn_one fun c hc => ?_
      rw [beq_iff_eq.mp hc]
      decide
    rw [language, ← mul_assoc (char '.')]
    exact ((hpoint.mul_star hdigit).mul_optional hpower).mul
  | integer => exact hdigits.mul_optional hpower
  | name => exact absurd rfl hname
  | operator =>
    have hall : shortOperators.all (fun c => !isWordStart c) = true := by decide
    have hpairs : longOperators.all (fun ab => !isWordStart ab.2) = true := by decide
    rw [List.all_eq_true] at hall hpairs
    rintro w (⟨a, b, hab, rfl⟩ | hw)
    · exact ⟨[a], b, rfl, hpairs (a, b) (List.contains_iff_mem.mp hab)⟩
    · exact endsIn_one (fun c hc => hall c (List.contains_iff_mem.mp hc)) w hw
  | punctuation =>
    have hall : punctuationMarks.all (fun c => !isWordStart c) = true := by decide
    rw [List.all_eq_true] at hall
    exact endsIn_one fun c hc => hall c (List.contains_iff_mem.mp hc)
  | openComment | openString | unmatched => cases hfailure
  | lineComment | blockComment | string => cases henclosing

/-- A class of characters that no blank is in. -/
theorem not_isBlank_of (h : blankCodes.all (fun n => !q (Char.ofNat n)) = true) (c : Char)
    (hc : q c = true) : (!isBlank c) = true := by
  cases hblank : isBlank c with
  | false => rfl
  | true =>
    have hnot := of_isBlank (q := fun c => !q c) h hblank
    rw [hc] at hnot
    cases hnot

/-- String literals apart, words outside the layout have no blanks. -/
theorem within_of_not_isLayout (hlayout : rule.isLayout = false) (hfailure : rule.isFailure = false)
    (henclosing : rule.isEnclosing = false) : Within (fun c => !isBlank c) rule.language := by
  have hdigit := not_isBlank_of (q := isDigit) (by decide +kernel)
  have hpower : Within (fun c => !isBlank c) (1 + power) :=
    within_power hdigit (not_isBlank_of (by decide +kernel)) (not_isBlank_of (by decide +kernel))
  cases rule with
  | newline | blank | lineComment | blockComment => cases hlayout
  | float =>
    have hpoint : Within (fun c => !isBlank c) (char '.') :=
      within_one (not_isBlank_of (by decide +kernel))
    exact (within_digits hdigit).mul (hpoint.mul ((within_star_one hdigit).mul hpower))
  | integer => exact (within_digits hdigit).mul hpower
  | name =>
    refine (within_one (not_isBlank_of ?_)).mul (within_star_one (not_isBlank_of ?_))
    all_goals decide +kernel
  | operator =>
    have hpairs : ∀ ab ∈ longOperators, (!isBlank ab.1) = true ∧ (!isBlank ab.2) = true := by decide
    refine Within.add ?_ (within_one (not_isBlank_of (by decide +kernel)))
    rintro w ⟨a, b, hab, rfl⟩ c hc
    obtain ⟨ha, hb⟩ := hpairs (a, b) (List.contains_iff_mem.mp hab)
    rcases List.mem_pair.mp hc with rfl | rfl
    · exact ha
    · exact hb
  | punctuation => exact within_one (not_isBlank_of (by decide +kernel))
  | openComment | openString | unmatched => cases hfailure
  | string => cases henclosing

/-! ## Names -/

theorem mem_name : w ∈ Rule.name.language ↔
    ∃ c v, startsName c = true ∧ (∀ d ∈ v, inName d = true) ∧ w = c :: v := by
  rw [language, mem_one_mul]
  simp only [mem_star_one]

theorem inName_of_startsName (h : startsName c = true) : inName c = true := by
  simp only [startsName, isWordStart, Bool.or_eq_true, Bool.and_eq_true] at h
  simp only [inName, Bool.or_eq_true]
  exact h.imp_left And.left

theorem inName_of_mem_name (h : w ∈ Rule.name.language) (hc : c ∈ w) : inName c = true := by
  obtain ⟨d, v, hd, hv, rfl⟩ := mem_name.mp h
  rcases List.mem_cons.mp hc with rfl | hc
  · exact inName_of_startsName hd
  · exact hv c hc

/-- A piece that begins like a name is one. -/
theorem Munched.eq_name (h : Munched rule (c :: text) rest) (hc : startsName c = true)
    (hfailure : rule.isFailure = false) : rule = .name := by
  have hrule := mem_rules_of_extent? (first_eq_iff.mp (first_of_munched h)).1
  rw [Head.of_name hc] at hrule
  simp only [Head.rules, List.mem_cons, List.not_mem_nil, or_false] at hrule
  rcases hrule with rfl | rfl
  · rfl
  · cases hfailure

/-- A name goes on as far as it can. -/
theorem Munched.head_rest (h : Munched .name text rest) : rest.head?.any inName = false := by
  cases rest with
  | nil => rfl
  | cons d rest =>
    refine Bool.eq_false_iff.mpr fun hd => ?_
    have hd : inName d = true := hd
    obtain ⟨c, v, hc, hv, rfl⟩ := mem_name.mp h.mem
    -- With one more character it would still be a name, and longer.
    have hlonger : c :: v ++ [d] ∈ Rule.name.language := by
      refine mem_name.mpr ⟨c, v ++ [d], hc, fun e he => ?_, rfl⟩
      rcases List.mem_append.mp he with he | he
      · exact hv e he
      · rw [List.mem_singleton.mp he]
        exact hd
    have hlength := h.longest .name _ hlonger ⟨rest, by simp⟩
    rw [List.length_append, List.length_singleton] at hlength
    omega

/-- A word character just before a name is the last digit of a number. -/
theorem Munched.isDigit_getLast (h : Munched rule text (c :: rest)) (hc : startsName c = true)
    (hfailure : rule.isFailure = false) (henclosing : rule.isEnclosing = false)
    (hword : text.getLast?.any isWord = true) : text.getLast?.any isDigit = true := by
  have hname : rule ≠ .name := by
    rintro rfl
    have hrest : inName c = false := h.head_rest
    rw [inName_of_startsName hc] at hrest
    cases hrest
  obtain ⟨u, d, rfl, hd⟩ := endsIn_of_ne_name hname hfailure henclosing text h.mem
  simp only [List.getLast?_concat, Option.any_some] at hword ⊢
  simpa [isWordStart, hword] using hd

end Rule

/-! ## Words at the ends of a line -/

namespace Fragment

variable {word line front back before w rest : List Char} {c : Char}

theorem beginsWith_iff :
    beginsWith word line = true ↔ ∃ back, line = word ++ back ∧ back.head?.any isWord = false := by
  simp only [beginsWith, Bool.and_eq_true, List.isPrefixOf_iff_prefix, Bool.not_eq_true']
  constructor
  · rintro ⟨⟨back, rfl⟩, hback⟩
    rw [List.drop_left] at hback
    exact ⟨back, rfl, hback⟩
  · rintro ⟨back, rfl, hback⟩
    rw [List.drop_left]
    exact ⟨List.prefix_append word back, hback⟩

theorem endsWith_iff :
    endsWith word line = true ↔
      ∃ front, line = front ++ word ∧ front.getLast?.any isWord = false := by
  simp only [endsWith, Bool.and_eq_true, List.isSuffixOf_iff_suffix, Bool.not_eq_true']
  have htake : ∀ front : List Char,
      (front ++ word).take ((front ++ word).length - word.length) = front := by
    intro front
    rw [List.length_append, Nat.add_sub_cancel, List.take_left]
  constructor
  · rintro ⟨⟨front, rfl⟩, hfront⟩
    rw [htake] at hfront
    exact ⟨front, rfl, hfront⟩
  · rintro ⟨front, rfl, hfront⟩
    rw [htake]
    exact ⟨List.suffix_append front word, hfront⟩

/-- What ends in no word character can be left out before the end of a line. -/
theorem endsWith_append (hword : ∀ c ∈ word, isWord c = true)
    (hfront : front.getLast?.any isWord = false) :
    endsWith word (front ++ line) = endsWith word line := by
  rw [Bool.eq_iff_iff, endsWith_iff, endsWith_iff]
  constructor
  · rintro ⟨u, heq, hu⟩
    rcases List.append_eq_append_iff.mp heq with ⟨m, rfl, rfl⟩ | ⟨m, rfl, rfl⟩
    · refine ⟨m, rfl, ?_⟩
      rcases List.eq_nil_or_concat m with rfl | ⟨m, c, rfl⟩
      · rfl
      · simpa [List.getLast?_append] using hu
    · rcases List.eq_nil_or_concat m with rfl | ⟨m, c, rfl⟩
      · exact ⟨[], rfl, rfl⟩
      · have hc := hword c (by simp)
        simp [List.getLast?_append, hc] at hfront
  · rintro ⟨u, rfl, hu⟩
    refine ⟨front ++ u, (List.append_assoc front u word).symm, ?_⟩
    rcases List.eq_nil_or_concat u with rfl | ⟨u, c, rfl⟩
    · rw [List.append_nil]
      exact hfront
    · simpa [List.getLast?_append] using hu

/-- A name beside which more follows has a word as its front part for the tests if it is the word,
or if a dollar comes behind the word. -/
theorem beginsWith_iff_of_name (hword : ∀ c ∈ word, Rule.inName c = true)
    (hname : w ∈ Rule.name.language) (hrest : rest.head?.any Rule.inName = false) :
    beginsWith word (w ++ rest) = true ↔ w = word ∨ word ++ ['$'] <+: w := by
  rw [beginsWith_iff]
  constructor
  · rintro ⟨back, heq, hback⟩
    rcases List.append_eq_append_iff.mp heq with ⟨m, rfl, rfl⟩ | ⟨m, rfl, rfl⟩
    · cases m with
      | nil => exact .inl (List.append_nil w).symm
      | cons c m =>
        have hc : Rule.inName c = false := hrest
        rw [hword c (by simp)] at hc
        cases hc
    · cases m with
      | nil => exact .inl (List.append_nil word)
      | cons c m =>
        have hc : isWord c = false := hback
        have hdollar := Rule.inName_of_mem_name hname (c := c) (by simp)
        rw [Rule.inName, hc, Bool.false_or, beq_iff_eq] at hdollar
        subst hdollar
        exact .inr ⟨m, by simp⟩
  · rintro (rfl | ⟨m, rfl⟩)
    · refine ⟨rest, rfl, ?_⟩
      cases rest with
      | nil => rfl
      | cons d rest =>
        have hd : Rule.inName d = false := hrest
        exact (Bool.or_eq_false_iff.mp hd).1
    · have hdollar : isWord '$' = false := by decide
      exact ⟨'$' :: (m ++ rest), by simp, hdollar⟩

/-- A name has a word as its last part for the tests if it is the word, with no word character
before it, or if a dollar stands before the word. -/
theorem endsWith_iff_of_name (hword : ∀ c ∈ word, isWordStart c = true)
    (hname : w ∈ Rule.name.language)
    (hbefore : before.getLast?.any isWord = true → before.getLast?.any isDigit = true) :
    endsWith word (before ++ w) = true ↔
      (w = word ∧ before.getLast?.any isWord = false) ∨ '$' :: word <:+ w := by
  rw [endsWith_iff]
  constructor
  · rintro ⟨u, heq, hu⟩
    rcases List.append_eq_append_iff.mp heq with ⟨m, rfl, rfl⟩ | ⟨m, rfl, rfl⟩
    · rcases List.eq_nil_or_concat m with rfl | ⟨m, c, rfl⟩
      · rw [List.append_nil] at hu
        exact .inl ⟨rfl, hu⟩
      · rw [List.concat_eq_append] at hname hu ⊢
        have hc : isWord c = false := by simpa [List.getLast?_append] using hu
        have hdollar := Rule.inName_of_mem_name hname (c := c) (by simp)
        rw [Rule.inName, hc, Bool.false_or, beq_iff_eq] at hdollar
        subst hdollar
        exact .inr ⟨m, by simp⟩
    · rcases List.eq_nil_or_concat m with rfl | ⟨m, c, rfl⟩
      · rw [List.append_nil]
        exact .inl ⟨rfl, hu⟩
      · -- The word would begin before the name, with a letter just in front of it.
        have hc := hword c (by simp)
        simp only [isWordStart, Bool.and_eq_true, Bool.not_eq_true'] at hc
        simp [List.getLast?_append, hc] at hbefore
  · rintro (⟨rfl, hlast⟩ | ⟨m, rfl⟩)
    · exact ⟨before, rfl, hlast⟩
    · refine ⟨before ++ m ++ ['$'], by simp, ?_⟩
      rw [List.getLast?_concat]
      decide

/-- A line that ends in no letter does not end with a word. -/
theorem endsWith_of_not_isWordStart (hword : ∀ c ∈ word, isWordStart c = true) (hne : word ≠ [])
    (hc : isWordStart c = false) : endsWith word (front ++ [c]) = false := by
  refine Bool.eq_false_iff.mpr fun h => ?_
  obtain ⟨u, heq, _⟩ := endsWith_iff.mp h
  rcases List.eq_nil_or_concat word with rfl | ⟨v, d, rfl⟩
  · exact hne rfl
  · rw [List.concat_eq_append, ← List.append_assoc] at heq
    obtain rfl : c = d := by simpa using (List.append_inj' heq rfl).2
    rw [hword c (by simp)] at hc
    cases hc

end Fragment

end TokenWalk
