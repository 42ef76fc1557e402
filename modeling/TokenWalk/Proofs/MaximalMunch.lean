import TokenWalk.Proofs.RuleWords

/-!
# Maximal munch

Cutting takes the first rule that applies, not the one with the longest word.  The two agree: rules
that can begin with the same character stand in the order of their lengths there.

* `Head` sorts characters by the rules that can begin with them, and `extent?_lt_of_before` compares
  two rules with the same head;
* `Munched` says what maximal munch asks of one piece, without a scan: a longest word of any rule, by
  the earliest rule that has it;
* `munched_of_first` and `first_of_munched` show that cutting takes exactly that piece.
-/

namespace TokenWalk

open Text
open scoped Computability

/-! ## Blanks are in no word -/

namespace Text

/-- The code points of the blanks. -/
def blankCodes : List Nat :=
  [0x09, 0x0A, 0x0B, 0x0C, 0x0D, 0x1C, 0x1D, 0x1E, 0x1F, 0x20, 0x85, 0xA0, 0x1680, 0x2000, 0x2001,
   0x2002, 0x2003, 0x2004, 0x2005, 0x2006, 0x2007, 0x2008, 0x2009, 0x200A, 0x2028, 0x2029, 0x202F,
   0x205F, 0x3000]

theorem toNat_mem_blankCodes {c : Char} (h : isBlank c = true) : c.toNat ∈ blankCodes := by
  simp only [isBlank, Bool.or_eq_true, Bool.and_eq_true, decide_eq_true_eq, beq_iff_eq] at h
  simp only [blankCodes, List.mem_cons, List.not_mem_nil, or_false]
  omega

/-- What holds of every blank can be checked code point by code point. -/
theorem of_isBlank {q : Char → Bool} (hcodes : blankCodes.all (fun n => q (Char.ofNat n)) = true)
    {c : Char} (h : isBlank c = true) : q c = true := by
  have hc := List.all_eq_true.mp hcodes c.toNat (toNat_mem_blankCodes h)
  rwa [Char.ofNat_toNat] at hc

theorem isWord_of_isBlank {c : Char} (h : isBlank c = true) : isWord c = false := by
  simpa using of_isBlank (q := fun c => !isWord c) (by decide +kernel) h

theorem isDigit_of_isBlank {c : Char} (h : isBlank c = true) : isDigit c = false := by
  simpa using of_isBlank (q := fun c => !isDigit c) (by decide +kernel) h

end Text

namespace Rule

theorem inName_of_isBlank {c : Char} (h : isBlank c = true) : inName c = false := by
  have hdollar : (c == '$') = false := by
    simpa using of_isBlank (q := fun c => c != '$') (by decide +kernel) h
  rw [inName, isWord_of_isBlank h, hdollar]
  rfl

theorem startsName_of_isBlank {c : Char} (h : isBlank c = true) : startsName c = false := by
  have hname := inName_of_isBlank h
  simp only [inName, Bool.or_eq_false_iff] at hname
  simp [startsName, isWordStart, hname]

/-! ## What a first character allows -/

/-- The sorts of characters that a piece can begin with. -/
inductive Head where
  | newline
  | space
  | digit
  | name
  | slash
  | quote
  | sign
  | mark
  | other
  deriving DecidableEq, Repr

namespace Head

/-- The sort of a character. -/
def of (c : Char) : Head :=
  if c == '\n' then .newline
  else if isSpace c then .space
  else if isDigit c then .digit
  else if startsName c then .name
  else if c == '/' then .slash
  else if c == '"' || c == '\'' then .quote
  else if shortOperators.contains c then .sign
  else if punctuationMarks.contains c then .mark
  else .other

/-- The rules whose words can begin with a character of this sort. -/
def rules : Head → List Rule
  | .newline => [.newline, .unmatched]
  | .space => [.blank, .unmatched]
  | .digit => [.float, .integer, .unmatched]
  | .name => [.name, .unmatched]
  | .slash => [.lineComment, .blockComment, .openComment, .operator, .unmatched]
  | .quote => [.string, .openString, .unmatched]
  | .sign => [.operator, .unmatched]
  | .mark => [.punctuation, .unmatched]
  | .other => [.unmatched]

theorem unmatched_mem_rules (head : Head) : .unmatched ∈ head.rules := by
  cases head <;> decide

theorem of_space {c : Char} (h : isSpace c = true) : of c = .space := by
  have hnewline : (c == '\n') = false := by simpa using (Bool.and_eq_true_iff.mp h).2
  simp [of, hnewline, h]

theorem not_newline_and_not_space {c : Char} (h : isBlank c = false) :
    (c == '\n') = false ∧ isSpace c = false := by
  constructor
  · refine beq_eq_false_iff_ne.mpr fun hc => ?_
    rw [hc] at h
    cases h
  · rw [isSpace, h]
    rfl

theorem of_digit {c : Char} (h : isDigit c = true) : of c = .digit := by
  have hblank : isBlank c = false := by
    refine Bool.eq_false_iff.mpr fun hblank => ?_
    rw [isDigit_of_isBlank hblank] at h
    cases h
  obtain ⟨hnewline, hspace⟩ := not_newline_and_not_space hblank
  simp [of, hnewline, hspace, h]

theorem of_name {c : Char} (h : startsName c = true) : of c = .name := by
  have hblank : isBlank c = false := by
    refine Bool.eq_false_iff.mpr fun hblank => ?_
    rw [startsName_of_isBlank hblank] at h
    cases h
  obtain ⟨hnewline, hspace⟩ := not_newline_and_not_space hblank
  have hdigit : isDigit c = false := by
    rcases Bool.or_eq_true_iff.mp h with hword | hdollar
    · simpa using (Bool.and_eq_true_iff.mp hword).2
    · rw [beq_iff_eq.mp hdollar]
      decide
  simp [of, hnewline, hspace, hdigit, h]

theorem of_mark {c : Char} (h : punctuationMarks.contains c = true) : of c = .mark := by
  have hall : punctuationMarks.all (fun c => of c == .mark) = true := by decide +kernel
  exact beq_iff_eq.mp (List.all_eq_true.mp hall c (List.contains_iff_mem.mp h))

theorem operator_mem_rules {c : Char} (h : shortOperators.contains c = true) :
    .operator ∈ (of c).rules := by
  have hall : shortOperators.all (fun c => (of c).rules.contains .operator) = true := by
    decide +kernel
  exact List.contains_iff_mem.mp (List.all_eq_true.mp hall c (List.contains_iff_mem.mp h))

end Head

variable {c : Char} {cs : List Char} {rule rule' : Rule} {n n' : Nat}

theorem contains_of_longOperators {c' : Char} (h : longOperators.contains (c, c') = true) :
    shortOperators.contains c = true := by
  have hall : longOperators.all (fun pair => shortOperators.contains pair.1) = true := by decide
  exact List.all_eq_true.mp hall (c, c') (List.contains_iff_mem.mp h)

theorem extent?_lineComment (h : extent? c cs .lineComment = some n) :
    ∃ ds, c = '/' ∧ cs = '/' :: ds ∧ 0 < n := by
  simp only [extent?] at h
  split at h
  · rename_i ds
    exact ⟨ds, rfl, rfl, by have := Option.some.inj h; omega⟩
  · cases h

theorem two_le_commentEnd? {k : Nat} (h : commentEnd? cs = some k) : 2 ≤ k := by
  fun_induction commentEnd? cs generalizing k with
  | case1 => exact Nat.le_of_eq (Option.some.inj h)
  | case2 c cs _ ih =>
    obtain ⟨j, hj, rfl⟩ := Option.map_eq_some_iff.mp h
    exact Nat.le_succ_of_le (ih hj)
  | case3 => cases h

theorem extent?_blockComment (h : extent? c cs .blockComment = some n) :
    ∃ ds, c = '/' ∧ cs = '*' :: ds ∧ 1 < n := by
  simp only [extent?] at h
  split at h
  · rename_i ds
    obtain ⟨k, hk, rfl⟩ := Option.map_eq_some_iff.mp h
    have hk := two_le_commentEnd? hk
    exact ⟨ds, rfl, rfl, by omega⟩
  · cases h

theorem extent?_openComment (h : extent? c cs .openComment = some n) :
    ∃ ds, c = '/' ∧ cs = '*' :: ds ∧ n = 1 := by
  simp only [extent?] at h
  split at h
  · rename_i ds
    exact ⟨ds, rfl, rfl, (Option.some.inj h).symm⟩
  · cases h

theorem stringEnd?_pos {quote : Char} {k : Nat} (h : stringEnd? quote cs = some k) : 0 < k := by
  fun_induction stringEnd? quote cs generalizing k with
  | case1 => cases h
  | case2 x cs _ =>
    obtain ⟨j, _, rfl⟩ := Option.map_eq_some_iff.mp h
    omega
  | case3 c cs _ _ => exact Nat.lt_of_lt_of_eq Nat.zero_lt_one (Option.some.inj h)
  | case4 => cases h
  | case5 c cs _ _ _ _ =>
    obtain ⟨j, _, rfl⟩ := Option.map_eq_some_iff.mp h
    omega

/-- A rule that applies is one of those its first character allows. -/
theorem mem_rules_of_extent? (h : extent? c cs rule = some n) : rule ∈ (Head.of c).rules := by
  cases rule with
  | newline =>
    simp only [extent?, Option.ite_none_right_eq_some, beq_iff_eq] at h
    rw [h.1]
    decide
  | blank =>
    simp only [extent?, Option.ite_none_right_eq_some] at h
    rw [Head.of_space h.1]
    decide
  | lineComment =>
    obtain ⟨ds, rfl, _⟩ := extent?_lineComment h
    decide +kernel
  | blockComment =>
    obtain ⟨ds, rfl, _⟩ := extent?_blockComment h
    decide +kernel
  | openComment =>
    obtain ⟨ds, rfl, _⟩ := extent?_openComment h
    decide +kernel
  | string | openString =>
    simp only [extent?, Option.ite_none_right_eq_some, Bool.or_eq_true_iff, beq_iff_eq] at h
    rcases h.1 with hc | hc
    · rw [hc]
      decide +kernel
    · rw [hc]
      decide +kernel
  | float | integer =>
    simp only [extent?, Option.ite_none_right_eq_some] at h
    rw [Head.of_digit h.1]
    decide
  | name =>
    simp only [extent?, Option.ite_none_right_eq_some] at h
    rw [Head.of_name h.1]
    decide
  | operator =>
    refine Head.operator_mem_rules ?_
    cases cs with
    | nil => exact (Option.ite_none_right_eq_some.mp h).1
    | cons c' cs =>
      by_cases hlong : longOperators.contains (c, c') = true
      · exact contains_of_longOperators hlong
      · have hshort : (if longOperators.contains (c, c') then some 1
            else if shortOperators.contains c then some 0 else none) = some n := h
        rw [if_neg hlong] at hshort
        exact (Option.ite_none_right_eq_some.mp hshort).1
  | punctuation =>
    simp only [extent?, Option.ite_none_right_eq_some] at h
    rw [Head.of_mark h.1]
    decide
  | unmatched => exact Head.unmatched_mem_rules _

/-! ## Earlier rules are longer -/

/-- The place of a rule in the order in which rules are tried. -/
def rank (rule : Rule) : Nat :=
  all.idxOf rule

theorem mem_all (rule : Rule) : rule ∈ all := by
  cases rule <;> decide

theorem eq_of_rank_eq (h : rule.rank = rule'.rank) : rule = rule' :=
  (List.idxOf_inj (mem_all rule)).mp h

/-- The pairs of rules that can begin with the same character, the earlier one first, without the
rule for any character. -/
def overlaps : List (Rule × Rule) :=
  [(.lineComment, .blockComment), (.lineComment, .openComment), (.lineComment, .operator),
    (.blockComment, .openComment), (.blockComment, .operator), (.openComment, .operator),
    (.string, .openString), (.float, .integer)]

theorem mem_overlaps (head : Head) :
    ∀ rule ∈ head.rules, ∀ rule' ∈ head.rules, rule.rank < rule'.rank → rule' ≠ .unmatched →
      (rule, rule') ∈ overlaps := by
  cases head <;> decide

/-- Of two rules that both apply, the one tried first takes more, if the other one is not the rule
for any character. -/
theorem extent?_lt_of_before (h : extent? c cs rule = some n) (h' : extent? c cs rule' = some n')
    (hrank : rule.rank < rule'.rank) (hrule' : rule' ≠ .unmatched) : n' < n := by
  have hpair := mem_overlaps (Head.of c) rule (mem_rules_of_extent? h) rule'
    (mem_rules_of_extent? h') hrank hrule'
  simp only [overlaps, List.mem_cons, Prod.mk.injEq, List.not_mem_nil, or_false] at hpair
  rcases hpair with ⟨rfl, rfl⟩ | ⟨rfl, rfl⟩ | ⟨rfl, rfl⟩ | ⟨rfl, rfl⟩ | ⟨rfl, rfl⟩ | ⟨rfl, rfl⟩ |
    ⟨rfl, rfl⟩ | ⟨rfl, rfl⟩
  · obtain ⟨ds, rfl, rfl, _⟩ := extent?_lineComment h
    cases h'
  · obtain ⟨ds, rfl, rfl, _⟩ := extent?_lineComment h
    cases h'
  · obtain ⟨ds, rfl, rfl, hn⟩ := extent?_lineComment h
    cases h'
    exact hn
  · obtain ⟨ds, rfl, rfl, hn⟩ := extent?_blockComment h
    cases h'
    exact hn
  · obtain ⟨ds, rfl, rfl, hn⟩ := extent?_blockComment h
    cases h'
    exact Nat.lt_of_succ_lt hn
  · obtain ⟨ds, rfl, rfl, hn⟩ := extent?_openComment h
    cases h'
    omega
  · simp only [extent?, Option.ite_none_right_eq_some] at h h'
    cases h'.2
    exact stringEnd?_pos h.2
  · simp only [extent?, Option.ite_none_right_eq_some] at h h'
    -- The point ends the digits, so the integer has no exponent.
    have hfloat := h.2
    split at hfloat
    · rename_i ds hdrop
      have hinteger := h'.2
      rw [hdrop] at hinteger
      have hzero : exponent ('.' :: ds) = 0 := rfl
      cases hfloat
      cases hinteger
      omega
    · cases hfloat

/-! ## The first rule -/

theorem mem_front_iff {front back : List Rule} (hall : all = front ++ rule :: back)
    (hrule : rule ∉ front) (other : Rule) : other ∈ front ↔ other.rank < rule.rank := by
  have hrank : rule.rank = front.length := by
    rw [rank, hall, List.idxOf_append_of_notMem hrule, List.idxOf_cons_self]
    rfl
  rw [hrank, rank, hall]
  constructor
  · intro hother
    rw [List.idxOf_append_of_mem hother]
    exact List.idxOf_lt_length_of_mem hother
  · intro hlt
    by_contra hother
    rw [List.idxOf_append_of_notMem hother] at hlt
    omega

/-- The first rule that applies, said without the search for it. -/
theorem first_eq_iff : first c cs = (rule, n) ↔
    extent? c cs rule = some n ∧ ∀ other, other.rank < rule.rank → extent? c cs other = none := by
  constructor
  · intro h
    cases hsearch : all.findSome? (fun r => (extent? c cs r).map (r, ·)) with
    | none =>
      have hnone := List.findSome?_eq_none_iff.mp hsearch .unmatched (mem_all _)
      cases hnone
    | some found =>
      rw [first, hsearch, Option.getD_some] at h
      rw [h] at hsearch
      obtain ⟨front, r, back, hall, hr, hfront⟩ := List.findSome?_eq_some_iff.mp hsearch
      obtain ⟨m, hm, hpair⟩ := Option.map_eq_some_iff.mp hr
      cases hpair
      have hrule : rule ∉ front := fun hmem => by
        rw [hfront rule hmem] at hr
        cases hr
      refine ⟨hm, fun other hother => ?_⟩
      exact Option.map_eq_none_iff.mp (hfront other ((mem_front_iff hall hrule other).mpr hother))
  · rintro ⟨hextent, hbefore⟩
    obtain ⟨front, back, hall, hrule⟩ := List.eq_append_cons_of_mem (mem_all rule)
    have hsearch : all.findSome? (fun r => (extent? c cs r).map (r, ·)) = some (rule, n) := by
      refine List.findSome?_eq_some_iff.mpr ⟨front, rule, back, hall, ?_, fun other hother => ?_⟩
      · rw [hextent]
        rfl
      · rw [hbefore other ((mem_front_iff hall hrule other).mp hother)]
        rfl
    rw [first, hsearch]
    rfl

/-- The piece `text`, cut off by a rule in front of `rest`, is as long as a word of any rule can be
there, and no earlier rule has it. -/
structure Munched (rule : Rule) (text rest : List Char) : Prop where
  mem : text ∈ rule.language
  longest : ∀ other : Rule, ∀ w ∈ other.language, w <+: text ++ rest → w.length ≤ text.length
  earliest : ∀ other : Rule, text ∈ other.language → rule.rank ≤ other.rank

/-- Maximal munch leaves no choice. -/
theorem Munched.unique {text rest text' rest' : List Char} (h : Munched rule text rest)
    (h' : Munched rule' text' rest') (heq : text ++ rest = text' ++ rest') :
    rule = rule' ∧ text = text' ∧ rest = rest' := by
  have hlength : text.length = text'.length := by
    apply Nat.le_antisymm
    · exact h'.longest rule text h.mem (heq ▸ List.prefix_append text rest)
    · exact h.longest rule' text' h'.mem (heq ▸ List.prefix_append text' rest')
  obtain ⟨rfl, rfl⟩ := List.append_inj heq hlength
  have hrank := Nat.le_antisymm (h.earliest rule' h'.mem) (h'.earliest rule h.mem)
  exact ⟨eq_of_rank_eq hrank, rfl, rfl⟩

/-- A word of a rule that begins where the rule is tried. -/
theorem exists_extent? {w : List Char} (hw : w ∈ rule.language) (hpre : w <+: c :: cs) :
    ∃ m, extent? c cs rule = some m ∧ w.length ≤ m + 1 := by
  have h := longest_extent? rule c cs
  cases hextent : extent? c cs rule with
  | some m =>
    rw [hextent] at h
    exact ⟨m, rfl, h.2.2 w hw hpre⟩
  | none =>
    rw [hextent] at h
    exact absurd hpre (h w hw)

theorem le_of_extent? (h : extent? c cs rule = some n) : n ≤ cs.length := by
  have hlongest := longest_extent? rule c cs
  rw [h] at hlongest
  exact Nat.le_of_succ_le_succ hlongest.1

theorem mem_language_of_extent? (h : extent? c cs rule = some n) :
    c :: cs.take n ∈ rule.language := by
  have hlongest := longest_extent? rule c cs
  rw [h] at hlongest
  exact hlongest.2.1

/-- The first rule that applies takes at least as much as any other. -/
theorem extent?_le_first (h : first c cs = (rule, n)) (h' : extent? c cs rule' = some n') :
    n' ≤ n := by
  obtain ⟨hextent, hbefore⟩ := first_eq_iff.mp h
  rcases Nat.lt_trichotomy rule'.rank rule.rank with hlt | heq | hgt
  · rw [hbefore rule' hlt] at h'
    cases h'
  · rw [eq_of_rank_eq heq, hextent] at h'
    exact Nat.le_of_eq (Option.some.inj h').symm
  · by_cases hunmatched : rule' = .unmatched
    · rw [hunmatched] at h'
      cases h'
      exact Nat.zero_le _
    · exact Nat.le_of_lt (extent?_lt_of_before hextent h' hgt hunmatched)

/-- Cutting takes the piece that maximal munch asks for. -/
theorem munched_of_first (h : first c cs = (rule, n)) :
    Munched rule (c :: cs.take n) (cs.drop n) := by
  obtain ⟨hextent, hbefore⟩ := first_eq_iff.mp h
  have hlength : (c :: cs.take n).length = n + 1 := by
    rw [List.length_cons, List.length_take_of_le (le_of_extent? hextent)]
  refine ⟨mem_language_of_extent? hextent, ?_, ?_⟩
  · intro other w hw hpre
    rw [List.cons_append, List.take_append_drop] at hpre
    obtain ⟨m, hm, hle⟩ := exists_extent? hw hpre
    have hmn := extent?_le_first h hm
    omega
  · intro other hother
    obtain ⟨m, hm, _⟩ := exists_extent? hother
      (List.cons_prefix_cons.mpr ⟨rfl, List.take_prefix n cs⟩)
    by_contra hrank
    rw [hbefore other (by omega)] at hm
    cases hm

theorem first_of_munched {text rest : List Char} (h : Munched rule (c :: text) rest) :
    first c (text ++ rest) = (rule, text.length) := by
  rcases hfirst : first c (text ++ rest) with ⟨other, m⟩
  have hm := le_of_extent? (first_eq_iff.mp hfirst).1
  obtain ⟨rfl, htext, _⟩ := (munched_of_first hfirst).unique h (by simp)
  have hlength := congrArg List.length htext
  rw [List.length_cons, List.length_cons, List.length_take_of_le hm] at hlength
  rw [Nat.succ_inj.mp hlength]

end Rule

end TokenWalk
