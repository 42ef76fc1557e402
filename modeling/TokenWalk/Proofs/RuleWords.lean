import Mathlib.Computability.Language
import Mathlib.Data.List.TakeWhile
import TokenWalk.Token.Piece

/-!
# The words of the lexical rules

Each rule is given by the texts it describes as a whole, its `language`: products, sums and
iterations of classes of characters, with no scan in it.  The extents that cutting goes by are shown
to find words of these languages:

* `Longest` says that a number is the length of the longest word in front of a text, and that there
  is none if no number is given;
* `longest_one_mul` and `longest_star_mul` follow the products and iterations;
* `longest_extent?` is the result for every rule.
-/

namespace TokenWalk

open Text
open scoped Computability

namespace Rule

/-! ## Languages -/

/-- One character with property `p`. -/
def one (p : Char → Bool) : Language Char :=
  {w | ∃ c, p c = true ∧ w = [c]}

/-- One given character. -/
def char (c : Char) : Language Char :=
  one (· == c)

/-- At least one digit. -/
def digits : Language Char :=
  one isDigit * (one isDigit)∗

/-- The sign of an exponent. -/
def isSign (c : Char) : Bool :=
  c == '+' || c == '-'

/-- A power of ten behind a number. -/
def power : Language Char :=
  one (fun c => c == 'e' || c == 'E') * ((1 + one isSign) * digits)

/-- The texts that end in `*/` while no shorter front of them does. -/
def closing : Language Char :=
  {w | ['*', '/'] <:+ w ∧ ∀ v, v <+: w → ['*', '/'] <:+ v → v = w}

/-- One character of a string literal: a backslash makes a unit with the character after it. -/
def unit (quote : Char) : Language Char :=
  (one fun c => c != quote && c != '\\') + char '\\' * one fun _ => true

/-- A string literal in the given quotes. -/
def literal (quote : Char) : Language Char :=
  char quote * ((unit quote)∗ * char quote)

/-- The operators of two characters. -/
def pairs : Language Char :=
  {w | ∃ a b, longOperators.contains (a, b) = true ∧ w = [a, b]}

/-- The texts that a rule describes. -/
def language : Rule → Language Char
  | .newline => char '\n'
  | .blank => one isSpace * (one isSpace)∗
  | .lineComment => char '/' * (char '/' * (one (· != '\n'))∗)
  | .blockComment => char '/' * (char '*' * closing)
  | .openComment => char '/' * char '*'
  | .string => literal '"' + literal '\''
  | .openString => one fun c => c == '"' || c == '\''
  | .float => digits * (char '.' * ((one isDigit)∗ * (1 + power)))
  | .integer => digits * (1 + power)
  | .name => one startsName * (one inName)∗
  | .operator => pairs + one shortOperators.contains
  | .punctuation => one punctuationMarks.contains
  | .unmatched => one fun _ => true

theorem mem_one {p : Char → Bool} {w : List Char} : w ∈ one p ↔ ∃ c, p c = true ∧ w = [c] :=
  Iff.rfl

theorem mem_char {c : Char} {w : List Char} : w ∈ char c ↔ w = [c] := by
  simp [char, mem_one]

theorem mem_one_mul {p : Char → Bool} {L : Language Char} {w : List Char} :
    w ∈ one p * L ↔ ∃ c v, p c = true ∧ v ∈ L ∧ w = c :: v := by
  constructor
  · intro h
    obtain ⟨_, ⟨c, hc, rfl⟩, v, hv, rfl⟩ := Language.mem_mul.mp h
    exact ⟨c, v, hc, hv, rfl⟩
  · rintro ⟨c, v, hc, hv, rfl⟩
    exact Language.append_mem_mul (mem_one.mpr ⟨c, hc, rfl⟩) hv

theorem mem_char_mul {c : Char} {L : Language Char} {w : List Char} :
    w ∈ char c * L ↔ ∃ v ∈ L, w = c :: v := by
  simp [char, mem_one_mul]

theorem mem_star_one {p : Char → Bool} {w : List Char} :
    w ∈ (one p)∗ ↔ ∀ c ∈ w, p c = true := by
  constructor
  · rintro ⟨words, rfl, hwords⟩ c hc
    obtain ⟨w, hw, hcw⟩ := List.mem_flatten.mp hc
    obtain ⟨d, hd, rfl⟩ := hwords w hw
    rw [List.mem_singleton.mp hcw]
    exact hd
  · intro h
    refine ⟨w.map ([·]), ?_, ?_⟩
    · exact (List.flatMap_singleton' w).symm
    · intro v hv
      obtain ⟨c, hc, rfl⟩ := List.mem_map.mp hv
      exact ⟨c, h c hc, rfl⟩

section Within

variable {p q : Char → Bool} {L M : Language Char}

/-- All characters of all words have the property. -/
def Within (p : Char → Bool) (L : Language Char) : Prop :=
  ∀ w ∈ L, ∀ c ∈ w, p c = true

theorem within_nil_word : Within p 1 := by
  intro w hw c hc
  rw [(Language.mem_one w).mp hw] at hc
  cases hc

theorem within_one (h : ∀ c, q c = true → p c = true) : Within p (one q) := by
  intro w hw c hc
  obtain ⟨d, hd, rfl⟩ := mem_one.mp hw
  rw [List.mem_singleton.mp hc]
  exact h d hd

theorem within_star_one (h : ∀ c, q c = true → p c = true) : Within p (one q)∗ :=
  fun _ hw c hc => h c (mem_star_one.mp hw c hc)

theorem Within.mul (hL : Within p L) (hM : Within p M) : Within p (L * M) := by
  intro w hw c hc
  obtain ⟨u, hu, v, hv, rfl⟩ := Language.mem_mul.mp hw
  rcases List.mem_append.mp hc with hc | hc
  · exact hL u hu c hc
  · exact hM v hv c hc

theorem Within.add (hL : Within p L) (hM : Within p M) : Within p (L + M) := by
  rintro w (hw | hw)
  · exact hL w hw
  · exact hM w hw

theorem within_digits (hdigit : ∀ c, isDigit c = true → p c = true) : Within p digits :=
  (within_one hdigit).mul (within_star_one hdigit)

theorem within_power (hdigit : ∀ c, isDigit c = true → p c = true)
    (hletter : ∀ c, (c == 'e' || c == 'E') = true → p c = true)
    (hsign : ∀ c, isSign c = true → p c = true) : Within p (1 + power) := by
  refine within_nil_word.add ((within_one hletter).mul ?_)
  exact (within_nil_word.add (within_one hsign)).mul (within_digits hdigit)

end Within

/-- No rule has the empty word. -/
theorem nil_notMem_language (rule : Rule) : [] ∉ rule.language := by
  have hone : ∀ p, [] ∉ one p := by
    rintro p ⟨c, _, h⟩
    cases h
  have hmul : ∀ (p : Char → Bool) (L : Language Char), [] ∉ one p * L := by
    intro p L h
    obtain ⟨c, v, _, _, h⟩ := mem_one_mul.mp h
    cases h
  intro h
  cases rule with
  | newline | openString | punctuation | unmatched => exact hone _ h
  | blank | lineComment | blockComment | openComment | name => exact hmul _ _ h
  | string => exact h.elim (hmul _ _) (hmul _ _)
  | float | integer =>
    rw [language, digits, mul_assoc] at h
    exact hmul _ _ h
  | operator =>
    rcases h with ⟨a, b, _, h⟩ | h
    · cases h
    · exact hone _ h

/-! ## Longest words -/

/-- The length of the longest word of a language in front of a text, if there is one. -/
def Longest (L : Language Char) (text : List Char) : Option Nat → Prop
  | some n => n ≤ text.length ∧ text.take n ∈ L ∧ ∀ w ∈ L, w <+: text → w.length ≤ n
  | none => ∀ w ∈ L, ¬ w <+: text

variable {p : Char → Bool} {L : Language Char} {c : Char} {cs text : List Char}

theorem longest_nil_word (text : List Char) : Longest 1 text (some 0) := by
  refine ⟨Nat.zero_le _, ?_, ?_⟩
  · rw [List.take_zero]
    exact Language.nil_mem_one
  · intro w hw _
    rw [(Language.mem_one w).mp hw]
    exact Nat.le_refl _

/-- A class of characters in front of a language. -/
theorem longest_one_mul {extent : Option Nat} (hc : p c = true) (h : Longest L cs extent) :
    Longest (one p * L) (c :: cs) (extent.map (· + 1)) := by
  cases extent with
  | some n =>
    obtain ⟨hn, hmem, hlongest⟩ := h
    refine ⟨Nat.succ_le_succ hn, mem_one_mul.mpr ⟨c, cs.take n, hc, hmem, rfl⟩, ?_⟩
    intro w hw hpre
    obtain ⟨d, v, _, hv, rfl⟩ := mem_one_mul.mp hw
    exact Nat.succ_le_succ (hlongest v hv (List.cons_prefix_cons.mp hpre).2)
  | none =>
    intro w hw hpre
    obtain ⟨d, v, _, hv, rfl⟩ := mem_one_mul.mp hw
    exact h v hv (List.cons_prefix_cons.mp hpre).2

theorem longest_one_mul_of_not (hc : p c = false) : Longest (one p * L) (c :: cs) none := by
  intro w hw hpre
  obtain ⟨d, v, hd, _, rfl⟩ := mem_one_mul.mp hw
  rw [(List.cons_prefix_cons.mp hpre).1, hc] at hd
  cases hd

theorem longest_one (hc : p c = true) : Longest (one p) (c :: cs) (some 1) := by
  have h : Longest (one p * 1) (c :: cs) (some 1) := longest_one_mul hc (longest_nil_word cs)
  rwa [mul_one] at h

theorem longest_one_of_not (hc : p c = false) : Longest (one p) (c :: cs) none := by
  have h : Longest (one p * 1) (c :: cs) none := longest_one_mul_of_not hc
  rwa [mul_one] at h

/-- A front with property `p` before a character without it is the whole run. -/
theorem prefix_split {d v : List Char} {x : Char} (hd : ∀ y ∈ d, p y = true) (hx : p x = false)
    (h : d ++ x :: v <+: text) : d = text.takeWhile p ∧ x :: v <+: text.dropWhile p := by
  obtain ⟨rest, rfl⟩ := h
  rw [List.append_assoc, List.takeWhile_append_of_pos hd, List.dropWhile_append_of_pos hd]
  simp [hx]

theorem length_le_run {d : List Char} (hd : ∀ y ∈ d, p y = true) (h : d <+: text) :
    d.length ≤ run p text := by
  obtain ⟨rest, rfl⟩ := h
  rw [run, List.takeWhile_append_of_pos hd, List.length_append]
  omega

theorem take_run_add (text : List Char) (n : Nat) :
    text.take (run p text + n) = text.takeWhile p ++ (text.dropWhile p).take n := by
  have h : (text.takeWhile p ++ text.dropWhile p).take (run p text + n) =
      text.takeWhile p ++ (text.dropWhile p).take n := List.take_length_add_append n
  rwa [List.takeWhile_append_dropWhile] at h

theorem take_run (text : List Char) : text.take (run p text) = text.takeWhile p := by
  simpa using take_run_add (p := p) text 0

theorem drop_run (text : List Char) : text.drop (run p text) = text.dropWhile p := by
  have h : (text.takeWhile p ++ text.dropWhile p).drop (run p text) = text.dropWhile p :=
    List.drop_left
  rwa [List.takeWhile_append_dropWhile] at h

/-- An iterated class of characters in front of a language whose words do not begin with one of
them. -/
theorem longest_star_mul {extent : Option Nat}
    (hL : ∀ x v, x :: v ∈ L → p x = false) (h : Longest L (text.dropWhile p) extent) :
    Longest ((one p)∗ * L) text (extent.map (run p text + ·)) := by
  have hrun : text.takeWhile p ∈ (one p)∗ := mem_star_one.mpr fun _ hx => List.mem_takeWhile_imp hx
  cases extent with
  | some n =>
    obtain ⟨hn, hmem, hlongest⟩ := h
    refine ⟨?_, ?_, ?_⟩
    · have hlength := congrArg List.length (List.takeWhile_append_dropWhile (p := p) (l := text))
      rw [List.length_append] at hlength
      simp only [run]
      omega
    · rw [take_run_add]
      exact Language.append_mem_mul hrun hmem
    · intro w hw hpre
      obtain ⟨d, hd, v, hv, rfl⟩ := Language.mem_mul.mp hw
      rw [List.length_append]
      cases v with
      | nil =>
        have hd := length_le_run (mem_star_one.mp hd) (by simpa using hpre)
        simp only [List.length_nil]
        omega
      | cons x v =>
        obtain ⟨rfl, hrest⟩ := prefix_split (mem_star_one.mp hd) (hL x v hv) hpre
        exact Nat.add_le_add_left (hlongest _ hv hrest) _
  | none =>
    intro w hw hpre
    obtain ⟨d, hd, v, hv, rfl⟩ := Language.mem_mul.mp hw
    cases v with
    | nil => exact h [] hv (List.nil_prefix)
    | cons x v => exact h _ hv (prefix_split (mem_star_one.mp hd) (hL x v hv) hpre).2

theorem longest_star (p : Char → Bool) (text : List Char) :
    Longest (one p)∗ text (some (run p text)) := by
  have h : Longest ((one p)∗ * 1) text (some (run p text)) :=
    longest_star_mul (by simp) (longest_nil_word _)
  rwa [mul_one] at h

theorem longest_none_add {M : Language Char} {extent : Option Nat} (hL : Longest L text none)
    (hM : Longest M text extent) : Longest (L + M) text extent := by
  cases extent with
  | some n =>
    obtain ⟨hn, hmem, hlongest⟩ := hM
    refine ⟨hn, .inr hmem, ?_⟩
    rintro w (hw | hw) hpre
    · exact absurd hpre (hL w hw)
    · exact hlongest w hw hpre
  | none =>
    rintro w (hw | hw)
    · exact hL w hw
    · exact hM w hw

theorem longest_add_none {M : Language Char} {extent : Option Nat} (hL : Longest L text extent)
    (hM : Longest M text none) : Longest (L + M) text extent := by
  rw [add_comm]
  exact longest_none_add hM hL

/-- A word that may be left out. -/
theorem longest_one_add {extent : Option Nat} (h : Longest L text extent) :
    Longest (1 + L) text (some (extent.getD 0)) := by
  cases extent with
  | some n =>
    obtain ⟨hn, hmem, hlongest⟩ := h
    refine ⟨hn, .inr hmem, ?_⟩
    rintro w (hw | hw) hpre
    · rw [(Language.mem_one w).mp hw]
      exact Nat.zero_le _
    · exact hlongest w hw hpre
  | none => exact longest_add_none (longest_nil_word text) h

theorem longest_one_mul_nil : Longest (one p * L) [] none := by
  intro w hw hpre
  obtain ⟨c, v, _, _, rfl⟩ := mem_one_mul.mp hw
  cases List.prefix_nil.mp hpre

/-! ## Numbers -/

theorem longest_digits (text : List Char) :
    Longest digits text (if run isDigit text = 0 then none else some (run isDigit text)) := by
  cases text with
  | nil => exact longest_one_mul_nil
  | cons c cs =>
    by_cases hc : isDigit c = true
    · have h : Longest digits (c :: cs) (some (run isDigit cs + 1)) :=
        longest_one_mul hc (longest_star isDigit cs)
      simpa [run, hc] using h
    · have h : Longest digits (c :: cs) none := longest_one_mul_of_not (Bool.eq_false_iff.mpr hc)
      simpa [run, hc] using h

theorem isDigit_of_isSign (h : isSign c = true) : isDigit c = false := by
  rcases Bool.or_eq_true_iff.mp h with h | h
  · rw [beq_iff_eq.mp h]
    decide
  · rw [beq_iff_eq.mp h]
    decide

theorem longest_signed_of_sign (h : isSign c = true) (cs : List Char) :
    Longest ((1 + one isSign) * digits) (c :: cs)
      (if run isDigit cs = 0 then none else some (run isDigit cs + 1)) := by
  have hdigits : Longest digits (c :: cs) none := longest_one_mul_of_not (isDigit_of_isSign h)
  have hsigned := longest_one_mul h (longest_digits cs)
  rw [apply_ite (Option.map (· + 1))] at hsigned
  rw [add_mul, one_mul]
  exact longest_none_add hdigits hsigned

theorem longest_signed_of_not_sign (h : isSign c = false) (cs : List Char) :
    Longest ((1 + one isSign) * digits) (c :: cs)
      (if run isDigit (c :: cs) = 0 then none else some (run isDigit (c :: cs))) := by
  rw [add_mul, one_mul]
  exact longest_add_none (longest_digits (c :: cs)) (longest_one_mul_of_not h)

/-- The exponent is the longest power of ten, and empty if there is none. -/
theorem longest_exponent (text : List Char) : Longest (1 + power) text (some (exponent text)) := by
  cases text with
  | nil => exact longest_one_add longest_one_mul_nil
  | cons e cs =>
    by_cases he : (e == 'e' || e == 'E') = true
    · have hpower : ∀ extent, Longest ((1 + one isSign) * digits) cs extent →
          Longest (1 + power) (e :: cs) (some ((extent.map (· + 1)).getD 0)) :=
        fun extent h => longest_one_add (longest_one_mul he h)
      cases cs with
      | nil =>
        have h := hpower none (by
          rw [add_mul, one_mul]
          exact longest_none_add longest_one_mul_nil longest_one_mul_nil)
        simpa [exponent, he] using h
      | cons sign ds =>
        by_cases hsign : isSign sign = true
        · have h := hpower _ (longest_signed_of_sign hsign ds)
          have hor : (sign == '+' || sign == '-') = true := hsign
          by_cases hrun : run isDigit ds = 0
          · simpa [exponent, he, hor, hrun] using h
          · simpa [exponent, he, hor, hrun] using h
        · have hor : (sign == '+' || sign == '-') = false := Bool.eq_false_iff.mpr hsign
          have h := hpower _ (longest_signed_of_not_sign hor ds)
          by_cases hrun : run isDigit (sign :: ds) = 0
          · simpa [exponent, he, hor, hrun] using h
          · simpa [exponent, he, hor, hrun] using h
    · have he := Bool.eq_false_iff.mpr he
      have h : Longest (1 + power) (e :: cs) (some 0) :=
        longest_one_add (longest_one_mul_of_not he)
      simpa [exponent, he] using h

/-! ## Comments and string literals -/

theorem cons_mem_closing {v : List Char} (h : ∀ u, c = '*' → v = '/' :: u → False) :
    c :: v ∈ closing ↔ v ∈ closing := by
  have hends : ∀ u, u <+: v → (['*', '/'] <:+ c :: u ↔ ['*', '/'] <:+ u) := by
    intro u hu
    rw [List.suffix_cons_iff]
    refine or_iff_right fun heq => ?_
    obtain ⟨hc, hslash⟩ := List.cons.inj heq
    obtain ⟨rest, rfl⟩ := hu
    exact h rest hc.symm (by rw [← hslash]; rfl)
  constructor
  · rintro ⟨hsuffix, hfirst⟩
    refine ⟨(hends v (List.prefix_refl v)).mp hsuffix, fun u hu hsuffix => ?_⟩
    exact (List.cons.inj (hfirst (c :: u) (List.cons_prefix_cons.mpr ⟨rfl, hu⟩)
      ((hends u hu).mpr hsuffix))).2
  · rintro ⟨hsuffix, hfirst⟩
    refine ⟨(hends v (List.prefix_refl v)).mpr hsuffix, fun u hu hsuffix => ?_⟩
    cases u with
    | nil => exact absurd (List.suffix_nil.mp hsuffix) (by simp)
    | cons d u =>
      obtain ⟨rfl, htail⟩ := List.cons_prefix_cons.mp hu
      rw [hfirst u htail ((hends u htail).mp hsuffix)]

theorem longest_commentEnd? (text : List Char) : Longest closing text (commentEnd? text) := by
  fun_induction commentEnd? text with
  | case1 cs =>
    have htwo : ∀ w, ['*', '/'] <:+ w → w <+: '*' :: '/' :: cs → ['*', '/'] <+: w := by
      intro w hsuffix hpre
      exact List.prefix_of_prefix_length_le ⟨cs, rfl⟩ hpre hsuffix.length_le
    refine ⟨by simp, ⟨List.suffix_refl _, fun v hpre hsuffix => ?_⟩, fun w hw hpre => ?_⟩
    · exact hpre.eq_of_length (Nat.le_antisymm hpre.length_le hsuffix.length_le)
    · rw [← hw.2 _ (htwo w hw.1 hpre) (List.suffix_refl _)]
      exact Nat.le_refl _
  | case2 c cs hopen ih =>
    have hcons : ∀ v, v <+: cs → (c :: v ∈ closing ↔ v ∈ closing) := by
      rintro v ⟨rest, rfl⟩
      refine cons_mem_closing fun u hc hv => ?_
      rw [hv] at hopen
      exact hopen (u ++ rest) hc rfl
    have hnil : [] ∉ closing := fun h => absurd (List.suffix_nil.mp h.1) (by simp)
    cases hend : commentEnd? cs with
    | some n =>
      rw [hend] at ih
      obtain ⟨hn, hmem, hlongest⟩ := ih
      refine ⟨Nat.succ_le_succ hn, (hcons _ (List.take_prefix n cs)).mpr hmem, ?_⟩
      intro w hw hpre
      cases w with
      | nil => exact Nat.zero_le _
      | cons d v =>
        obtain ⟨rfl, hv⟩ := List.cons_prefix_cons.mp hpre
        exact Nat.succ_le_succ (hlongest v ((hcons v hv).mp hw) hv)
    | none =>
      rw [hend] at ih
      intro w hw hpre
      cases w with
      | nil => exact hnil hw
      | cons d v =>
        obtain ⟨rfl, hv⟩ := List.cons_prefix_cons.mp hpre
        exact ih v ((hcons v hv).mp hw) hv
  | case3 =>
    intro w hw hpre
    rw [List.prefix_nil.mp hpre] at hw
    exact absurd (List.suffix_nil.mp hw.1) (by simp)

/-- The rest of a string literal is its last quote, or a unit and then the rest. -/
theorem literal_rest (quote : Char) :
    (unit quote)∗ * char quote =
      char quote + ((one fun c => c != quote && c != '\\') * ((unit quote)∗ * char quote) +
        char '\\' * ((one fun _ => true) * ((unit quote)∗ * char quote))) := by
  conv_lhs => rw [← Language.one_add_self_mul_kstar_eq_kstar]
  conv_lhs => rw [add_mul, one_mul, mul_assoc]
  rw [unit, add_mul, mul_assoc]

theorem longest_stringEnd? {quote : Char} (hquote : quote ≠ '\\') (text : List Char) :
    Longest ((unit quote)∗ * char quote) text (stringEnd? quote text) := by
  fun_induction stringEnd? quote text with
  | case1 =>
    rw [literal_rest]
    have hlast : Longest (char quote) [] none := by
      have h : Longest (char quote * 1) [] none := longest_one_mul_nil
      rwa [mul_one] at h
    exact longest_none_add hlast (longest_none_add longest_one_mul_nil longest_one_mul_nil)
  | case2 x cs ih =>
    rw [literal_rest]
    refine longest_none_add (longest_one_of_not ?_) (longest_none_add ?_ ?_)
    · simpa using hquote.symm
    · exact longest_one_mul_of_not (by simp)
    · have h := longest_one_mul (p := (· == '\\')) (c := '\\') rfl
        (longest_one_mul (p := fun _ => true) (c := x) rfl ih)
      rwa [Option.map_map] at h
  | case3 c cs hescape hlast =>
    rw [literal_rest, beq_iff_eq.mp hlast]
    refine longest_add_none (longest_one (by simp)) (longest_none_add ?_ ?_)
    · exact longest_one_mul_of_not (by simp)
    · exact longest_one_mul_of_not (by simpa using hquote)
  | case4 c cs hescape hlast hslash =>
    -- A backslash at the very end protects nothing.
    cases cs with
    | cons x cs => exact absurd rfl (hescape x cs (beq_iff_eq.mp hslash))
    | nil =>
      rw [literal_rest, beq_iff_eq.mp hslash]
      refine longest_none_add (longest_one_of_not ?_) (longest_none_add ?_ ?_)
      · simpa using hquote.symm
      · exact longest_one_mul_of_not (by simp)
      · exact longest_one_mul rfl longest_one_mul_nil
  | case5 c cs hescape hlast hslash ih =>
    rw [literal_rest]
    refine longest_none_add (longest_one_of_not ?_) (longest_add_none ?_ ?_)
    · exact Bool.eq_false_iff.mpr hlast
    · exact longest_one_mul (by simp_all) ih
    · exact longest_one_mul_of_not (Bool.eq_false_iff.mpr hslash)

/-! ## Every rule -/

/-- Two given characters that do not stand in front of the text. -/
theorem longest_opening_of_not {a b : Char} (h : ∀ ds, c = a → cs = b :: ds → False) :
    Longest (char a * (char b * L)) (c :: cs) none := by
  intro w hw hpre
  obtain ⟨v, hv, rfl⟩ := mem_char_mul.mp hw
  obtain ⟨u, _, rfl⟩ := mem_char_mul.mp hv
  obtain ⟨rfl, rest, rfl⟩ := List.cons_prefix_cons.mp hpre
  exact h (u ++ rest) rfl rfl

theorem longest_opening {a b : Char} {ds : List Char} {extent : Option Nat}
    (h : Longest L ds extent) :
    Longest (char a * (char b * L)) (a :: b :: ds) (extent.map (· + 2)) := by
  have hboth : Longest (char a * (char b * L)) (a :: b :: ds)
      ((extent.map (· + 1)).map (· + 1)) :=
    longest_one_mul (beq_self_eq_true a) (longest_one_mul (beq_self_eq_true b) h)
  rwa [Option.map_map] at hboth

theorem isDigit_of_cons_mem_power {x : Char} {v : List Char} (h : x :: v ∈ 1 + power) :
    isDigit x = false := by
  rcases h with h | h
  · cases (Language.mem_one _).mp h
  · obtain ⟨e, u, he, _, heq⟩ := mem_one_mul.mp h
    obtain ⟨rfl, _⟩ := List.cons.inj heq
    rcases Bool.or_eq_true_iff.mp he with he | he
    · rw [beq_iff_eq.mp he]
      decide
    · rw [beq_iff_eq.mp he]
      decide

/-- Digits and then a power of ten, both of which may be left out. -/
theorem longest_mantissa (text : List Char) :
    Longest ((one isDigit)∗ * (1 + power)) text
      (some (run isDigit text + exponent (text.dropWhile isDigit))) :=
  longest_star_mul (fun _ _ => isDigit_of_cons_mem_power) (longest_exponent _)

theorem longest_fraction (text : List Char) :
    Longest ((one isDigit)∗ * (char '.' * ((one isDigit)∗ * (1 + power)))) text
      (match text.dropWhile isDigit with
        | '.' :: ds =>
            some (run isDigit text + 1 + run isDigit ds + exponent (ds.dropWhile isDigit))
        | _ => none) := by
  have hpoint : ∀ x v, x :: v ∈ char '.' * ((one isDigit)∗ * (1 + power)) →
      isDigit x = false := by
    intro x v h
    obtain ⟨u, _, heq⟩ := mem_char_mul.mp h
    rw [(List.cons.inj heq).1]
    decide
  split
  · rename_i ds hdrop
    have hrest : Longest (char '.' * ((one isDigit)∗ * (1 + power))) (text.dropWhile isDigit)
        (some (run isDigit ds + exponent (ds.dropWhile isDigit) + 1)) := by
      rw [hdrop]
      exact longest_one_mul rfl (longest_mantissa ds)
    have h := longest_star_mul hpoint hrest
    rwa [Option.map_some, show run isDigit text + (run isDigit ds +
      exponent (ds.dropWhile isDigit) + 1) = run isDigit text + 1 + run isDigit ds +
        exponent (ds.dropWhile isDigit) by omega] at h
  · rename_i hdrop
    have hrest : Longest (char '.' * ((one isDigit)∗ * (1 + power))) (text.dropWhile isDigit)
        none := by
      cases hcs : text.dropWhile isDigit with
      | nil => exact longest_one_mul_nil
      | cons x ds =>
        refine longest_one_mul_of_not (beq_eq_false_iff_ne.mpr fun hx => ?_)
        exact hdrop ds (by rw [hcs, hx])
    exact longest_star_mul hpoint hrest

/-- A class of characters in front of a language, or no word at all. -/
theorem longest_class_mul {extent : Option Nat} (h : Longest L cs extent) :
    Longest (one p * L) (c :: cs) ((if p c then extent else none).map (· + 1)) := by
  by_cases hc : p c = true
  · rw [if_pos hc]
    exact longest_one_mul hc h
  · rw [if_neg hc]
    exact longest_one_mul_of_not (Bool.eq_false_iff.mpr hc)

theorem longest_class :
    Longest (one p) (c :: cs) ((if p c then some 0 else none).map (· + 1)) := by
  have h : Longest (one p * 1) (c :: cs) ((if p c then some 0 else none).map (· + 1)) :=
    longest_class_mul (longest_nil_word cs)
  rwa [mul_one] at h

theorem longest_literals :
    Longest (literal '"' + literal '\'') (c :: cs)
      ((if c == '"' || c == '\'' then stringEnd? c cs else none).map (· + 1)) := by
  by_cases hdouble : c = '"'
  · subst hdouble
    exact longest_add_none (longest_one_mul rfl (longest_stringEnd? (by decide) cs))
      (longest_one_mul_of_not (by decide))
  · refine longest_none_add (longest_one_mul_of_not (beq_eq_false_iff_ne.mpr hdouble)) ?_
    by_cases hsingle : c = '\''
    · subst hsingle
      exact longest_one_mul rfl (longest_stringEnd? (by decide) cs)
    · have hnone : Longest (literal '\'') (c :: cs) none :=
        longest_one_mul_of_not (beq_eq_false_iff_ne.mpr hsingle)
      simpa [hdouble, hsingle] using hnone

theorem longest_operator :
    Longest (pairs + one shortOperators.contains) (c :: cs)
      ((extent? c cs .operator).map (· + 1)) := by
  have hshort : ∀ w ∈ pairs + one shortOperators.contains, w.length ≤ 2 := by
    rintro w (⟨a, b, _, rfl⟩ | ⟨a, _, rfl⟩)
    · exact Nat.le_refl _
    · exact Nat.le_succ _
  cases cs with
  | nil =>
    have hpairs : Longest pairs [c] none := by
      rintro w ⟨a, b, _, rfl⟩ hpre
      have hlength := hpre.length_le
      simp at hlength
    exact longest_none_add hpairs longest_class
  | cons d ds =>
    by_cases hpair : longOperators.contains (c, d) = true
    · have hextent : extent? c (d :: ds) .operator = some 1 := by
        simp only [extent?, List.head?_cons, Option.any_some, hpair, if_true]
      rw [hextent]
      exact ⟨by simp, .inl ⟨c, d, hpair, rfl⟩, fun w hw _ => hshort w hw⟩
    · have hpairs : Longest pairs (c :: d :: ds) none := by
        rintro w ⟨a, b, hab, rfl⟩ hpre
        obtain ⟨rfl, htail⟩ := List.cons_prefix_cons.mp hpre
        obtain ⟨rfl, _⟩ := List.cons_prefix_cons.mp htail
        exact hpair hab
      have hextent : extent? c (d :: ds) .operator =
          if shortOperators.contains c then some 0 else none := by
        simp only [extent?, List.head?_cons, Option.any_some, hpair, Bool.false_eq_true, if_false]
      rw [hextent]
      exact longest_none_add hpairs longest_class

/-- The extent of a rule is that of its longest word, the first character not counted. -/
theorem longest_extent? (rule : Rule) (c : Char) (cs : List Char) :
    Longest rule.language (c :: cs) ((extent? c cs rule).map (· + 1)) := by
  cases rule with
  | newline => exact longest_class
  | blank => exact longest_class_mul (longest_star _ _)
  | lineComment =>
    simp only [extent?]
    split
    · exact longest_opening (longest_star _ _)
    · rename_i hopen
      exact longest_opening_of_not hopen
  | blockComment =>
    simp only [extent?]
    split
    · rw [Option.map_map]
      exact longest_opening (longest_commentEnd? _)
    · rename_i hopen
      exact longest_opening_of_not hopen
  | openComment =>
    simp only [extent?, language]
    rw [← mul_one (char '*')]
    split
    · exact longest_opening (longest_nil_word _)
    · rename_i hopen
      exact longest_opening_of_not hopen
  | string => exact longest_literals
  | openString => exact longest_class
  | float =>
    rw [language, digits, mul_assoc]
    exact longest_class_mul (longest_fraction cs)
  | integer =>
    rw [language, digits, mul_assoc]
    exact longest_class_mul (longest_mantissa cs)
  | name => exact longest_class_mul (longest_star _ _)
  | operator => exact longest_operator
  | punctuation => exact longest_class
  | unmatched => exact longest_one rfl

end Rule

end TokenWalk
