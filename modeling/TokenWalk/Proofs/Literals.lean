import TokenWalk.Expression
import TokenWalk.Proofs.Lexemes

/-!
# Literals as numbers

What the numerals of a source text are read as.  An integer literal without exponent is read unless
it has more than `maxDigits` digits; every other numeral is read as a double, which is neither
negative nor not a number.  So the only literal that cannot be read is a long integer
(`value?_eq_abort_iff`).

A 64-bit integer is never past the largest double (`isFinite_ofInt`).
-/

namespace TokenWalk

open Text
open scoped Computability

/-! ## Integers as doubles -/

namespace Double

theorem roundDiv_bounds (num den : Nat) :
    num / den ≤ roundDiv num den ∧ roundDiv num den ≤ num / den + 1 := by
  unfold roundDiv
  dsimp only
  split
  · omega
  · omega

/-- Scaling a number of `k + 1` bits by a power of two moves its leading bit. -/
theorem scaled_bounds {num k : Nat} {e : Int} (hlow : 2 ^ k ≤ num) (hhigh : num < 2 ^ (k + 1))
    (he : e ≤ k) :
    2 ^ (k - e).toNat ≤ (scaled num 1 e).1 / (scaled num 1 e).2 ∧
      (scaled num 1 e).1 / (scaled num 1 e).2 < 2 ^ ((k - e).toNat + 1) := by
  unfold scaled
  by_cases hsign : 0 ≤ e
  · rw [if_pos hsign]
    have hsplit : ∀ j, 2 ^ ((k - e).toNat + j) * 2 ^ e.toNat = 2 ^ (k + j) := by
      intro j
      rw [← Nat.pow_add]
      congr 1
      omega
    have hpos : 0 < 2 ^ e.toNat := Nat.two_pow_pos _
    simp only [Nat.pow_eq, Nat.one_mul]
    rw [Nat.le_div_iff_mul_le hpos, Nat.div_lt_iff_lt_mul hpos]
    have hzero := hsplit 0
    have hone := hsplit 1
    simp only [Nat.add_zero] at hzero
    omega
  · rw [if_neg hsign]
    have hsplit : ∀ j, 2 ^ (k + j) * 2 ^ (-e).toNat = 2 ^ ((k - e).toNat + j) := by
      intro j
      rw [← Nat.pow_add]
      congr 1
      omega
    have hpos : 0 < 2 ^ (-e).toNat := Nat.two_pow_pos _
    simp only [Nat.pow_eq, Nat.div_one]
    rw [← hsplit 1, ← Nat.add_zero (k - e).toNat, ← hsplit 0, Nat.add_zero]
    exact ⟨Nat.mul_le_mul_right _ hlow, Nat.mul_lt_mul_of_pos_right hhigh hpos⟩

/-- A whole number is scaled to 53 bits. -/
theorem exponentFor_one {num : Nat} (h : num ≠ 0) : exponentFor num 1 = num.log2 - 52 := by
  obtain ⟨hlow, -⟩ := scaled_bounds (k := num.log2) (e := (num.log2 : Int) - 53)
    (Nat.log2_self_le h) Nat.lt_log2_self (by omega)
  have hbits : ((num.log2 : Int) - (num.log2 - 53)).toNat = 53 := by omega
  rw [hbits] at hlow
  unfold exponentFor
  have hlog : Nat.log2 1 = 0 := by decide
  simp only [hlog, Nat.pow_eq, Int.ofNat_zero, Int.sub_zero]
  rw [if_neg (Nat.not_lt.mpr hlow), if_neg (by omega)]
  omega

/-- The leading 53 bits of a whole number, rounded. -/
def leading (num : Nat) : Nat :=
  roundDiv (scaled num 1 (num.log2 - 52)).1 (scaled num 1 (num.log2 - 52)).2

theorem leading_bounds {num : Nat} (hzero : num ≠ 0) :
    2 ^ 52 ≤ leading num ∧ leading num ≤ 2 ^ 53 := by
  obtain ⟨hlow, hhigh⟩ := scaled_bounds (k := num.log2) (e := (num.log2 : Int) - 52)
    (Nat.log2_self_le hzero) Nat.lt_log2_self (by omega)
  have hbits : ((num.log2 : Int) - (num.log2 - 52)).toNat = 52 := by omega
  rw [hbits] at hlow hhigh
  have hround := roundDiv_bounds (scaled num 1 (num.log2 - 52)).1 (scaled num 1 (num.log2 - 52)).2
  unfold leading
  omega

/-- The double nearest to a whole number of at most 1023 bits has its leading bits as mantissa,
unless rounding has carried into a bit more. -/
theorem ofRatio_one {num : Nat} (negative : Bool) (hzero : num ≠ 0) (h : num.log2 ≤ 1022) :
    ∃ m e hcanonical, ofRatio negative num 1 = .finite negative m e hcanonical ∧
      (m = leading num ∧ e = num.log2 - 52 ∨
        leading num = 2 ^ 53 ∧ m = 2 ^ 52 ∧ e = num.log2 - 51) := by
  obtain ⟨hlow, hhigh⟩ := leading_bounds hzero
  have hratio : ofRatio negative num 1 =
      if leading num == 2 ^ 53 then pack negative (2 ^ 52) (num.log2 - 52 + 1)
      else pack negative (leading num) (num.log2 - 52) := by
    unfold ofRatio leading
    rw [if_neg (by simp [hzero]), exponentFor_one hzero]
    rfl
  rw [hratio]
  split
  next hcarry =>
    have hcanonical : Canonical (2 ^ 52) (num.log2 - 52 + 1) :=
      ⟨by decide, by omega, by omega, .inl (by decide)⟩
    exact ⟨_, _, hcanonical, dif_pos hcanonical, .inr ⟨beq_iff_eq.mp hcarry, rfl, by omega⟩⟩
  next hcarry =>
    rw [beq_iff_eq] at hcarry
    have hcanonical : Canonical (leading num) (num.log2 - 52) :=
      ⟨by simp only [Nat.pow_eq]; omega, by omega, by omega, .inl hlow⟩
    exact ⟨_, _, hcanonical, dif_pos hcanonical, .inl ⟨rfl, rfl⟩⟩

/-- A 64-bit integer has few enough bits for a double. -/
theorem log2_natAbs_le {n : Int} (hlow : minInt ≤ n) (hhigh : n ≤ maxInt) :
    n.natAbs.log2 ≤ 1022 := by
  have habs : n.natAbs < 2 ^ 64 := by
    simp only [minInt, maxInt] at hlow hhigh
    omega
  by_cases hzero : n.natAbs = 0
  · rw [hzero]
    decide
  · have hlog := (Nat.log2_lt hzero).mpr habs
    omega

theorem isFinite_ofInt {n : Int} (hlow : minInt ≤ n) (hhigh : n ≤ maxInt) :
    (ofInt n).isFinite = true := by
  by_cases hzero : n.natAbs = 0
  · simp [ofInt, ofRatio, hzero, zero, isFinite]
  · obtain ⟨m, e, hcanonical, hratio, -⟩ :=
      ofRatio_one (n < 0) hzero (log2_natAbs_le hlow hhigh)
    rw [ofInt, hratio]
    rfl

end Double

/-! ## Doubles without a sign -/

namespace Double

/-- The double is a number, and it has no minus sign. -/
def IsMagnitude (x : Double) : Prop :=
  x ≠ .nan ∧ x.abs = x

theorem isMagnitude_pack (m : Nat) (e : Int) : (pack false m e).IsMagnitude := by
  unfold pack
  split
  · exact ⟨nofun, rfl⟩
  · exact ⟨nofun, rfl⟩

theorem isMagnitude_ofRatio (num den : Nat) : (ofRatio false num den).IsMagnitude := by
  unfold ofRatio
  split
  · exact ⟨nofun, rfl⟩
  · dsimp only
    split
    · exact isMagnitude_pack _ _
    · exact isMagnitude_pack _ _

theorem isMagnitude_ofDecimal (digits : Nat) (exponent : Int) :
    (ofDecimal false digits exponent).IsMagnitude := by
  unfold ofDecimal
  split
  · exact ⟨nofun, rfl⟩
  · split
    · exact ⟨nofun, rfl⟩
    · split
      · exact isMagnitude_ofRatio _ _
      · exact isMagnitude_ofRatio _ _

end Double

/-! ## Numerals -/

namespace Numeral

variable {cs d v w : List Char}

/-- A character that can neither surround a numeral nor group its digits. -/
def isTight (c : Char) : Bool :=
  !isPadding c && c != '_'

theorem isTight_of_not_isBlank {c : Char} (hblank : isBlank c = false) (hline : c ≠ '_') :
    isTight c = true := by
  simp [isTight, isPadding, hblank, hline]

theorem isTight_of_isDigit (c : Char) (h : isDigit c = true) : isTight c = true := by
  refine isTight_of_not_isBlank ?_ ?_
  · cases hblank : isBlank c with
    | false => rfl
    | true =>
      rw [isDigit_of_isBlank hblank] at h
      cases h
  · rintro rfl
    exact absurd h (by decide)

theorem within_isTight_digits : Rule.Within isTight Rule.digits :=
  Rule.within_digits isTight_of_isDigit

theorem within_isTight_power : Rule.Within isTight (1 + Rule.power) := by
  refine Rule.within_power isTight_of_isDigit ?_ ?_
  all_goals
    intro c h
    rcases Bool.or_eq_true_iff.mp h with h | h
    · rw [beq_iff_eq.mp h]
      decide
    · rw [beq_iff_eq.mp h]
      decide

theorem dropWhile_isPadding (h : ∀ c ∈ cs, isTight c = true) : cs.dropWhile isPadding = cs := by
  cases cs with
  | nil => rfl
  | cons c cs =>
    have hc := h c List.mem_cons_self
    simp only [isTight, Bool.and_eq_true, Bool.not_eq_true'] at hc
    rw [List.dropWhile_cons, hc.1]
    rfl

theorem trimBy_isPadding (h : ∀ c ∈ cs, isTight c = true) : trimBy isPadding cs = cs := by
  unfold trimBy
  rw [dropWhile_isPadding h, dropWhile_isPadding fun c hc => h c (List.mem_reverse.mp hc),
    List.reverse_reverse]

theorem ungroup_of_isTight (h : ∀ c ∈ cs, isTight c = true) (afterDigit : Bool) :
    ungroup afterDigit cs = some cs := by
  induction cs generalizing afterDigit with
  | nil => rfl
  | cons c cs ih =>
    have hc := h c List.mem_cons_self
    simp only [isTight, Bool.and_eq_true, bne_iff_ne] at hc
    rw [ungroup, if_neg (by simpa using hc.2), ih fun x hx => h x (List.mem_cons_of_mem c hx)]
    rfl

theorem takeSign_of_isDigit {c : Char} (h : isDigit c = true) (cs : List Char) :
    takeSign (c :: cs) = (false, c :: cs) := by
  unfold takeSign
  split
  next heq =>
    rw [(List.cons.inj heq).1] at h
    exact absurd h (by decide)
  next heq =>
    rw [(List.cons.inj heq).1] at h
    exact absurd h (by decide)
  next => rfl

theorem exists_of_mem_digits (h : d ∈ Rule.digits) :
    ∃ c cs, d = c :: cs ∧ isDigit c = true ∧ ∀ x ∈ d, isDigit x = true := by
  obtain ⟨c, cs, hc, hcs, rfl⟩ := Rule.mem_one_mul.mp h
  exact ⟨c, cs, rfl, hc, List.forall_mem_cons.mpr ⟨hc, Rule.mem_star_one.mp hcs⟩⟩

/-- A row of digits is read as an integer, unless there are too many of them. -/
theorem readInteger_of_digits (h : d ∈ Rule.digits) :
    readInteger (.ofList d) =
      if maxDigits < d.length then .error (.tooManyDigits d.length)
      else .ok (Double.signed false (ofDigits d)) := by
  have htight := within_isTight_digits d h
  obtain ⟨c, cs, hd, hc, hall⟩ := exists_of_mem_digits h
  have hnumber : ∀ x ∈ d, (isDigit x || x == '_') = true := by
    intro x hx
    rw [hall x hx]
    rfl
  unfold readInteger
  rw [String.toList_ofList, dropWhile_isPadding htight]
  have hsign : takeSign d = (false, d) := by
    rw [hd]
    exact takeSign_of_isDigit hc cs
  simp only [hsign]
  rw [List.takeWhile_eq_self_iff.mpr hnumber, List.dropWhile_eq_nil_iff.mpr hnumber,
    ungroup_of_isTight htight]
  subst hd
  simp

/-- A power of ten is read as an exponent. -/
theorem exists_readExponent? (h : v ∈ 1 + Rule.power) : ∃ n, readExponent? v = some n := by
  rcases h with h | h
  · rw [(Language.mem_one v).mp h]
    exact ⟨0, rfl⟩
  · obtain ⟨e, rest, he, hrest, rfl⟩ := Rule.mem_one_mul.mp h
    obtain ⟨sign, hsign, digits, hdigits, rfl⟩ := Language.mem_mul.mp hrest
    obtain ⟨c, cs, hd, hc, hall⟩ := exists_of_mem_digits hdigits
    -- With or without a sign, the digits are what is left.
    have htake : ∃ negative, takeSign (sign ++ digits) = (negative, digits) := by
      rcases hsign with hsign | hsign
      · rw [(Language.mem_one sign).mp hsign, hd]
        exact ⟨false, takeSign_of_isDigit hc cs⟩
      · obtain ⟨x, hx, rfl⟩ := Rule.mem_one.mp hsign
        rcases Bool.or_eq_true_iff.mp hx with hx | hx
        · rw [beq_iff_eq.mp hx]
          exact ⟨false, rfl⟩
        · rw [beq_iff_eq.mp hx]
          exact ⟨true, rfl⟩
    obtain ⟨negative, htake⟩ := htake
    have hnonempty : digits.isEmpty = false := by simp [hd]
    refine ⟨Double.signed negative (ofDigits digits), ?_⟩
    simp only [readExponent?, htake, he, hnonempty, Bool.not_false, Bool.true_and,
      List.all_eq_true.mpr hall, if_true]

/-- The digits in front of what is no digit. -/
theorem span_digits {r : List Char} (hd : ∀ x ∈ d, isDigit x = true)
    (hr : ∀ x v, r = x :: v → isDigit x = false) :
    (d ++ r).takeWhile isDigit = d ∧ (d ++ r).dropWhile isDigit = r := by
  rw [List.takeWhile_append_of_pos hd, List.dropWhile_append_of_pos hd]
  cases r with
  | nil => simp
  | cons x v =>
    have hx := hr x v rfl
    simp [hx]

/-- A power of ten begins with neither a digit nor a point. -/
theorem head_of_power (h : v ∈ 1 + Rule.power) {x : Char} {u : List Char} (hv : v = x :: u) :
    isDigit x = false ∧ x ≠ '.' := by
  rcases h with h | h
  · rw [(Language.mem_one v).mp h] at hv
    cases hv
  · obtain ⟨e, rest, he, -, rfl⟩ := Rule.mem_one_mul.mp h
    cases hv
    rcases Bool.or_eq_true_iff.mp he with he | he
    · rw [beq_iff_eq.mp he]
      decide
    · rw [beq_iff_eq.mp he]
      decide

/-- A decimal without a point. -/
theorem readUnsigned?_whole (hd : d ∈ Rule.digits) (hv : v ∈ 1 + Rule.power) :
    ∃ n e, readUnsigned? false (d ++ v) = some (Double.ofDecimal false n e) := by
  obtain ⟨c, cs, hcons, -, hall⟩ := exists_of_mem_digits hd
  obtain ⟨htake, hdrop⟩ := span_digits hall fun x u h => (head_of_power hv h).1
  obtain ⟨e, he⟩ := exists_readExponent? hv
  have hnonempty : d.isEmpty = false := by simp [hcons]
  refine ⟨ofDigits (d ++ []), e - ([] : List Char).length, ?_⟩
  simp only [readUnsigned?, htake, hdrop, hnonempty, Bool.false_and, Bool.false_eq_true, if_false]
  split
  next => exact absurd rfl (head_of_power hv rfl).2
  next => rw [he, Option.map_some]

/-- A decimal with a point. -/
theorem readUnsigned?_point {f : List Char} (hd : d ∈ Rule.digits) (hf : f ∈ (Rule.one isDigit)∗)
    (hv : v ∈ 1 + Rule.power) :
    ∃ n e, readUnsigned? false (d ++ '.' :: (f ++ v)) = some (Double.ofDecimal false n e) := by
  obtain ⟨c, cs, hcons, -, hall⟩ := exists_of_mem_digits hd
  have hpoint : ∀ x u, '.' :: (f ++ v) = x :: u → isDigit x = false := by
    intro x u h
    cases h
    decide
  obtain ⟨htake, hdrop⟩ := span_digits hall hpoint
  obtain ⟨hfraction, hrest⟩ :=
    span_digits (Rule.mem_star_one.mp hf) fun x u h => (head_of_power hv h).1
  obtain ⟨e, he⟩ := exists_readExponent? hv
  have hnonempty : d.isEmpty = false := by simp [hcons]
  refine ⟨ofDigits (d ++ f), e - f.length, ?_⟩
  simp only [readUnsigned?, htake, hdrop, hfraction, hrest, hnonempty, Bool.false_and,
    Bool.false_eq_true, if_false, he, Option.map_some]

theorem toLower_of_isDigit {c : Char} (h : isDigit c = true) : c.toLower = c := by
  unfold Char.toLower
  split
  next hupper =>
    have hlow : 65 ≤ c.toNat := UInt32.le_iff_toNat_le.mp hupper.1
    have hhigh : c.toNat ≤ 90 := UInt32.le_iff_toNat_le.mp hupper.2
    have hcodes : ∀ n ∈ List.range' 65 26, isDigit (Char.ofNat n) = false := by decide
    have hcode := hcodes c.toNat (by simp; omega)
    rw [Char.ofNat_toNat, h] at hcode
    cases hcode
  next => rfl

/-- What begins with a digit is no word for a number. -/
theorem map_toLower_ne {c : Char} (h : isDigit c = true) (cs : List Char) {x : Char}
    {u : List Char} (hx : isDigit x = false) :
    String.ofList ((c :: cs).map Char.toLower) ≠ String.ofList (x :: u) := by
  intro heq
  have hlist := String.ofList_inj.mp heq
  rw [List.map_cons, toLower_of_isDigit h] at hlist
  rw [(List.cons.inj hlist).1, hx] at h
  cases h

theorem readDouble_of_unsigned {c : Char} {x : Double} (hc : isDigit c = true)
    (htight : ∀ y ∈ c :: cs, isTight y = true) (h : readUnsigned? false (c :: cs) = some x) :
    readDouble (.ofList (c :: cs)) = .ok x := by
  have hinf : (String.ofList ((c :: cs).map Char.toLower) == "inf") = false :=
    beq_eq_false_iff_ne.mpr (map_toLower_ne hc cs (x := 'i') (u := ['n', 'f']) (by decide))
  have hinfinity : (String.ofList ((c :: cs).map Char.toLower) == "infinity") = false :=
    beq_eq_false_iff_ne.mpr (map_toLower_ne hc cs (x := 'i') (by decide))
  have hnan : (String.ofList ((c :: cs).map Char.toLower) == "nan") = false :=
    beq_eq_false_iff_ne.mpr (map_toLower_ne hc cs (x := 'n') (u := ['a', 'n']) (by decide))
  simp only [readDouble, String.toList_ofList, trimBy_isPadding htight,
    ungroup_of_isTight htight false, Option.bind_some, takeSign_of_isDigit hc, hinf, hinfinity,
    hnan, Bool.or_false, Bool.false_eq_true, if_false, h]

/-- Every integer lexeme is read as a double that is a magnitude. -/
theorem readDouble_of_integer (h : w ∈ Rule.integer.language) :
    ∃ x, readDouble (.ofList w) = .ok x ∧ x.IsMagnitude := by
  have htight := (within_isTight_digits.mul within_isTight_power) w h
  obtain ⟨d, hd, v, hv, rfl⟩ := Language.mem_mul.mp h
  obtain ⟨c, cs, rfl, hc, -⟩ := exists_of_mem_digits hd
  obtain ⟨n, e, hread⟩ := readUnsigned?_whole hd hv
  exact ⟨_, readDouble_of_unsigned hc htight hread, Double.isMagnitude_ofDecimal n e⟩

/-- Every float lexeme is read as a double that is a magnitude. -/
theorem readDouble_of_float (h : w ∈ Rule.float.language) :
    ∃ x, readDouble (.ofList w) = .ok x ∧ x.IsMagnitude := by
  have hpoint : Rule.Within isTight (Rule.char '.') := by
    intro u hu c hc
    rw [Rule.mem_char.mp hu, List.mem_singleton] at hc
    rw [hc]
    decide
  have hfraction := Rule.within_star_one isTight_of_isDigit
  have htail := hpoint.mul (hfraction.mul within_isTight_power)
  have htight := within_isTight_digits.mul htail w h
  obtain ⟨d, hd, u, hu, rfl⟩ := Language.mem_mul.mp h
  obtain ⟨fv, hfv, rfl⟩ := Rule.mem_char_mul.mp hu
  obtain ⟨f, hf, v, hv, rfl⟩ := Language.mem_mul.mp hfv
  obtain ⟨c, cs, rfl, hc, -⟩ := exists_of_mem_digits hd
  obtain ⟨n, e, hread⟩ := readUnsigned?_point hd hf hv
  exact ⟨_, readDouble_of_unsigned hc htight hread, Double.isMagnitude_ofDecimal n e⟩

/-- Without the letter of an exponent, an integer lexeme is digits only. -/
theorem mem_digits_of_integer (h : w ∈ Rule.integer.language)
    (hletter : (w.any fun c => c == 'e' || c == 'E') = false) : w ∈ Rule.digits := by
  obtain ⟨d, hd, v, hv, rfl⟩ := Language.mem_mul.mp h
  rcases hv with hv | hv
  · rw [(Language.mem_one v).mp hv, List.append_nil]
    exact hd
  · obtain ⟨e, rest, he, -, rfl⟩ := Rule.mem_one_mul.mp hv
    rw [List.any_append, List.any_cons, he] at hletter
    simp at hletter

end Numeral

/-! ## The literals of a source text -/

namespace Token

variable {source : String} {tokens : List Token} {t : Token}

/-- The text has the letter of an exponent. -/
def hasExponent (t : Token) : Bool :=
  t.text.toList.any fun c => c == 'e' || c == 'E'

/-- An integer literal without exponent that has more digits than are read. -/
def IsLongInteger (t : Token) : Prop :=
  t.kind = .integer ∧ t.hasExponent = false ∧ Numeral.maxDigits < t.text.toList.countP isDigit

/-- A token of a source text is the end of input, or a lexeme spells it. -/
theorem exists_spells_of_mem (h : ofSource source = .ok tokens) (ht : t ∈ tokens) :
    t.kind = .endOfInput ∨ ∃ l : Lexeme, l.Spells t.kind t.text ∧ l.text ∈ l.rule.language := by
  obtain ⟨ls, hcut⟩ := exists_cut source.toList
  rcases ofSource_cut hcut with ⟨body, hsource, -, hmarks⟩ | ⟨_, _, _, _, _, _, _, hsource⟩
  · rw [h] at hsource
    cases hsource
    rcases List.mem_append.mp ht with ht | ht
    · obtain ⟨o, ho, hmark⟩ := exists_marks_of_mem hmarks ht
      exact .inr ⟨o.2, hmark.1, hcut.mem_language (mem_of_mem_visible ho).1⟩
    · rw [List.mem_singleton.mp ht]
      exact .inl rfl
  · rw [h] at hsource
    cases hsource

/-- The text of a numeral is a word of its rule. -/
theorem text_mem_language (h : ofSource source = .ok tokens) (ht : t ∈ tokens) :
    (t.kind = .integer → t.text.toList ∈ Rule.integer.language) ∧
      (t.kind = .float → t.text.toList ∈ Rule.float.language) := by
  obtain hend | ⟨l, hspells, hmem⟩ := exists_spells_of_mem h ht
  · rw [hend]
    exact ⟨nofun, nofun⟩
  · obtain ⟨kind, text, place⟩ := t
    have htext : ∀ w : List Char, (String.ofList w).toList = w := fun _ => String.toList_ofList
    cases hspells with
    | @integer w =>
      rw [← htext w] at hmem
      exact ⟨fun _ => hmem, nofun⟩
    | @float w =>
      rw [← htext w] at hmem
      exact ⟨nofun, fun _ => hmem⟩
    | keyword | identifier | operator | punctuation | string => exact ⟨nofun, nofun⟩

theorem integerLiteral_of_exponent (h : ofSource source = .ok tokens) (ht : t ∈ tokens)
    (hkind : t.kind = .integer) (hexponent : t.hasExponent = true) :
    ∃ x, integerLiteral t.text = .ok (.float x) ∧ Numeral.readDouble t.text = .ok x ∧
      x.IsMagnitude := by
  obtain ⟨x, hread, hx⟩ := Numeral.readDouble_of_integer ((text_mem_language h ht).1 hkind)
  rw [String.ofList_toList] at hread
  refine ⟨x, ?_, hread, hx⟩
  unfold hasExponent at hexponent
  rw [integerLiteral, if_pos hexponent, hread]

theorem integerLiteral_of_digits (h : ofSource source = .ok tokens) (ht : t ∈ tokens)
    (hkind : t.kind = .integer) (hexponent : t.hasExponent = false) :
    integerLiteral t.text =
      if Numeral.maxDigits < t.text.toList.countP isDigit then
        .error (.abort (.numeral (.tooManyDigits (t.text.toList.countP isDigit))))
      else if minInt ≤ Numeral.ofDigits t.text.toList ∧ Numeral.ofDigits t.text.toList ≤ maxInt then
        .ok (.int (Numeral.ofDigits t.text.toList))
      else refuse (.literalOutOfRange t.text) := by
  have hdigits := Numeral.mem_digits_of_integer ((text_mem_language h ht).1 hkind) hexponent
  obtain ⟨c, cs, -, -, hall⟩ := Numeral.exists_of_mem_digits hdigits
  have hread := Numeral.readInteger_of_digits hdigits
  rw [String.ofList_toList] at hread
  unfold hasExponent at hexponent
  rw [integerLiteral, hexponent, hread, List.countP_eq_length.mpr hall]
  by_cases hlong : Numeral.maxDigits < t.text.toList.length
  · simp only [if_pos hlong, Bool.false_eq_true, if_false]
  · simp only [if_neg hlong, Bool.false_eq_true, if_false, Double.signed, Bool.and_eq_true,
      decide_eq_true_eq]

theorem floatLiteral_eq (h : ofSource source = .ok tokens) (ht : t ∈ tokens)
    (hkind : t.kind = .float) :
    ∃ x, floatLiteral t.text = .ok (.float x) ∧ Numeral.readDouble t.text = .ok x ∧
      x.IsMagnitude := by
  obtain ⟨x, hread, hx⟩ := Numeral.readDouble_of_float ((text_mem_language h ht).2 hkind)
  rw [String.ofList_toList] at hread
  refine ⟨x, ?_, hread, hx⟩
  rw [floatLiteral, hread]

/-- The only term that aborts is a long integer literal. -/
theorem value?_eq_abort_iff {scopes : Scopes} {a : Abort} (h : ofSource source = .ok tokens)
    (ht : t ∈ tokens) :
    t.value? scopes = some (.error (.abort a)) ↔
      t.IsLongInteger ∧ a = .numeral (.tooManyDigits (t.text.toList.countP isDigit)) := by
  have hother : t.kind ≠ .integer → ¬ t.IsLongInteger := fun hkind hlong => hkind hlong.1
  cases hkind : t.kind with
  | integer =>
    simp only [value?, hkind, Option.some.injEq]
    cases hexponent : t.hasExponent with
    | true =>
      obtain ⟨x, hliteral, -⟩ := integerLiteral_of_exponent h ht hkind hexponent
      rw [hliteral]
      simp [IsLongInteger, hexponent]
    | false =>
      rw [integerLiteral_of_digits h ht hkind hexponent]
      by_cases hlong : Numeral.maxDigits < t.text.toList.countP isDigit
      · simp [IsLongInteger, hkind, hexponent, hlong, eq_comm]
      · rw [if_neg hlong]
        constructor
        · intro hvalue
          split at hvalue
          · cases hvalue
          · cases hvalue
        · intro hvalue
          exact absurd hvalue.1.2.2 hlong
  | float =>
    simp only [value?, hkind, Option.some.injEq]
    obtain ⟨x, hliteral, -⟩ := floatLiteral_eq h ht hkind
    rw [hliteral]
    simp [hother (by simp [hkind])]
  | identifier =>
    simp only [value?, hkind, Option.some.injEq, hother (by simp [hkind]), false_and, iff_false]
    cases scopes.lookup t.text with
    | none => exact nofun
    | some v => exact nofun
  | string | keyword | operator | punctuation | endOfInput =>
    simp [value?, hkind, hother (by simp [hkind])]

/-- A value that a literal of a source text can have: a 64-bit integer, the text of a string token,
or what a numeral with point or exponent is read as, which is a magnitude. -/
theorem value?_eq_ok {v : Value} (h : ofSource source = .ok tokens) (ht : t ∈ tokens)
    (hidentifier : t.kind ≠ .identifier) (hvalue : t.value? {} = some (.ok v)) :
    (∃ n, v = .int n ∧ minInt ≤ n ∧ n ≤ maxInt) ∨ (v = .str t.text ∧ t.kind = .string) ∨
      ∃ x, v = .float x ∧ Numeral.readDouble t.text = .ok x ∧ x.IsMagnitude ∧
        (t.kind = .float ∨ t.kind = .integer ∧ t.hasExponent = true) := by
  cases hkind : t.kind with
  | integer =>
    simp only [value?, hkind, Option.some.injEq] at hvalue
    cases hexponent : t.hasExponent with
    | true =>
      obtain ⟨x, hliteral, hread, hx⟩ := integerLiteral_of_exponent h ht hkind hexponent
      rw [hliteral] at hvalue
      cases hvalue
      exact .inr (.inr ⟨x, rfl, hread, hx, .inr ⟨rfl, rfl⟩⟩)
    | false =>
      rw [integerLiteral_of_digits h ht hkind hexponent] at hvalue
      split at hvalue
      · cases hvalue
      · split at hvalue
        next hrange =>
          cases hvalue
          exact .inl ⟨_, rfl, hrange⟩
        next => cases hvalue
  | float =>
    simp only [value?, hkind, Option.some.injEq] at hvalue
    obtain ⟨x, hliteral, hread, hx⟩ := floatLiteral_eq h ht hkind
    rw [hliteral] at hvalue
    cases hvalue
    exact .inr (.inr ⟨x, rfl, hread, hx, .inl rfl⟩)
  | string =>
    simp only [value?, hkind, Option.some.injEq] at hvalue
    cases hvalue
    exact .inr (.inl ⟨rfl, rfl⟩)
  | identifier => exact absurd hkind hidentifier
  | keyword | operator | punctuation | endOfInput => simp [value?, hkind] at hvalue

end Token

end TokenWalk
