import Mathlib.Data.Int.ModEq
import Mathlib.Data.Rat.Floor
import TokenWalk.Value.Arithmetic

/-!
# Arithmetic on machine words

Arithmetic computes with unbounded integers and wraps at the end.  What comes of it is the
arithmetic of signed 64-bit words, here Lean's own `BitVec 64`.

* Operands.  `Double.value?` is the exact value of a double, and `Value.counted?` the integer that
  an operand counts as; a double counts by its integer part, which `truncate?_eq` finds in the
  exact value.
* Operations.  `Arithmetic.onWords` is what an operator does to words, and `wrap_unwrapped` says
  that wrapping the exact result gives just that.
* Failures.  An operator fails for three reasons only: a type, a double that is not finite, or a
  divisor that counts as zero.
-/

namespace TokenWalk

/-! ## The integer part of a double -/

/-- The exact value of a finite double. -/
def Double.value? : Double → Option ℚ
  | .finite negative m e _ => some ((if negative then -1 else 1) * (m * 2 ^ e))
  | .infinite _ | .nan => none

/-- The integer part of a fraction, towards zero. -/
def integerPart (q : ℚ) : ℤ :=
  if 0 ≤ q then ⌊q⌋ else ⌈q⌉

theorem floor_mul_two_zpow (m : ℕ) (e : ℤ) :
    ⌊(m : ℚ) * 2 ^ e⌋ =
      ((if 0 ≤ e then m * Nat.pow 2 e.toNat else m / Nat.pow 2 (-e).toNat : ℕ) : ℤ) := by
  by_cases he : 0 ≤ e
  · have hpow : (2 : ℚ) ^ e = ((2 ^ e.toNat : ℕ) : ℚ) := by
      conv_lhs => rw [← Int.toNat_of_nonneg he]
      push_cast
      exact zpow_natCast 2 e.toNat
    rw [if_pos he, hpow, ← Nat.cast_mul, Int.floor_natCast]
    rfl
  · have hpow : (2 : ℚ) ^ e = ((2 ^ (-e).toNat : ℕ) : ℚ)⁻¹ := by
      have hneg : e = -((-e).toNat : ℤ) := by omega
      conv_lhs => rw [hneg]
      push_cast
      rw [zpow_neg, zpow_natCast]
    rw [if_neg he, hpow, ← div_eq_mul_inv, Rat.floor_natCast_div_natCast]
    rfl

/-- The integer part of a signed fraction is that of its magnitude with the sign. -/
theorem integerPart_signed (negative : Bool) {q : ℚ} {n : ℕ} (hq : 0 ≤ q) (hn : ⌊q⌋ = n) :
    integerPart ((if negative then -1 else 1) * q) = Double.signed negative n := by
  cases negative with
  | false => simp [integerPart, Double.signed, hq, hn]
  | true =>
    have hceil : ⌈-q⌉ = -(n : ℤ) := by rw [Int.ceil_neg, hn]
    rcases hq.eq_or_lt with rfl | hpos
    · have hzero : n = 0 := by simpa [eq_comm] using hn
      simp [integerPart, Double.signed, hzero]
    · simp [integerPart, Double.signed, hpos, hceil]

/-- What truncation gives is the integer part of the exact value. -/
theorem Double.truncate?_eq (x : Double) : x.truncate? = x.value?.map integerPart := by
  cases x with
  | finite negative m e _ =>
    have hpos : (0 : ℚ) ≤ m * 2 ^ e := mul_nonneg m.cast_nonneg (zpow_nonneg zero_le_two e)
    simp only [truncate?, value?, Option.map_some,
      integerPart_signed negative hpos (floor_mul_two_zpow m e)]
  | infinite _ | nan => rfl

/-! ## Words -/

/-- The integer fits into a signed word of 64 bits. -/
def FitsWord (n : ℤ) : Prop :=
  minInt ≤ n ∧ n ≤ maxInt

theorem fitsWord_wrap (n : ℤ) : FitsWord (wrap n) :=
  ⟨minInt_le_wrap n, wrap_le_maxInt n⟩

/-- Wrapping takes the balanced remainder. -/
theorem wrap_eq_bmod (n : ℤ) : wrap n = n.bmod (2 ^ 64) := by
  unfold wrap minInt Int.bmod
  simp only [Nat.reducePow, Nat.cast_ofNat]
  split
  · omega
  · omega

theorem toInt_ofInt_of_fitsWord {n : ℤ} (h : FitsWord n) : (BitVec.ofInt 64 n).toInt = n := by
  rw [BitVec.toInt_ofInt, ← wrap_eq_bmod, wrap_of_mem h.1 h.2]

/-- What an operator does to words in two's complement. -/
def Arithmetic.onWords (left right : BitVec 64) : Arithmetic → BitVec 64
  | .add => left + right
  | .sub => left - right
  | .mul => left * right
  | .div => left.sdiv right
  | .mod => left.smod right

/-! ## Remainders -/

section Remainder

variable {l r : ℤ}

/-- A remainder is between zero and the divisor, which it never reaches. -/
theorem fmod_bounds (l r : ℤ) :
    (0 < r → 0 ≤ l.fmod r ∧ l.fmod r < r) ∧ (r < 0 → r < l.fmod r ∧ l.fmod r ≤ 0) := by
  refine ⟨fun hpos => ⟨Int.fmod_nonneg_of_pos l hpos, Int.fmod_lt_of_pos l hpos⟩, fun hneg => ?_⟩
  -- Both signs change together.
  have hpos : 0 < -r := by omega
  have hnonneg := Int.fmod_nonneg_of_pos (-l) hpos
  have hlt := Int.fmod_lt_of_pos (-l) hpos
  rw [Int.neg_fmod_neg] at hnonneg hlt
  omega

theorem fitsWord_fmod (hl : FitsWord l) (hr : FitsWord r) : FitsWord (l.fmod r) := by
  by_cases hzero : r = 0
  · subst hzero
    rw [Int.fmod_zero]
    exact hl
  · obtain ⟨hpos, hneg⟩ := fmod_bounds l r
    have hmin : minInt ≤ 0 := by decide
    have hmax : 0 ≤ maxInt := by decide
    unfold FitsWord at hr ⊢
    omega

theorem fmod_modEq (l r : ℤ) : l.fmod r ≡ l [ZMOD r] := by
  rw [Int.fmod_def]
  exact Int.modEq_iff_dvd.mpr ⟨l.fdiv r, by ring⟩

/-- A quotient of words fits into a word, but for the least word by minus one. -/
theorem wrap_tdiv (hl : FitsWord l) :
    wrap (l.tdiv r) = if l = minInt ∧ r = -1 then minInt else l.tdiv r := by
  split
  next h =>
    obtain ⟨rfl, rfl⟩ := h
    decide
  next h =>
    obtain ⟨hmin, hmax⟩ := hl
    have hmagnitude := Int.natAbs_tdiv l r
    -- A divisor other than zero and the units halves the magnitude at least.
    have hhalf : 2 ≤ r.natAbs → l.natAbs.div r.natAbs ≤ l.natAbs / 2 := fun htwo =>
      Nat.div_le_div_left htwo two_pos
    by_cases htwo : 2 ≤ r.natAbs
    · have hle := hhalf htwo
      refine wrap_of_mem ?_ ?_
      all_goals
        unfold minInt maxInt at *
        omega
    · obtain rfl | rfl | rfl : r = 0 ∨ r = 1 ∨ r = -1 := by omega
      · rw [Int.tdiv_zero]
        decide
      · rw [Int.tdiv_one, wrap_of_mem hmin hmax]
      · rw [Int.tdiv_neg, Int.tdiv_one]
        refine wrap_of_mem ?_ ?_
        all_goals
          unfold minInt maxInt at *
          omega

end Remainder

/-! ## Operations -/

namespace Arithmetic

variable {op : Arithmetic} {l r : ℤ}

/-- The operator divides, so that it has no result for the divisor zero. -/
def Divides (op : Arithmetic) : Prop :=
  op = .div ∨ op = .mod

/-- The exact result of an operator that has one. -/
def unwrapped (l r : ℤ) : Arithmetic → ℤ
  | .add => l + r
  | .sub => l - r
  | .mul => l * r
  | .div => l.tdiv r
  | .mod => l.fmod r

theorem compute_of_divides (h : op.Divides) (l : ℤ) :
    ∃ cause : Cause, op.compute l 0 = refuse cause ∧ cause.family = .arithmetic := by
  rcases h with rfl | rfl
  · exact ⟨.divisionByZero, rfl, rfl⟩
  · exact ⟨.moduloByZero, rfl, rfl⟩

theorem compute_eq_unwrapped (l : ℤ) (h : ¬ (op.Divides ∧ r = 0)) :
    op.compute l r = .ok (op.unwrapped l r) := by
  cases op with
  | add | sub | mul => rfl
  | div =>
    have hr : r ≠ 0 := fun hr => h ⟨.inl rfl, hr⟩
    simp [compute, unwrapped, hr, quotient_eq_tdiv]
  | mod =>
    have hr : r ≠ 0 := fun hr => h ⟨.inr rfl, hr⟩
    simp [compute, unwrapped, hr]

/-- The wrapped result for integers that fit into words is that for the words. -/
theorem wrap_unwrapped (op : Arithmetic) (hl : FitsWord l) (hr : FitsWord r) :
    wrap (op.unwrapped l r) = (op.onWords (.ofInt 64 l) (.ofInt 64 r)).toInt := by
  have hl' := toInt_ofInt_of_fitsWord hl
  have hr' := toInt_ofInt_of_fitsWord hr
  cases op with
  | add => rw [onWords, BitVec.toInt_add, hl', hr', ← wrap_eq_bmod, unwrapped]
  | sub => rw [onWords, BitVec.toInt_sub, hl', hr', ← wrap_eq_bmod, unwrapped]
  | mul => rw [onWords, BitVec.toInt_mul, hl', hr', ← wrap_eq_bmod, unwrapped]
  | div => rw [onWords, BitVec.toInt_sdiv, hl', hr', ← wrap_eq_bmod, unwrapped]
  | mod =>
    have hfits := fitsWord_fmod hl hr
    rw [onWords, BitVec.toInt_smod, hl', hr', unwrapped, wrap_of_mem hfits.1 hfits.2]

end Arithmetic

/-! ## Operands -/

namespace Value

variable {v left right : Value} {op : Arithmetic} {l r n : ℤ}

/-- The value is an integer or a double. -/
def IsNumber (v : Value) : Prop :=
  v.type = .int ∨ v.type = .float

/-- The value is an infinity, or not a number among the doubles. -/
def IsNonFinite (v : Value) : Prop :=
  v = .float .nan ∨ ∃ negative, v = .float (.infinite negative)

/-- The integer that a value counts as: an integer as it is, a finite double by its integer part,
brought into the signed 64-bit range by a multiple of `2 ^ 64`. -/
def counted? : Value → Option ℤ
  | .int n => some n
  | .float x => x.value?.map fun q => (integerPart q).bmod (2 ^ 64)
  | .str _ | .bool _ | .nothing => none

/-- What an operand can be: no number, a double that is not finite, or a number that counts as an
integer. -/
inductive Operand (v : Value) : Prop where
  | noNumber (h : ¬ v.IsNumber) (hnumber : v.number? = none) (hcounted : v.counted? = none)
  | nonFinite {a : Number} (h : v.IsNumber) (hfinite : v.IsNonFinite)
      (hnumber : v.number? = some a) (hcounted : v.counted? = none)
      (hoperand : ∀ op, ∃ x, a.operand op = refuse (.nonFinite op x))
  | counted {a : Number} {n : ℤ} (h : v.IsNumber) (hfinite : ¬ v.IsNonFinite)
      (hnumber : v.number? = some a) (hcounted : v.counted? = some n)
      (hoperand : ∀ op, a.operand op = .ok n)

theorem operand (v : Value) : Operand v := by
  cases v with
  | int n => exact .counted (.inl rfl) (by simp [IsNonFinite]) rfl rfl fun _ => rfl
  | float x =>
    cases x with
    | finite negative m e h =>
      refine .counted (.inr rfl) (by simp [IsNonFinite]) rfl rfl fun op => ?_
      simp only [Number.operand, Double.truncate?_eq, Double.value?, Option.map_some, wrap_eq_bmod]
    | infinite negative =>
      exact .nonFinite (.inr rfl) (.inr ⟨negative, rfl⟩) rfl rfl fun _ => ⟨_, rfl⟩
    | nan => exact .nonFinite (.inr rfl) (.inl rfl) rfl rfl fun _ => ⟨_, rfl⟩
  | str _ | bool _ | nothing => exact .noNumber (by simp [IsNumber, type]) rfl rfl

/-! ## Results -/

/-- The operands have no result: one of them is not finite, or the divisor counts as zero. -/
def Undefined (left : Value) (op : Arithmetic) (right : Value) : Prop :=
  left.IsNonFinite ∨ right.IsNonFinite ∨ op.Divides ∧ right.counted? = some 0

theorem apply_of_not_isNumber (op : Arithmetic) (h : ¬ (left.IsNumber ∧ right.IsNumber)) :
    left.apply (.arithmetic op) right =
      refuse (.invalidOperands (.arithmetic op) left.type right.type) := by
  unfold apply
  cases left.operand with
  | noNumber _ hleft => simp only [hleft]
  | nonFinite hl _ hleft | counted hl _ hleft =>
    cases right.operand with
    | noNumber _ hright => simp only [hleft, hright]
    | nonFinite hr | counted hr => exact absurd ⟨hl, hr⟩ h

/-- The operands are looked at from left to right. -/
theorem apply_of_isNonFinite (op : Arithmetic) (hl : left.IsNumber) (hr : right.IsNumber)
    (h : left.IsNonFinite ∨ right.IsNonFinite) :
    ∃ x, left.apply (.arithmetic op) right = refuse (.nonFinite (.arithmetic op) x) := by
  unfold apply
  cases left.operand with
  | noNumber hl' => exact absurd hl hl'
  | nonFinite _ _ hleft _ hoperand =>
    obtain ⟨x, hx⟩ := hoperand (.arithmetic op)
    cases right.operand with
    | noNumber hr' => exact absurd hr hr'
    | nonFinite _ _ hright | counted _ _ hright =>
      refine ⟨x, ?_⟩
      simp only [hleft, hright, hx]
      rfl
  | counted _ hfinite hleft _ hoperand =>
    cases right.operand with
    | noNumber hr' => exact absurd hr hr'
    | counted _ hfinite' => exact absurd h (not_or.mpr ⟨hfinite, hfinite'⟩)
    | nonFinite _ _ hright _ hoperand' =>
      obtain ⟨x, hx⟩ := hoperand' (.arithmetic op)
      refine ⟨x, ?_⟩
      simp only [hleft, hright, hoperand, hx]
      rfl

theorem exists_operand_of_counted? (h : v.counted? = some n) (op : Operator) :
    ∃ a, v.number? = some a ∧ a.operand op = .ok n := by
  cases v.operand with
  | noNumber _ _ hcounted | nonFinite _ _ _ hcounted =>
    rw [h] at hcounted
    cases hcounted
  | counted _ _ hnumber hcounted hoperand =>
    rw [h] at hcounted
    cases hcounted
    exact ⟨_, hnumber, hoperand op⟩

theorem apply_of_counted? (op : Arithmetic) (hl : left.counted? = some l)
    (hr : right.counted? = some r) :
    left.apply (.arithmetic op) right = (op.compute l r).map wrap := by
  obtain ⟨a, hleft, ha⟩ := exists_operand_of_counted? hl (.arithmetic op)
  obtain ⟨b, hright, hb⟩ := exists_operand_of_counted? hr (.arithmetic op)
  simp only [apply, hleft, hright, ha, hb]
  show (op.compute l r >>= fun n => pure (wrap n)) = _
  cases op.compute l r with
  | ok n => rfl
  | error stop => rfl

theorem exists_counted? (h : v.IsNumber) (hfinite : ¬ v.IsNonFinite) :
    ∃ n, v.counted? = some n := by
  cases v.operand with
  | noNumber h' => exact absurd h h'
  | nonFinite _ hfinite' => exact absurd hfinite' hfinite
  | counted _ _ _ hcounted => exact ⟨_, hcounted⟩

theorem apply_of_undefined (hl : left.IsNumber) (hr : right.IsNumber)
    (h : Undefined left op right) :
    ∃ cause : Cause, left.apply (.arithmetic op) right = refuse cause ∧
      cause.family = .arithmetic := by
  by_cases hfinite : left.IsNonFinite ∨ right.IsNonFinite
  · obtain ⟨x, hx⟩ := apply_of_isNonFinite op hl hr hfinite
    exact ⟨_, hx, rfl⟩
  · obtain ⟨hleft, hright⟩ := not_or.mp hfinite
    obtain ⟨hdivides, hzero⟩ := (h.resolve_left hleft).resolve_left hright
    obtain ⟨l, hl⟩ := exists_counted? hl hleft
    obtain ⟨cause, hcompute, hfamily⟩ := Arithmetic.compute_of_divides hdivides l
    refine ⟨cause, ?_, hfamily⟩
    rw [apply_of_counted? op hl hzero, hcompute]
    rfl

theorem apply_of_defined (hl : left.IsNumber) (hr : right.IsNumber)
    (h : ¬ Undefined left op right) :
    ∃ l r, left.counted? = some l ∧ right.counted? = some r ∧ (op.Divides → r ≠ 0) ∧
      left.apply (.arithmetic op) right = .ok (wrap (op.unwrapped l r)) := by
  obtain ⟨l, hleft⟩ := exists_counted? hl fun hfinite => h (.inl hfinite)
  obtain ⟨r, hright⟩ := exists_counted? hr fun hfinite => h (.inr (.inl hfinite))
  have hdivisor : op.Divides → r ≠ 0 := by
    rintro hdivides rfl
    exact h (.inr (.inr ⟨hdivides, hright⟩))
  refine ⟨l, r, hleft, hright, hdivisor, ?_⟩
  have hcompute := Arithmetic.compute_eq_unwrapped l fun hzero => hdivisor hzero.1 hzero.2
  rw [apply_of_counted? op hleft hright, hcompute]
  rfl

/-- An operator fails by the types of its operands exactly if one of them is no number, and by
their values exactly if these have no result.  Otherwise it gives an integer that fits into a word,
which for operands that fit, too, is what the operator gives for the words.  The quotient is cut off
towards zero, and overflows only for the least word by minus one.  The remainder never overflows; it
has the sign of the divisor and a smaller magnitude, and is congruent to the dividend. -/
theorem apply_onWords (left right : Value) (op : Arithmetic) :
    ((∃ f, left.apply (.arithmetic op) right = .error (.fault f) ∧
        f.cause.family = .operandType) ↔ ¬ (left.IsNumber ∧ right.IsNumber)) ∧
      ((∃ f, left.apply (.arithmetic op) right = .error (.fault f) ∧
        f.cause.family = .arithmetic) ↔
          (left.IsNumber ∧ right.IsNumber) ∧ Undefined left op right) ∧
      (left.IsNumber ∧ right.IsNumber → ¬ Undefined left op right →
        ∃ l r n, left.counted? = some l ∧ right.counted? = some r ∧
          left.apply (.arithmetic op) right = .ok n ∧ FitsWord n ∧
          (FitsWord l → FitsWord r →
            n = (op.onWords (.ofInt 64 l) (.ofInt 64 r)).toInt ∧
            (op = .div → n = if l = minInt ∧ r = -1 then minInt else l.tdiv r) ∧
            (op = .mod → n = l.fmod r ∧ n.natAbs < r.natAbs ∧ (0 < r → 0 ≤ n) ∧
              (r < 0 → n ≤ 0) ∧ n ≡ l [ZMOD r]))) := by
  by_cases hnumbers : left.IsNumber ∧ right.IsNumber
  case neg =>
    rw [apply_of_not_isNumber op hnumbers]
    refine ⟨⟨fun _ => hnumbers, fun _ => ⟨_, rfl, rfl⟩⟩, ⟨?_, fun h => absurd h.1 hnumbers⟩,
      fun h => absurd h hnumbers⟩
    rintro ⟨f, ⟨⟩, hfamily⟩
    cases hfamily
  by_cases hundefined : Undefined left op right
  · obtain ⟨cause, happly, hcause⟩ := apply_of_undefined hnumbers.1 hnumbers.2 hundefined
    rw [happly]
    refine ⟨⟨?_, fun h => absurd hnumbers h⟩, ⟨fun _ => ⟨hnumbers, hundefined⟩, fun _ =>
      ⟨_, rfl, hcause⟩⟩, fun _ h => absurd hundefined h⟩
    rintro ⟨f, ⟨⟩, hfamily⟩
    cases hcause.symm.trans hfamily
  · obtain ⟨l, r, hl, hr, hdivisor, happly⟩ := apply_of_defined hnumbers.1 hnumbers.2 hundefined
    have hsuccess : ∀ f, left.apply (.arithmetic op) right ≠ .error (.fault f) := by
      intro f h
      cases happly.symm.trans h
    refine ⟨⟨fun ⟨f, h, _⟩ => absurd h (hsuccess f), fun h => absurd hnumbers h⟩,
      ⟨fun ⟨f, h, _⟩ => absurd h (hsuccess f), fun h => absurd h.2 hundefined⟩, fun _ _ =>
      ⟨l, r, _, hl, hr, happly, fitsWord_wrap _, fun hfl hfr =>
        ⟨Arithmetic.wrap_unwrapped op hfl hfr, ?_, ?_⟩⟩⟩
    · rintro rfl
      exact wrap_tdiv hfl
    · rintro rfl
      have hfits := fitsWord_fmod hfl hfr
      have hzero := hdivisor (.inr rfl)
      obtain ⟨hpos, hneg⟩ := fmod_bounds l r
      rw [Arithmetic.unwrapped, wrap_of_mem hfits.1 hfits.2]
      exact ⟨rfl, by omega, fun h => (hpos h).1, fun h => (hneg h).2, fmod_modEq l r⟩

/-- The one quotient that overflows. -/
example : (Value.int minInt).apply (.arithmetic .div) (.int (-1)) = .ok minInt := by decide

/-- The double `2 ^ 64` counts as zero, so it is no divisor. -/
example : (Value.int 1).apply (.arithmetic .mod) (.float (.ofInt 0x10000000000000000)) =
    refuse .moduloByZero := by decide +kernel

end Value

end TokenWalk
