import Mathlib.Algebra.Order.Field.Power
import Mathlib.Data.Nat.Cast.Field
import Mathlib.Order.WithBot
import Mathlib.Tactic.Linarith
import TokenWalk.Proofs.Literals
import TokenWalk.Proofs.WordArithmetic

/-!
# Comparisons follow the exact values

The order of 64-bit integers and doubles, in any mix, is that of their exact values, with an
infinity on either side.  Numbers without a fraction are compared as integers.  Otherwise both sides
are taken as doubles, and an integer that is rounded for this could change its place.  It does not:
the other side has a fraction, so its magnitude is below `2 ^ 52`, or it is an infinity.

* `Double.extended?` is the exact value of a double, and `Double.lt_eq` says that doubles are
  ordered by it.
* An integer below `2 ^ 53` is a double itself (`extended?_ofInt`), a larger one is rounded to a
  double that is not below `2 ^ 53` either (`extended?_ofInt_of_large`).
* `relation_orders` puts the ways of comparing together.
-/

namespace TokenWalk

/-- A fraction, or an infinity on either side. -/
abbrev Extended := WithBot (WithTop ℚ)

namespace Extended

/-- A fraction between the infinities. -/
def ofRat (q : ℚ) : Extended :=
  ((q : WithTop ℚ) : WithBot (WithTop ℚ))

@[simp] theorem ofRat_lt_ofRat {p q : ℚ} : ofRat p < ofRat q ↔ p < q := by
  simp [ofRat]

@[simp] theorem bot_lt_ofRat (q : ℚ) : (⊥ : Extended) < ofRat q :=
  WithBot.bot_lt_coe _

@[simp] theorem ofRat_lt_top (q : ℚ) : ofRat q < (⊤ : Extended) :=
  WithBot.coe_lt_coe.mpr (WithTop.coe_lt_top q)

end Extended

namespace Double

/-! ## The order of doubles -/

/-- The exact value of a double, infinities included; what is not a number has none. -/
def extended? : Double → Option Extended
  | .infinite true => some ⊥
  | .infinite false => some ⊤
  | x => x.value?.map .ofRat

theorem exists_extended? {x : Double} (h : x ≠ .nan) : ∃ a, x.extended? = some a := by
  cases x with
  | finite negative m e _ => exact ⟨_, rfl⟩
  | infinite negative => cases negative <;> exact ⟨_, rfl⟩
  | nan => exact absurd rfl h

theorem ne_nan_of_extended? {x : Double} {a : Extended} (h : x.extended? = some a) : x ≠ .nan := by
  rintro rfl
  cases h

theorem signed_cast (negative : Bool) (n : ℕ) :
    (signed negative n : ℚ) = (if negative then -1 else 1) * n := by
  cases negative <;> simp [signed]

/-- The units of a double are its exact value, counted in the least positive double. -/
theorem units_cast {e : ℤ} (negative : Bool) (m : ℕ) (h : -1074 ≤ e) :
    (units negative m e : ℚ) = (if negative then -1 else 1) * (m * 2 ^ e) * 2 ^ (1074 : ℤ) := by
  have hnat : ((e + 1074).toNat : ℤ) = e + 1074 := Int.toNat_of_nonneg (by omega)
  have hpow : (2 : ℚ) ^ (e + 1074).toNat = 2 ^ e * 2 ^ (1074 : ℤ) := by
    rw [← zpow_natCast, hnat, zpow_add₀ two_ne_zero]
  rw [units, signed_cast, Nat.pow_eq, Nat.cast_mul, Nat.cast_pow, Nat.cast_ofNat, hpow]
  ring

/-- Doubles are ordered by their exact values. -/
theorem lt_eq {x y : Double} {a b : Extended} (hx : x.extended? = some a)
    (hy : y.extended? = some b) : x.lt y = decide (a < b) := by
  cases x with
  | nan => cases hx
  | infinite negative =>
    cases y with
    | nan => cases hy
    | infinite negative' =>
      cases negative <;> cases negative' <;> cases hx <;> cases hy <;> simp [lt]
    | finite negative' n f h' => cases negative <;> cases hx <;> cases hy <;> simp [lt]
  | finite negative m e h =>
    cases y with
    | nan => cases hy
    | infinite negative' => cases negative' <;> cases hx <;> cases hy <;> simp [lt]
    | finite negative' n f h' =>
      cases hx
      cases hy
      have hpos : (0 : ℚ) < 2 ^ (1074 : ℤ) := zpow_pos two_pos _
      refine decide_eq_decide.mpr ?_
      rw [Extended.ofRat_lt_ofRat, ← Int.cast_lt (R := ℚ), units_cast _ _ h.2.1,
        units_cast _ _ h'.2.1, mul_lt_mul_iff_left₀ hpos]

theorem le_eq {x y : Double} {a b : Extended} (hx : x.extended? = some a)
    (hy : y.extended? = some b) : x.le y = decide (a ≤ b) := by
  have hnan : (x != .nan) = true := bne_iff_ne.mpr (ne_nan_of_extended? hx)
  have hnan' : (y != .nan) = true := bne_iff_ne.mpr (ne_nan_of_extended? hy)
  rw [le, hnan, hnan', lt_eq hy hx, Bool.true_and, Bool.true_and, ← decide_not]
  exact decide_eq_decide.mpr not_lt

/-! ## Doubles with a fraction -/

/-- A finite double with a fraction is below `2 ^ 52`. -/
theorem abs_lt_of_not_isIntegral {negative : Bool} {m : ℕ} {e : ℤ} {h : Canonical m e}
    (hfraction : (finite negative m e h).isIntegral = false) :
    |(if negative then -1 else 1) * ((m : ℚ) * 2 ^ e)| < 2 ^ 52 := by
  simp only [isIntegral, Bool.or_eq_false_iff, decide_eq_false_iff_not] at hfraction
  have hm : (m : ℚ) < 2 ^ 53 := by exact_mod_cast h.1
  have he : (2 : ℚ) ^ e ≤ 2 ^ (-1 : ℤ) := zpow_le_zpow_right₀ one_le_two (by omega)
  have hpos : (0 : ℚ) < 2 ^ e := zpow_pos two_pos e
  have hmagnitude : (m : ℚ) * 2 ^ e < 2 ^ 52 := by
    calc (m : ℚ) * 2 ^ e < 2 ^ 53 * 2 ^ e := mul_lt_mul_of_pos_right hm hpos
      _ ≤ 2 ^ 53 * 2 ^ (-1 : ℤ) := mul_le_mul_of_nonneg_left he (by norm_num)
      _ = 2 ^ 52 := by norm_num
  have hsign : |(if negative then -1 else 1 : ℚ)| = 1 := by cases negative <;> simp
  rw [abs_mul, hsign, one_mul, abs_of_nonneg (by positivity)]
  exact hmagnitude

/-- A double without a fraction is the integer it is cut off to. -/
theorem extended?_of_isIntegral {x : Double} {n : ℤ} (hintegral : x.isIntegral = true)
    (h : x.truncate? = some n) : x.extended? = some (.ofRat n) := by
  cases x with
  | nan | infinite => cases hintegral
  | finite negative m e hcanonical =>
    cases h
    simp only [isIntegral, Bool.or_eq_true, decide_eq_true_eq, beq_iff_eq] at hintegral
    have hvalue : (m : ℚ) * 2 ^ e =
        ((if 0 ≤ e then m * Nat.pow 2 e.toNat else m / Nat.pow 2 (-e).toNat : ℕ) : ℚ) := by
      by_cases he : 0 ≤ e
      · have hnat : (e.toNat : ℤ) = e := Int.toNat_of_nonneg he
        rw [if_pos he, Nat.pow_eq, Nat.cast_mul, Nat.cast_pow, Nat.cast_ofNat, ← zpow_natCast, hnat]
      · have hnat : ((-e).toNat : ℤ) = -e := Int.toNat_of_nonneg (by omega)
        have hdivides : 2 ^ (-e).toNat ∣ m := Nat.dvd_of_mod_eq_zero (hintegral.resolve_left he)
        rw [if_neg he, Nat.pow_eq, Nat.cast_div hdivides (by positivity), Nat.cast_pow,
          Nat.cast_ofNat, ← zpow_natCast, hnat, zpow_neg, div_inv_eq_mul]
    rw [signed_cast, ← hvalue]
    rfl

/-! ## Integers as doubles -/

/-- The double nearest to a whole number. -/
theorem extended?_ofRatio_one {num : ℕ} (negative : Bool) (hzero : num ≠ 0)
    (h : num.log2 ≤ 1022) :
    (ofRatio negative num 1).extended? =
      some (.ofRat ((if negative then -1 else 1) *
        (leading num * 2 ^ ((num.log2 : ℤ) - 52)))) := by
  obtain ⟨m, e, hcanonical, hratio, hcases⟩ := ofRatio_one negative hzero h
  have hvalue : (m : ℚ) * 2 ^ e = leading num * 2 ^ ((num.log2 : ℤ) - 52) := by
    rcases hcases with ⟨rfl, rfl⟩ | ⟨hcarry, rfl, rfl⟩
    · rfl
    · have hsplit : (num.log2 : ℤ) - 51 = num.log2 - 52 + 1 := by omega
      rw [hcarry, hsplit, zpow_add_one₀ two_ne_zero]
      push_cast
      ring
  rw [hratio, ← hvalue]
  rfl

/-- A whole number of at most 53 bits needs no rounding. -/
theorem leading_of_lt {num : ℕ} (h : num.log2 ≤ 52) :
    leading num = num * 2 ^ (52 - num.log2) := by
  have hround : ∀ k, roundDiv k 1 = k := by
    intro k
    simp [roundDiv, Nat.mod_one]
  unfold leading scaled
  by_cases hbits : num.log2 = 52
  · simp [hbits, hround]
  · have hshift : (-((num.log2 : ℤ) - 52)).toNat = 52 - num.log2 := by omega
    rw [if_neg (by omega), hshift]
    exact hround _

/-- An integer below `2 ^ 53` is a double. -/
theorem extended?_ofInt {n : ℤ} (h : n.natAbs < 2 ^ 53) :
    (ofInt n).extended? = some (.ofRat n) := by
  by_cases hzero : n.natAbs = 0
  · have hn : n = 0 := Int.natAbs_eq_zero.mp hzero
    subst hn
    simp [ofInt, ofRatio, zero, extended?, value?]
  · have hlog : n.natAbs.log2 ≤ 52 := by
      have := (Nat.log2_lt hzero).mpr h
      omega
    have hone : (2 : ℚ) ^ (52 - n.natAbs.log2) * 2 ^ ((n.natAbs.log2 : ℤ) - 52) = 1 := by
      rw [← zpow_natCast, ← zpow_add₀ two_ne_zero]
      have hsum : ((52 - n.natAbs.log2 : ℕ) : ℤ) + ((n.natAbs.log2 : ℤ) - 52) = 0 := by omega
      rw [hsum, zpow_zero]
    rw [ofInt, extended?_ofRatio_one _ hzero (by omega), leading_of_lt hlog]
    rw [Nat.cast_mul, Nat.cast_pow, Nat.cast_ofNat, mul_assoc, hone, mul_one, Nat.cast_natAbs]
    by_cases hneg : n < 0
    · simp [hneg, abs_of_neg]
    · simp [hneg, abs_of_nonneg (not_lt.mp hneg)]

/-- An integer that is not below `2 ^ 53` is rounded to a double that is not either, on the same
side of zero. -/
theorem extended?_ofInt_of_large {n : ℤ} (hn : FitsWord n) (h : 2 ^ 53 ≤ n.natAbs) :
    ∃ q, (ofInt n).extended? = some (.ofRat q) ∧ (0 < n → 2 ^ 53 ≤ q) ∧ (n < 0 → q ≤ -2 ^ 53) := by
  have hzero : n.natAbs ≠ 0 := by omega
  have hlog : 53 ≤ n.natAbs.log2 := (Nat.le_log2 hzero).mpr h
  have hlarge : (2 : ℚ) ^ 53 ≤ leading n.natAbs * 2 ^ ((n.natAbs.log2 : ℤ) - 52) := by
    have hleading : (2 : ℚ) ^ 52 ≤ leading n.natAbs := by exact_mod_cast (leading_bounds hzero).1
    have hpow : (2 : ℚ) ^ (1 : ℤ) ≤ 2 ^ ((n.natAbs.log2 : ℤ) - 52) :=
      zpow_le_zpow_right₀ one_le_two (by omega)
    calc (2 : ℚ) ^ 53 = (2 : ℚ) ^ 52 * (2 : ℚ) ^ (1 : ℤ) := by norm_num
      _ ≤ (leading n.natAbs : ℚ) * 2 ^ ((n.natAbs.log2 : ℤ) - 52) := by gcongr
  refine ⟨_, extended?_ofRatio_one _ hzero (log2_natAbs_le hn.1 hn.2), ?_, ?_⟩
  · intro hpos
    simpa [not_lt.mpr hpos.le] using hlarge
  · intro hneg
    simpa [hneg] using hlarge

/-- A rounded integer has the place of the exact one among the doubles with a fraction and the
infinities. -/
theorem ofInt_place {n : ℤ} {x : Double} {b : Extended} (hn : FitsWord n)
    (hfraction : x.isIntegral = false) (hx : x.extended? = some b) :
    ∃ a, (ofInt n).extended? = some a ∧ (a < b ↔ .ofRat n < b) ∧ (b < a ↔ b < .ofRat n) := by
  by_cases hsmall : n.natAbs < 2 ^ 53
  · exact ⟨_, extended?_ofInt hsmall, .rfl, .rfl⟩
  obtain ⟨q, hq, hpos, hneg⟩ := extended?_ofInt_of_large hn (not_lt.mp hsmall)
  refine ⟨_, hq, ?_⟩
  cases x with
  | nan => cases hx
  | infinite negative => cases negative <;> cases hx <;> simp
  | finite negative m e h =>
    cases hx
    obtain ⟨hlow, hhigh⟩ := abs_lt.mp (abs_lt_of_not_isIntegral hfraction)
    simp only [Extended.ofRat_lt_ofRat]
    rcases lt_or_gt_of_ne (show n ≠ 0 by rintro rfl; exact hsmall (by decide)) with hn | hn
    · have hn' : (n : ℚ) ≤ -2 ^ 53 := by
        have : n ≤ -2 ^ 53 := by omega
        exact_mod_cast this
      have hq' := hneg hn
      constructor
      · constructor <;> intro <;> linarith
      · constructor <;> intro <;> linarith
    · have hn' : (2 : ℚ) ^ 53 ≤ n := by
        have : 2 ^ 53 ≤ n := by omega
        exact_mod_cast this
      have hq' := hpos hn
      constructor
      · constructor <;> intro <;> linarith
      · constructor <;> intro <;> linarith

end Double

/-! ## Numbers -/

namespace Number

/-- The exact value of a number, infinities included. -/
def extended? : Number → Option Extended
  | .int n => some (.ofRat n)
  | .double x => x.extended?

/-- The number is an integer of 64 bits, or a double other than not a number. -/
def Ordered : Number → Prop
  | .int n => FitsWord n
  | .double x => x ≠ .nan

/-- The relation is that of the exact values, as far as the order goes. -/
structure Relation.Orders (r : Relation) (a b : Extended) : Prop where
  below : r.below = decide (a < b)
  above : r.above = decide (b < a)
  atMost : r.atMost = decide (a ≤ b)
  atLeast : r.atLeast = decide (b ≤ a)

theorem orders_ofInts (l r : ℤ) : (Relation.ofInts l r).Orders (.ofRat l) (.ofRat r) := by
  have hlt : ∀ m n : ℤ, Extended.ofRat m < Extended.ofRat n ↔ m < n := by
    intro m n
    rw [Extended.ofRat_lt_ofRat, Int.cast_lt]
  have hle : ∀ m n : ℤ, Extended.ofRat m ≤ Extended.ofRat n ↔ m ≤ n := by
    intro m n
    rw [← not_lt, hlt, not_lt]
  constructor <;> simp [Relation.ofInts, hlt, hle]

/-- Doubles in the places of two exact values are ordered as these. -/
theorem orders_ofDoubles {x y : Double} {a b a' b' : Extended} (hx : x.extended? = some a')
    (hy : y.extended? = some b') (hlt : a' < b' ↔ a < b) (hgt : b' < a' ↔ b < a) :
    (Relation.ofDoubles x y).Orders a b where
  below := (Double.lt_eq hx hy).trans (decide_eq_decide.mpr hlt)
  above := (Double.lt_eq hy hx).trans (decide_eq_decide.mpr hgt)
  atMost := (Double.le_eq hx hy).trans (decide_eq_decide.mpr (by rw [← not_lt, hgt, not_lt]))
  atLeast := (Double.le_eq hy hx).trans (decide_eq_decide.mpr (by rw [← not_lt, hlt, not_lt]))

/-- A double is the integer it is compared as, or it has a fraction. -/
theorem integral?_double (x : Double) :
    (∃ n : ℤ, (Number.double x).integral? = some n ∧ x.extended? = some (.ofRat n)) ∨
      (Number.double x).integral? = none ∧ x.isIntegral = false := by
  cases hintegral : x.isIntegral with
  | false => exact .inr ⟨by simp [integral?, hintegral], rfl⟩
  | true =>
    cases x with
    | nan | infinite => cases hintegral
    | finite negative m e h =>
      exact .inl ⟨_, by simp only [integral?, hintegral, if_true]; rfl,
        Double.extended?_of_isIntegral hintegral rfl⟩

theorem toDouble_int {n : ℤ} (hn : FitsWord n) :
    (Number.int n).toDouble = .ok (Double.ofInt n) :=
  if_pos (Double.isFinite_ofInt hn.1 hn.2)

section Relation

variable {p q : Number}

theorem relation_of_integral {m n : ℤ} (hp : p.integral? = some m) (hq : q.integral? = some n) :
    p.relation q = .ok (.ofInts m n) := by
  simp only [relation, hp, hq]

theorem relation_of_fraction {x y : Double} (h : p.integral? = none ∨ q.integral? = none)
    (hp : p.toDouble = .ok x) (hq : q.toDouble = .ok y) :
    p.relation q = .ok (.ofDoubles x y) := by
  unfold relation
  split
  next hp' hq' => simp [hp', hq'] at h
  next =>
    rw [hp, hq]
    rfl

/-- Numbers are ordered by their exact values.  The cases are whether one side has a fraction and,
if so, whether the other one is an integer that is rounded. -/
theorem relation_orders (hp : p.Ordered) (hq : q.Ordered) :
    ∃ a b r, p.extended? = some a ∧ q.extended? = some b ∧ p.relation q = .ok r ∧ r.Orders a b := by
  cases p with
  | int m =>
    cases q with
    | int n => exact ⟨_, _, _, rfl, rfl, relation_of_integral rfl rfl, orders_ofInts m n⟩
    | double y =>
      obtain ⟨n, hn, hy⟩ | ⟨hnone, hfraction⟩ := integral?_double y
      · exact ⟨_, _, _, rfl, hy, relation_of_integral rfl hn, orders_ofInts m n⟩
      · obtain ⟨b, hy⟩ := Double.exists_extended? hq
        obtain ⟨a, ha, hlt, hgt⟩ := Double.ofInt_place hp hfraction hy
        exact ⟨_, b, _, rfl, hy, relation_of_fraction (.inr hnone) (toDouble_int hp) rfl,
          orders_ofDoubles ha hy hlt hgt⟩
  | double x =>
    obtain ⟨a, hx⟩ := Double.exists_extended? hp
    cases q with
    | int n =>
      obtain ⟨m, hm, hx⟩ | ⟨hnone, hfraction⟩ := integral?_double x
      · exact ⟨_, _, _, hx, rfl, relation_of_integral hm rfl, orders_ofInts m n⟩
      · obtain ⟨b, hb, hlt, hgt⟩ := Double.ofInt_place hq hfraction hx
        exact ⟨a, _, _, hx, rfl, relation_of_fraction (.inl hnone) rfl (toDouble_int hq),
          orders_ofDoubles hx hb hgt hlt⟩
    | double y =>
      obtain ⟨b, hy⟩ := Double.exists_extended? hq
      have hdoubles : (double x).integral? = none ∨ (double y).integral? = none →
          (double x).relation (double y) = .ok (.ofDoubles x y) :=
        fun h => relation_of_fraction h rfl rfl
      obtain ⟨m, hm, hx'⟩ | ⟨hnone, -⟩ := integral?_double x
      · obtain ⟨n, hn, hy'⟩ | ⟨hnone, -⟩ := integral?_double y
        · exact ⟨_, _, _, hx', hy', relation_of_integral hm hn, orders_ofInts m n⟩
        · exact ⟨a, b, _, hx, hy, hdoubles (.inr hnone), orders_ofDoubles hx hy .rfl .rfl⟩
      · exact ⟨a, b, _, hx, hy, hdoubles (.inl hnone), orders_ofDoubles hx hy .rfl .rfl⟩

end Relation

end Number

/-! ## Values -/

namespace Value

/-- The value is an integer of 64 bits, or a double other than not a number. -/
def Ordered (v : Value) : Prop :=
  ∃ p, v.number? = some p ∧ p.Ordered

/-- The exact value of a number, infinities included. -/
def extended? (v : Value) : Option Extended :=
  v.number?.bind Number.extended?

theorem compare_of_relation {left right : Value} {p q : Number} {r : Number.Relation}
    (hleft : left.number? = some p) (hright : right.number? = some q)
    (h : p.relation q = .ok r) (op : Comparison) :
    left.compare (.comparison op) right = .ok (r.holds op) := by
  unfold compare
  split
  · cases hleft
  · cases hleft
  · rw [hleft, hright]
    show (p.relation q >>= fun r => pure (r.holds op)) = _
    rw [h]
    rfl

variable {u v w : Value} {a b : Extended}

theorem exists_extended? (h : v.Ordered) : ∃ a, v.extended? = some a := by
  obtain ⟨p, hnumber, hp⟩ := h
  obtain ⟨a, _, _, ha, -⟩ := Number.relation_orders hp hp
  exact ⟨a, by rw [extended?, hnumber, Option.bind_some, ha]⟩

/-- A comparison of two numbers by their exact values. -/
theorem compare_of_extended? (hu : u.Ordered) (hv : v.Ordered) (ha : u.extended? = some a)
    (hb : v.extended? = some b) :
    u.compare (.comparison .lt) v = .ok (decide (a < b)) ∧
      u.compare (.comparison .gt) v = .ok (decide (b < a)) ∧
      u.compare (.comparison .le) v = .ok (decide (a ≤ b)) ∧
      u.compare (.comparison .ge) v = .ok (decide (b ≤ a)) := by
  obtain ⟨p, hnumber, hp⟩ := hu
  obtain ⟨q, hnumber', hq⟩ := hv
  obtain ⟨a', b', r, hp', hq', hrelation, horders⟩ := Number.relation_orders hp hq
  rw [extended?, hnumber, Option.bind_some, hp'] at ha
  rw [extended?, hnumber', Option.bind_some, hq'] at hb
  cases ha
  cases hb
  have hcompare := compare_of_relation hnumber hnumber' hrelation
  refine ⟨?_, ?_, ?_, ?_⟩
  · rw [hcompare, Number.Relation.holds, horders.below]
  · rw [hcompare, Number.Relation.holds, horders.above]
  · rw [hcompare, Number.Relation.holds, horders.atMost]
  · rw [hcompare, Number.Relation.holds, horders.atLeast]

/-- One of the three holds, and no other. -/
def ExactlyOne (p q r : Prop) : Prop :=
  p ∧ ¬ q ∧ ¬ r ∨ ¬ p ∧ q ∧ ¬ r ∨ ¬ p ∧ ¬ q ∧ r

theorem exactlyOne_of_lt_trichotomy (a b : Extended) :
    ExactlyOne (a < b) (b < a) (a ≤ b ∧ b ≤ a) := by
  rcases lt_trichotomy a b with h | h | h
  · exact .inl ⟨h, h.not_gt, fun hle => hle.2.not_gt h⟩
  · exact .inr (.inr ⟨h.not_lt, h.symm.not_lt, h.le, h.ge⟩)
  · exact .inr (.inl ⟨h.not_gt, h, fun hle => hle.1.not_gt h⟩)

/-- **Comparisons are exact.**  For 64-bit integers and doubles other than not a number, each of the
four comparisons gives the order of the exact values.  So `<` is transitive, and of two numbers one
is below the other or each is at most the other, and only one of these three holds. -/
theorem compare_exact (hu : u.Ordered) (hv : v.Ordered) (hw : w.Ordered) :
    (∃ a b, u.extended? = some a ∧ v.extended? = some b ∧
      u.compare (.comparison .lt) v = .ok (decide (a < b)) ∧
      u.compare (.comparison .gt) v = .ok (decide (b < a)) ∧
      u.compare (.comparison .le) v = .ok (decide (a ≤ b)) ∧
      u.compare (.comparison .ge) v = .ok (decide (b ≤ a))) ∧
    (u.compare (.comparison .lt) v = .ok true → v.compare (.comparison .lt) w = .ok true →
      u.compare (.comparison .lt) w = .ok true) ∧
    ExactlyOne (u.compare (.comparison .lt) v = .ok true) (v.compare (.comparison .lt) u = .ok true)
      (u.compare (.comparison .le) v = .ok true ∧ v.compare (.comparison .le) u = .ok true) := by
  obtain ⟨a, ha⟩ := exists_extended? hu
  obtain ⟨b, hb⟩ := exists_extended? hv
  obtain ⟨c, hc⟩ := exists_extended? hw
  have huv := compare_of_extended? hu hv ha hb
  have hvu := compare_of_extended? hv hu hb ha
  have hvw := compare_of_extended? hv hw hb hc
  have huw := compare_of_extended? hu hw ha hc
  refine ⟨⟨a, b, ha, hb, huv⟩, ?_, ?_⟩
  · rw [huv.1, hvw.1, huw.1]
    simp only [Except.ok.injEq, decide_eq_true_eq]
    exact lt_trans
  · rw [huv.1, hvu.1, huv.2.2.1, hvu.2.2.1]
    simp only [Except.ok.injEq, decide_eq_true_eq]
    exact exactlyOne_of_lt_trichotomy a b

/-- The largest double with a fraction, `2 ^ 52 - 1 / 2`. -/
def largestFraction : Double :=
  .finite false 0x1FFFFFFFFFFFFF (-1) (by decide)

/-- The greatest integer, which is rounded up for the comparisons, is above the largest double with
a fraction and below infinity. -/
theorem compare_exact_maxInt :
    (Value.float largestFraction).Ordered ∧ (Value.int maxInt).Ordered ∧
      (Value.float (.infinite false)).Ordered ∧
      (Value.float largestFraction).compare (.comparison .lt) (.float (.infinite false)) =
        .ok true ∧
      ExactlyOne
        ((Value.float largestFraction).compare (.comparison .lt) (.int maxInt) = .ok true)
        ((Value.int maxInt).compare (.comparison .lt) (.float largestFraction) = .ok true)
        ((Value.float largestFraction).compare (.comparison .le) (.int maxInt) = .ok true ∧
          (Value.int maxInt).compare (.comparison .le) (.float largestFraction) = .ok true) := by
  have hfraction : (Value.float largestFraction).Ordered := ⟨.double largestFraction, rfl, nofun⟩
  have hint : (Value.int maxInt).Ordered := ⟨.int maxInt, rfl, by decide, by decide⟩
  have hinfinite : (Value.float (.infinite false)).Ordered := ⟨.double _, rfl, nofun⟩
  obtain ⟨-, htrans, hone⟩ := compare_exact hfraction hint hinfinite
  exact ⟨hfraction, hint, hinfinite, htrans (by decide +kernel) (by decide +kernel), hone⟩

end Value

end TokenWalk
