import Mathlib.Algebra.Order.Field.Power
import Mathlib.Data.Rat.Cast.Order
import Mathlib.Tactic.FieldSimp
import Mathlib.Tactic.Linarith
import Mathlib.Tactic.NormNum
import Mathlib.Tactic.Positivity
import Mathlib.Tactic.Ring

/-! Rounding to doubles. A value lies in the interval of one double, and this is the one it is
rounded to; so a decimal is read as the double whose interval it lies in. -/

namespace Hunkwise.Decimal

open Float.Model Float.Model.UnpackedFloat

/-- The mantissa with its two residual bits stands for the quotient `a / b`. -/
structure StandsFor (em : ExtendedMantissa) (a b : Nat) : Prop where
  mantissa : em.mantissa = a / b
  roundBit : em.roundBit = decide (b ≤ 2 * (a % b))
  stickyBit : em.stickyBit = decide (2 * a % b ≠ 0)

theorem twice_mod (a : Nat) {b : Nat} (hb : 0 < b) :
    2 * a % b = if b ≤ 2 * (a % b) then 2 * (a % b) - b else 2 * (a % b) := by
  have hr := Nat.mod_lt a hb
  have ha : 2 * a = b * (2 * (a / b)) + 2 * (a % b) := by
    conv_lhs => rw [← Nat.div_add_mod a b]
    ring
  rw [ha, Nat.mul_add_mod]
  split
  · next h => rw [Nat.mod_eq_sub_mod h, Nat.mod_eq_of_lt (by omega)]
  · next h => exact Nat.mod_eq_of_lt (by omega)

theorem standsFor_exact (m : Nat) : StandsFor (.ofMantissaAndAccuracy m .exact) m 1 := by
  constructor <;> simp [ExtendedMantissa.ofMantissaAndAccuracy, Nat.mod_one]

theorem standsFor_quotient (a : Nat) {b : Nat} (hb : 0 < b) :
    StandsFor (.ofMantissaAndAccuracy (a / b) (accuracyOfFraction (a % b) b)) a b := by
  have hr := Nat.mod_lt a hb
  have htwice := twice_mod a hb
  unfold accuracyOfFraction
  by_cases hzero : a % b = 0
  · rw [if_pos hzero]
    constructor <;> simp [ExtendedMantissa.ofMantissaAndAccuracy]
    · omega
    · rw [hzero] at htwice; simp at htwice; omega
  · rw [if_neg hzero]
    rcases lt_trichotomy (2 * (a % b)) b with h | h | h
    · rw [Nat.compare_eq_lt.mpr h]
      constructor <;> simp [ExtendedMantissa.ofMantissaAndAccuracy] 
      · omega
      · split_ifs at htwice <;> omega
    · rw [Nat.compare_eq_eq.mpr h]
      constructor <;> simp [ExtendedMantissa.ofMantissaAndAccuracy] 
      · omega
      · split_ifs at htwice <;> omega
    · rw [Nat.compare_eq_gt.mpr h]
      constructor <;> simp [ExtendedMantissa.ofMantissaAndAccuracy] 
      · omega
      · split_ifs at htwice <;> omega

namespace StandsFor

variable {em : ExtendedMantissa} {a b k : Nat}

theorem shiftRightOne (h : StandsFor em a b) (hb : 0 < b) : StandsFor em.shiftRightOne a (b * 2) := by
  have htwice := twice_mod a hb
  have hr := Nat.mod_lt a hb
  have hwide : a % (b * 2) = a % b + b * (a / b % 2) := Nat.mod_mul
  have hfour : 2 * a % (b * 2) = 2 * (a % b) := by
    rw [Nat.mul_comm b 2, Nat.mul_mod_mul_left]
  constructor
  · rw [← Nat.div_div_eq_div_mul, ← h.mantissa]; rfl
  · show (em.mantissa % 2 != 0) = _
    rw [h.mantissa, hwide]
    rcases Nat.mod_two_eq_zero_or_one (a / b) with h2 | h2 <;> simp [h2] <;> omega
  · show (em.roundBit || em.stickyBit) = _
    rw [h.roundBit, h.stickyBit, hfour, ← Bool.decide_or, decide_eq_decide]
    split_ifs at htwice <;> omega

theorem shiftRight (h : StandsFor em a b) (hb : 0 < b) (n : Nat) :
    StandsFor (em >>> n) a (b * 2 ^ n) := by
  induction n with
  | zero => rwa [Nat.pow_zero, Nat.mul_one]
  | succ n ih =>
    rw [Nat.pow_succ, ← Nat.mul_assoc]
    exact ih.shiftRightOne (by positivity)

/-- A quotient within half of `k` rounds to `k`; at exactly half only if `k` is even. -/
theorem roundedMantissa_eq (h : StandsFor em a b) (hb : 0 < b)
    (low : 2 * (b * k) ≤ 2 * a + b) (high : 2 * a ≤ 2 * (b * k) + b)
    (tie : k % 2 = 1 → 2 * (b * k) ≠ 2 * a + b ∧ 2 * a ≠ 2 * (b * k) + b) :
    em.roundedMantissa = k := by
  have hr := Nat.mod_lt a hb
  have ha := Nat.div_add_mod a b
  have htwice := twice_mod a hb
  obtain ⟨m, r, s⟩ := em
  obtain ⟨rfl, rfl, rfl⟩ := h
  have hk : k = a / b ∨ k = a / b + 1 := by
    have hge : a / b ≤ k := by
      by_contra hlt
      have : b * (k + 1) ≤ b * (a / b) := Nat.mul_le_mul_left b (by omega)
      rw [Nat.mul_add_one] at this
      omega
    have hle : k ≤ a / b + 1 := by
      by_contra hlt
      have : b * (a / b + 2) ≤ b * k := Nat.mul_le_mul_left b (by omega)
      rw [Nat.mul_add] at this
      omega
    omega
  rcases hk with rfl | rfl
  · by_cases hround : b ≤ 2 * (a % b) <;> by_cases hsticky : 2 * a % b = 0 <;>
      simp [ExtendedMantissa.roundedMantissa, ExtendedMantissa.accuracy,
        Accuracy.roundToNearestEven, hround, hsticky]
    · omega
    · split_ifs at htwice; omega
  · rw [Nat.mul_add_one] at low high tie
    by_cases hround : b ≤ 2 * (a % b) <;> by_cases hsticky : 2 * a % b = 0 <;>
      simp [ExtendedMantissa.roundedMantissa, ExtendedMantissa.accuracy,
        Accuracy.roundToNearestEven, hround, hsticky]
    · split_ifs at htwice; omega
    · omega
    · omega

end StandsFor

/-- Significand and exponent of a positive double, in the one form that doubles have. -/
structure Canonical (m : Nat) (q : Int) : Prop where
  pos : 0 < m
  lt : m < 2 ^ 53
  least : -1074 ≤ q
  full : 2 ^ 52 ≤ m ∨ q = -1074

section Round

variable {a b n : Nat} {exponent : Int}

theorem targetExponent_eq (t : Int) : Format.binary64.targetExponent t = max (t - 53) (-1074) :=
  rfl

theorem targetExponent_full (hb : 0 < b) (low : 2 ^ 52 * (b * 2 ^ n) ≤ a)
    (high : a < 2 ^ 53 * (b * 2 ^ n)) (least : -1074 ≤ exponent + n) :
    Format.binary64.targetExponent (totalExponent (a / b) exponent) = exponent + n := by
  have hlow : 2 ^ (52 + n) ≤ a / b := by
    rw [Nat.le_div_iff_mul_le hb, Nat.pow_add]
    linarith
  have hhigh : a / b < 2 ^ (52 + n + 1) := by
    rw [Nat.div_lt_iff_lt_mul hb, show 52 + n + 1 = 53 + n by omega, Nat.pow_add]
    linarith
  have hlog : (a / b).log2 = 52 + n :=
    (Nat.log2_eq_iff (Nat.pos_iff_ne_zero.mp (lt_of_lt_of_le (by positivity) hlow))).mpr
      ⟨hlow, hhigh⟩
  rw [targetExponent_eq, totalExponent, hlog]
  push_cast
  omega

theorem targetExponent_small (hb : 0 < b) (high : a < 2 ^ 53 * (b * 2 ^ n))
    (least : exponent + n = -1074) :
    Format.binary64.targetExponent (totalExponent (a / b) exponent) = -1074 := by
  have hhigh : a / b < 2 ^ (53 + n) := by
    rw [Nat.div_lt_iff_lt_mul hb, Nat.pow_add]
    linarith
  have hlog : (a / b).log2 < 53 + n := by
    rcases Nat.eq_zero_or_pos (a / b) with h | h
    · rw [h, Nat.log2_zero]
      omega
    · exact (Nat.log2_lt h.ne').mpr hhigh
  rw [targetExponent_eq, totalExponent]
  omega

end Round

theorem shiftToTargetExponent_eq {mantissa : Nat} {exponent : Int} {acc : Accuracy} {n : Nat}
    (h : Format.binary64.targetExponent (totalExponent mantissa exponent) = exponent + n) :
    shiftToTargetExponent .binary64 mantissa exponent acc =
      (ExtendedMantissa.ofMantissaAndAccuracy mantissa acc >>> n, exponent + n) := by
  have hshift : (exponent + n - exponent).toNat = n := by omega
  simp only [shiftToTargetExponent, shiftToExponent, h, hshift]

theorem ofMantissaAndAccuracy_mantissa (m : Nat) (acc : Accuracy) :
    (ExtendedMantissa.ofMantissaAndAccuracy m acc).mantissa = m := by
  cases acc with
  | exact => rfl
  | inexact o => cases o <;> rfl

/-- Rounding ends at `m` and `q` once it has brought the quotient to the mantissa `k` at `e`, and one
more shift leads from there to `m` and `q`. -/
theorem roundWithAccuracy_of_first (sign : Sign) {mantissa a b k m n j : Nat}
    {exponent : Int} {acc : Accuracy} (hm : 0 < m)
    (h : StandsFor (.ofMantissaAndAccuracy mantissa acc) a b) (hb : 0 < b)
    (hfirst : Format.binary64.targetExponent (totalExponent (a / b) exponent) = exponent + n)
    (low : 2 * (b * 2 ^ n * k) ≤ 2 * a + b * 2 ^ n) (high : 2 * a ≤ 2 * (b * 2 ^ n * k) + b * 2 ^ n)
    (tie : k % 2 = 1 → 2 * (b * 2 ^ n * k) ≠ 2 * a + b * 2 ^ n ∧ 2 * a ≠ 2 * (b * 2 ^ n * k) + b * 2 ^ n)
    (hsecond : Format.binary64.targetExponent (totalExponent k (exponent + n)) = exponent + n + j)
    (hmk : k / 2 ^ j = m) :
    roundWithAccuracy .binary64 sign mantissa exponent acc =
      .finite sign m (exponent + n + j) hm := by
  have hmantissa : mantissa = a / b := by
    rw [← h.mantissa, ofMantissaAndAccuracy_mantissa]
  have hrounded := (h.shiftRight hb n).roundedMantissa_eq (by positivity) low high tie
  have hshifted := ((standsFor_exact k).shiftRight Nat.one_pos j).mantissa
  rw [Nat.one_mul, hmk] at hshifted
  unfold roundWithAccuracy
  rw [← hmantissa] at hfirst
  rw [shiftToTargetExponent_eq hfirst]
  dsimp only
  rw [hrounded, shiftToTargetExponent_eq hsecond]
  dsimp only
  rw [hshifted, dif_neg hm.ne']

/-- Just below a power of two the grid is finer, and a value rounds up to that power there. -/
theorem roundWithAccuracy_belowPower (sign : Sign) {mantissa a b n : Nat} {exponent : Int}
    {acc : Accuracy} (h : StandsFor (.ofMantissaAndAccuracy mantissa acc) a b) (hb : 0 < b)
    (hleast : -1074 ≤ exponent + n) (low : 2 * (b * 2 ^ n * 2 ^ 53) ≤ 2 * a + b * 2 ^ n)
    (high : a < 2 ^ 53 * (b * 2 ^ n)) :
    roundWithAccuracy .binary64 sign mantissa exponent acc =
      .finite sign (2 ^ 52) (exponent + (n + 1 : Nat)) (by decide) := by
  have hfirst : Format.binary64.targetExponent (totalExponent (a / b) exponent) = exponent + n :=
    targetExponent_full hb (by omega) high hleast
  have hsecond : Format.binary64.targetExponent (totalExponent (2 ^ 53) (exponent + n)) =
      exponent + n + (1 : Nat) := by
    rw [targetExponent_eq, totalExponent, Nat.log2_two_pow]
    push_cast
    omega
  have hrounded := roundWithAccuracy_of_first sign (by decide) h hb hfirst low (by linarith)
    (fun hodd => absurd hodd (by decide)) hsecond (by decide : 2 ^ 53 / 2 ^ 1 = 2 ^ 52)
  rwa [Int.add_assoc, ← Nat.cast_add] at hrounded

/-- A value that lies in the interval of a double rounds to it. The value is the quotient `a / b` at
`exponent`, and `n` shifts lead to the exponent of the double. -/
theorem roundWithAccuracy_eq (sign : Sign) {mantissa a b m n : Nat} {exponent : Int}
    {acc : Accuracy} (hc : Canonical m (exponent + n))
    (h : StandsFor (.ofMantissaAndAccuracy mantissa acc) a b) (hb : 0 < b)
    (low : 2 * (b * 2 ^ n * m) ≤ 2 * a + b * 2 ^ n) (high : 2 * a ≤ 2 * (b * 2 ^ n * m) + b * 2 ^ n)
    (tie : m % 2 = 1 → 2 * (b * 2 ^ n * m) ≠ 2 * a + b * 2 ^ n ∧ 2 * a ≠ 2 * (b * 2 ^ n * m) + b * 2 ^ n)
    (lowest : a < 2 ^ 52 * (b * 2 ^ n) → exponent + n ≠ -1074 →
      0 < n ∧ 4 * (b * 2 ^ n * m) ≤ 4 * a + b * 2 ^ n) :
    roundWithAccuracy .binary64 sign mantissa exponent acc =
      .finite sign m (exponent + n) hc.pos := by
  set B := b * 2 ^ n with hB
  have hBpos : 0 < B := by positivity
  have hlt : B * (m + 1) ≤ B * 2 ^ 53 := Nat.mul_le_mul_left B hc.lt
  rw [Nat.mul_add_one] at hlt
  have hquotient : a < 2 ^ 53 * B := by omega
  by_cases hcase : a < 2 ^ 52 * B ∧ exponent + n ≠ -1074
  · obtain ⟨hn, hquarter⟩ := lowest hcase.1 hcase.2
    obtain ⟨n, rfl⟩ := Nat.exists_eq_add_one.mpr hn
    have hm : m = 2 ^ 52 := by
      refine Nat.le_antisymm ?_ (hc.full.resolve_right hcase.2)
      by_contra hlt
      have : B * (2 ^ 52 + 1) ≤ B * m := Nat.mul_le_mul_left B (by omega)
      omega
    subst hm
    have hhalf : B = b * 2 ^ n * 2 := by rw [hB, Nat.pow_succ, Nat.mul_assoc]
    have hleast := hc.least
    push_cast at hleast hcase
    exact roundWithAccuracy_belowPower sign h hb (by omega) (by linarith) (by omega)
  · have hfirst : Format.binary64.targetExponent (totalExponent (a / b) exponent) = exponent + n := by
      by_cases hfull : 2 ^ 52 * B ≤ a
      · exact targetExponent_full hb hfull hquotient hc.least
      · have hleast : exponent + n = -1074 := by
          by_contra hne
          exact hcase ⟨by omega, hne⟩
        rw [hleast]
        exact targetExponent_small hb hquotient hleast
    have hsecond : Format.binary64.targetExponent (totalExponent m (exponent + n)) =
        exponent + n + (0 : Nat) := by
      rw [Nat.cast_zero, Int.add_zero, targetExponent_eq, totalExponent]
      rcases hc.full with hfull | hleast
      · rw [(Nat.log2_eq_iff hc.pos.ne').mpr ⟨hfull, hc.lt⟩]
        have := hc.least
        push_cast
        omega
      · have := (Nat.log2_lt hc.pos.ne').mpr hc.lt
        omega
    have := roundWithAccuracy_of_first sign hc.pos h hb hfirst low high tie hsecond (Nat.div_one m)
    rwa [Nat.cast_zero, Int.add_zero] at this

/-- The value `v` lies in the interval of the double `m · 2 ^ q`. Right below a power of two the
interval is shorter, since the doubles are closer there. -/
structure RoundsTo (v : ℚ) (m : Nat) (q : Int) : Prop where
  canonical : Canonical m q
  low : (m - 1 / 2) * 2 ^ q ≤ v
  high : v ≤ (m + 1 / 2) * 2 ^ q
  tie : m % 2 = 1 → (m - 1 / 2) * 2 ^ q ≠ v ∧ v ≠ (m + 1 / 2) * 2 ^ q
  lowest : v < 2 ^ 52 * 2 ^ q → q ≠ -1074 → (m - 1 / 4) * 2 ^ q ≤ v

theorem RoundsTo.roundWithAccuracy_eq {v : ℚ} {m : Nat} {q : Int} (hv : RoundsTo v m q)
    (sign : Sign) {mantissa a b : Nat} {exponent : Int} {acc : Accuracy}
    (h : StandsFor (.ofMantissaAndAccuracy mantissa acc) a b) (hb : 0 < b)
    (hvalue : v = a / b * 2 ^ exponent) (hle : exponent ≤ q)
    (hlt : v < 2 ^ 52 * 2 ^ q → q ≠ -1074 → exponent < q) :
    roundWithAccuracy .binary64 sign mantissa exponent acc = .finite sign m q hv.canonical.pos := by
  obtain ⟨n, rfl⟩ : ∃ n : Nat, q = exponent + n := ⟨(q - exponent).toNat, by omega⟩
  have hB : (0 : ℚ) < b * 2 ^ n := by positivity
  have hpow : (0 : ℚ) < 2 ^ (exponent + n : Int) := by positivity
  -- the value, counted in units of the last place of the double
  have hunits : v = a / (b * 2 ^ n) * 2 ^ (exponent + n : Int) := by
    rw [hvalue, zpow_add₀ two_ne_zero, zpow_natCast]
    field_simp
  have hle_iff (c : ℚ) : c * 2 ^ (exponent + n : Int) ≤ v ↔ c * (b * 2 ^ n) ≤ a := by
    rw [hunits, mul_le_mul_iff_left₀ hpow, le_div_iff₀ hB]
  have hge_iff (c : ℚ) : v ≤ c * 2 ^ (exponent + n : Int) ↔ a ≤ c * (b * 2 ^ n) := by
    rw [hunits, mul_le_mul_iff_left₀ hpow, div_le_iff₀ hB]
  have low := (hle_iff _).mp hv.low
  have high := (hge_iff _).mp hv.high
  refine Decimal.roundWithAccuracy_eq sign hv.canonical h hb ?_ ?_ ?_ ?_
  · exact_mod_cast (by linarith : (2 : ℚ) * (b * 2 ^ n * m) ≤ 2 * a + b * 2 ^ n)
  · exact_mod_cast (by linarith : (2 : ℚ) * a ≤ 2 * (b * 2 ^ n * m) + b * 2 ^ n)
  · intro hodd
    obtain ⟨hlow, hhigh⟩ := hv.tie hodd
    constructor
    · intro he
      have he : (2 : ℚ) * (b * 2 ^ n * m) = 2 * a + b * 2 ^ n := by exact_mod_cast he
      exact hlow (le_antisymm hv.low ((hge_iff _).mpr (by linarith)))
    · intro he
      have he : (2 : ℚ) * a = 2 * (b * 2 ^ n * m) + b * 2 ^ n := by exact_mod_cast he
      exact hhigh (le_antisymm hv.high ((hle_iff _).mpr (by linarith)))
  · intro hsmall hne
    have hsmall : (a : ℚ) < 2 ^ 52 * (b * 2 ^ n) := by exact_mod_cast hsmall
    have hbelow : v < 2 ^ 52 * 2 ^ (exponent + n : Int) :=
      lt_of_not_ge fun hge => absurd ((hle_iff _).mp hge) (not_le.mpr hsmall)
    have hquarter := (hle_iff _).mp (hv.lowest hbelow hne)
    have := hlt hbelow hne
    exact ⟨by omega, by
      exact_mod_cast (by linarith : (4 : ℚ) * (b * 2 ^ n * m) ≤ 4 * a + b * 2 ^ n)⟩

/-- The exponent of a quotient, up to one. -/
theorem two_zpow_lt_div {D P : Nat} (hD : D ≠ 0) (hP : P ≠ 0) :
    (2 : ℚ) ^ ((D.log2 : Int) - P.log2 - 1) < D / P := by
  have hlow : (2 : ℚ) ^ (D.log2 : Int) ≤ D := by exact_mod_cast Nat.log2_self_le hD
  have hhigh : (P : ℚ) < 2 ^ ((P.log2 : Int) + 1) := by exact_mod_cast @Nat.lt_log2_self P
  have hpos : (0 : ℚ) < P := by exact_mod_cast Nat.pos_of_ne_zero hP
  rw [lt_div_iff₀ hpos]
  calc (2 : ℚ) ^ ((D.log2 : Int) - P.log2 - 1) * P
      < 2 ^ ((D.log2 : Int) - P.log2 - 1) * 2 ^ ((P.log2 : Int) + 1) := by gcongr
    _ = 2 ^ (D.log2 : Int) := by rw [← zpow_add₀ two_ne_zero]; congr 1; omega
    _ ≤ D := hlow

theorem RoundsTo.pos {v : ℚ} {m : Nat} {q : Int} (hv : RoundsTo v m q) : 0 < v := by
  have hm : (1 : ℚ) ≤ m := by exact_mod_cast hv.canonical.pos
  exact lt_of_lt_of_le (mul_pos (by linarith) (by positivity)) hv.low

theorem RoundsTo.ne_zero {D m : Nat} {E q : Int} (hv : RoundsTo (D * 10 ^ E) m q) : D ≠ 0 := by
  rintro rfl
  have := hv.pos
  simp at this

theorem RoundsTo.lt_two_zpow {v : ℚ} {m : Nat} {q : Int} (hv : RoundsTo v m q) : v < 2 ^ (53 + q) := by
  refine lt_of_le_of_lt hv.high ?_
  rw [zpow_add₀ two_ne_zero]
  gcongr
  have : (m : ℚ) + 1 ≤ 2 ^ 53 := by exact_mod_cast hv.canonical.lt
  norm_num at this ⊢
  linarith

theorem RoundsTo.ofScientific_whole {D m k : Nat} {q : Int} (hv : RoundsTo (D * 10 ^ (k : Int)) m q)
    (hmost : (k : Int) ≤ 2 ^ 11) :
    UnpackedFloat.ofScientific .binary64 D k = .finite .positive m q hv.canonical.pos := by
  have hD := hv.ne_zero
  have hone : (1 : ℚ) ≤ D * 10 ^ (k : Int) := by
    exact_mod_cast Nat.mul_pos (Nat.pos_of_ne_zero hD) (by positivity : 0 < 10 ^ k)
  have hq : 0 < 53 + q := by
    have := lt_of_le_of_lt hone hv.lt_two_zpow
    rwa [← zpow_zero 2, zpow_lt_zpow_iff_right₀ one_lt_two] at this
  have hbits : -(Format.binary64.mantissaBits : Int) + 0 = -53 := rfl
  have hleast : -(2 ^ 11 + D.log2 : Int) ≤ k := by omega
  unfold UnpackedFloat.ofScientific
  rw [dif_neg hD, if_neg (not_lt.mpr hmost), if_neg (not_lt.mpr hleast),
    if_pos (Int.natCast_nonneg k)]
  unfold UnpackedFloat.mul
  dsimp only
  refine hv.roundWithAccuracy_eq _ (standsFor_exact _) Nat.one_pos ?_ (by omega) (by omega)
  rw [hbits, Nat.shiftLeft_eq, show Format.binary64.mantissaBits = 53 from rfl]
  push_cast
  rw [zpow_neg]
  norm_num
  ring

theorem RoundsTo.ofScientific_fraction {D m k : Nat} {q : Int}
    (hv : RoundsTo (D * 10 ^ (-k : Int)) m q) (hk : 0 < k) (hleast : -(2 ^ 11 + D.log2) ≤ (-k : Int)) :
    UnpackedFloat.ofScientific .binary64 D (-k) = .finite .positive m q hv.canonical.pos := by
  have hD := hv.ne_zero
  have hP : 10 ^ k ≠ 0 := by positivity
  have hvalue : (D * 10 ^ (-k : Int) : ℚ) = D / (10 ^ k : Nat) := by
    push_cast
    rw [zpow_neg, zpow_natCast, div_eq_mul_inv]
  -- what is above the value is above the exponent of the quotient
  have hlog {e : Int} (h : (D * 10 ^ (-k : Int) : ℚ) < 2 ^ e) :
      (D.log2 : Int) - (10 ^ k).log2 - 1 < e := by
    rw [hvalue] at h
    exact (zpow_lt_zpow_iff_right₀ one_lt_two).mp ((two_zpow_lt_div hD hP).trans h)
  have hle := hlog hv.lt_two_zpow
  have hlt (h : (D * 10 ^ (-k : Int) : ℚ) < 2 ^ 52 * 2 ^ q) :
      (D.log2 : Int) - (10 ^ k).log2 - 1 < 52 + q := by
    refine hlog (h.trans_eq ?_)
    rw [zpow_add₀ two_ne_zero]
    rfl
  have hlowest := hv.canonical.least
  have hmost : (-k : Int) ≤ 2 ^ 11 := by omega
  unfold UnpackedFloat.ofScientific
  rw [dif_neg hD, if_neg (not_lt.mpr hmost), if_neg (not_lt.mpr hleast), if_neg (by omega)]
  unfold UnpackedFloat.div divCore
  dsimp only
  rw [targetExponent_eq, totalExponent, totalExponent, neg_neg, Int.toNat_natCast]
  refine hv.roundWithAccuracy_eq _ (standsFor_quotient _ (by positivity)) (by positivity) ?_ (by omega)
    (fun h hne => by have := hlt h; omega)
  rw [hvalue, Nat.shiftLeft_eq]
  generalize ht : min (0 - 0 : Int) _ = t
  obtain ⟨n, rfl⟩ : ∃ n : Nat, t = -n := ⟨(-t).toNat, by omega⟩
  rw [show (0 - 0 - -(n : Int)).toNat = n by omega, zpow_neg, zpow_natCast]
  push_cast
  field_simp

/-- A decimal is read as the double whose interval it lies in. -/
theorem RoundsTo.ofScientific_eq {D m : Nat} {E q : Int} (hv : RoundsTo (D * 10 ^ E) m q)
    (hmost : E ≤ 2 ^ 11) (hleast : -(2 ^ 11 + D.log2) ≤ E) :
    UnpackedFloat.ofScientific .binary64 D E = .finite .positive m q hv.canonical.pos := by
  rcases lt_or_ge E 0 with hE | hE
  · obtain ⟨k, rfl⟩ : ∃ k : Nat, E = -k := ⟨(-E).toNat, by omega⟩
    exact hv.ofScientific_fraction (by omega) hleast
  · obtain ⟨k, rfl⟩ := Int.eq_ofNat_of_zero_le hE
    exact hv.ofScientific_whole hmost

end Hunkwise.Decimal
