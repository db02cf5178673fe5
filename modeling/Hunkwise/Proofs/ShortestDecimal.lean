import Hunkwise.Proofs.DoubleBits

/-! The shortest decimal of a double lies in its interval, so it reads back as that double. Seventeen
digits are always enough: decimals of that length are closer to one another than the ends of an
interval are to the double inside. -/

namespace Hunkwise.Decimal

theorem ten_zpow (e : Int) : (10 : ℚ) ^ e = 10 ^ e.toNat / 10 ^ (-e).toNat := by
  rcases Int.le_total 0 e with h | h
  · rw [show (-e).toNat = 0 by omega, pow_zero, div_one, ← zpow_natCast, Int.toNat_of_nonneg h]
  · rw [show e.toNat = 0 by omega, pow_zero, one_div, ← zpow_natCast, ← zpow_neg,
      Int.toNat_of_nonneg (by omega), neg_neg]

def Scientific.value (s : Scientific) : ℚ := s.digits * 10 ^ s.exponent

namespace Interval

variable {v : Interval} {d : Nat} {e : Int}

def part (v : Interval) (n : Nat) : ℚ := n / v.denominator

theorem le_scaled_iff (hv : 0 < v.denominator) (n : Nat) :
    n * (v.scaled d e).2 ≤ (v.scaled d e).1 ↔ v.part n ≤ d * 10 ^ e := by
  have hden : (0 : ℚ) < v.denominator := by exact_mod_cast hv
  rw [part, ten_zpow, ← mul_div_assoc, div_le_div_iff₀ hden (by positivity)]
  simp only [scaled, Nat.pow_eq]
  rw [← Nat.cast_le (α := ℚ)]
  push_cast
  rw [mul_right_comm]

theorem scaled_le_iff (hv : 0 < v.denominator) (n : Nat) :
    (v.scaled d e).1 ≤ n * (v.scaled d e).2 ↔ d * 10 ^ e ≤ v.part n := by
  have hden : (0 : ℚ) < v.denominator := by exact_mod_cast hv
  rw [part, ten_zpow, ← mul_div_assoc, div_le_div_iff₀ (by positivity) hden]
  simp only [scaled, Nat.pow_eq]
  rw [← Nat.cast_le (α := ℚ)]
  push_cast
  rw [mul_right_comm]

theorem holds_iff (hv : 0 < v.denominator) :
    v.holds d e = true ↔ v.part v.low ≤ d * 10 ^ e ∧ d * 10 ^ e ≤ v.part v.high ∧
      (v.closed = false → v.part v.low ≠ d * 10 ^ e ∧ d * 10 ^ e ≠ v.part v.high) := by
  have hlow := le_scaled_iff hv v.low (d := d) (e := e)
  have hhigh := scaled_le_iff hv v.high (d := d) (e := e)
  have hlow' := scaled_le_iff hv v.low (d := d) (e := e)
  have hhigh' := le_scaled_iff hv v.high (d := d) (e := e)
  unfold holds
  cases hc : v.closed with
  | true => simp only [if_true, Bool.and_eq_true, decide_eq_true_eq, hlow, hhigh]; simp
  | false => 
    simp only [Bool.false_eq_true, if_false, Bool.and_eq_true, decide_eq_true_eq, ← not_le, hlow', hhigh']
    grind

theorem holds_of_withDigits? {k : Int} {n : Nat} {s : Scientific} (h : v.withDigits? k n = some s) :
    v.holds s.digits s.exponent = true := by
  unfold withDigits? at h
  dsimp only at h
  split at h
  · cases h
  · next hd _ => cases h; exact hd
  · next _ hd => cases h; exact hd
  · next hd hd' =>
    split at h
    · cases h; exact hd
    · cases h; exact hd'

/-- The value lies between two neighbours of any length. -/
theorem withDigits?_ne_none (hv : 0 < v.denominator) {k : Int} {n : Nat}
    (h : ∀ d : Nat, d * 10 ^ (k - n) ≤ v.part v.value → v.part v.value < (d + 1 : Nat) * 10 ^ (k - n) →
      v.holds d (k - n) = true ∨ v.holds (d + 1) (k - n) = true) : v.withDigits? k n ≠ none := by
  set e := k - n with he
  have hden : 0 < v.denominator * 10 ^ e.toNat := by positivity
  -- the number of steps of length `10 ^ e` below the value
  set d := v.value * 10 ^ (-e).toNat / (v.denominator * 10 ^ e.toNat) with hd
  have hsteps (c : Nat) : (v.scaled c e).1 = c * (v.denominator * 10 ^ e.toNat) := by
    rw [← Nat.mul_assoc]
    rfl
  have hlow : d * 10 ^ e ≤ v.part v.value := by
    refine (scaled_le_iff hv v.value).mp ?_
    rw [hsteps]
    exact Nat.div_mul_le_self _ _
  have hhigh : v.part v.value < (d + 1 : Nat) * 10 ^ e := by
    refine lt_of_not_ge fun hge => ?_
    have := (scaled_le_iff hv v.value).mpr hge
    rw [hsteps, ← Nat.le_div_iff_mul_le hden] at this
    exact Nat.lt_irrefl _ (Nat.lt_of_lt_of_le (Nat.lt_succ_self _) this)
  intro hnone
  unfold withDigits? at hnone
  dsimp only at hnone
  split at hnone
  · next hd₀ hd₁ =>
    rcases h d hlow hhigh with hold | hold
    · exact Bool.false_ne_true (hd₀.symm.trans hold)
    · exact Bool.false_ne_true (hd₁.symm.trans hold)
  · cases hnone
  · cases hnone
  · split at hnone <;> cases hnone

/-- The power of ten that the value lies right below. -/
theorem magnitude_spec (hv : 0 < v.denominator) (hpos : 0 < v.value) :
    (10 : ℚ) ^ (v.magnitude - 1) ≤ v.part v.value ∧ v.part v.value < 10 ^ v.magnitude := by
  have hden : (0 : ℚ) < v.denominator := by exact_mod_cast hv
  have hvalue := decimal_bounds hpos.ne' 0
  have hdenominator := decimal_bounds hv.ne' 0
  simp only [zpow_zero, mul_one, add_zero] at hvalue hdenominator
  set k : Int := (Nat.toDigits 10 v.value).length - (Nat.toDigits 10 v.denominator).length with hk
  have hlow : (10 : ℚ) ^ (k - 1) ≤ v.part v.value := by
    rw [part, le_div_iff₀ hden]
    calc (10 : ℚ) ^ (k - 1) * v.denominator
        ≤ 10 ^ (k - 1) * 10 ^ ((Nat.toDigits 10 v.denominator).length : Int) := by
          gcongr; exact hdenominator.2.le
      _ = 10 ^ ((Nat.toDigits 10 v.value).length - 1 : Int) := by
          rw [← zpow_add₀ (by norm_num)]; congr 1; omega
      _ ≤ v.value := hvalue.1
  have hhigh : v.part v.value < 10 ^ (k + 1) := by
    rw [part, div_lt_iff₀ hden]
    calc (v.value : ℚ) < 10 ^ ((Nat.toDigits 10 v.value).length : Int) := hvalue.2
      _ = 10 ^ (k + 1) * 10 ^ ((Nat.toDigits 10 v.denominator).length - 1 : Int) := by
          rw [← zpow_add₀ (by norm_num)]; congr 1; omega
      _ ≤ 10 ^ (k + 1) * v.denominator := by gcongr; exact hdenominator.1
  have hstep : (v.scaled 1 k).1 ≤ v.value * (v.scaled 1 k).2 ↔ (10 : ℚ) ^ k ≤ v.part v.value := by
    rw [scaled_le_iff hv, Nat.cast_one, one_mul]
  have hmagnitude : v.magnitude = if (v.scaled 1 k).1 ≤ v.value * (v.scaled 1 k).2 then k + 1 else k :=
    rfl
  rw [hmagnitude]
  split
  · next h => exact ⟨by rw [Int.add_sub_cancel]; exact hstep.mp h, hhigh⟩
  · next h => exact ⟨hlow, lt_of_not_ge (mt hstep.mpr h)⟩

end Interval

section OfDouble

variable {x : Float}

theorem part_ofDouble (d : Double) (n : Nat) :
    (Interval.ofDouble d).part (n * Nat.pow 2 (d.scale - 1077)) = n / 4 * 2 ^ (d.scale - 1075 : Int) := by
  have htwo : (2 : ℚ) ^ (d.scale - 1077) / 2 ^ (1077 - d.scale) = 2 ^ (d.scale - 1077 : Int) := by
    rw [div_eq_iff (by positivity), ← zpow_natCast, ← zpow_natCast, ← zpow_add₀ two_ne_zero]
    congr 1
    omega
  show ((n * 2 ^ (d.scale - 1077) : Nat) : ℚ) / (2 ^ (1077 - d.scale) : Nat) = _
  push_cast
  rw [mul_div_assoc, htwo, show (d.scale - 1077 : Int) = (d.scale - 1075) + -2 by omega,
    zpow_add₀ two_ne_zero]
  norm_num
  ring

/-- Quarters of the last place from a double down to the end of its interval. -/
def below (d : Double) : Nat := if d.fraction = 0 ∧ 1 < d.biased then 1 else 2

theorem below_cases (d : Double) : below d = 2 ∨ below d = 1 ∧ d.fraction = 0 ∧ 1 < d.biased := by
  unfold below
  split
  · next h => exact .inr ⟨rfl, h⟩
  · exact .inl rfl

theorem part_low {d : Double} (hpos : 0 < d.significand) :
    (Interval.ofDouble d).part (Interval.ofDouble d).low =
      (d.significand - below d / 4) * 2 ^ (d.scale - 1075 : Int) := by
  have hle : below d ≤ 4 * d.significand := by
    rcases below_cases d with h | ⟨h, -⟩ <;> omega
  refine (part_ofDouble d (4 * d.significand - below d)).trans ?_
  push_cast [hle]
  ring

theorem part_value (d : Double) :
    (Interval.ofDouble d).part (Interval.ofDouble d).value =
      d.significand * 2 ^ (d.scale - 1075 : Int) := by
  refine (part_ofDouble d (4 * d.significand)).trans ?_
  push_cast
  ring

theorem part_high (d : Double) :
    (Interval.ofDouble d).part (Interval.ofDouble d).high =
      (d.significand + 1 / 2) * 2 ^ (d.scale - 1075 : Int) := by
  refine (part_ofDouble d (4 * d.significand + 2)).trans ?_
  push_cast
  ring

theorem denominator_pos (d : Double) : 0 < (Interval.ofDouble d).denominator :=
  Nat.pow_pos (by decide)

theorem roundsTo_of_holds {d : Nat} {e : Int} (hpos : 0 < (Double.ofFloat x).significand)
    (h : (Interval.ofDouble (Double.ofFloat x)).holds d e = true) :
    RoundsTo (d * 10 ^ e) (Double.ofFloat x).significand ((Double.ofFloat x).scale - 1075) := by
  obtain ⟨hlow, hhigh, htie⟩ := (Interval.holds_iff (denominator_pos _)).mp h
  rw [part_low hpos] at hlow htie
  rw [part_high] at hhigh htie
  have hcases := Double.significand_cases x
  generalize hm : (Double.ofFloat x).significand = m at *
  generalize hq : ((Double.ofFloat x).scale - 1075 : Int) = q at *
  have hunit : (0 : ℚ) < 2 ^ q := by positivity
  have hhalf : (m - 1 / 2 : ℚ) * 2 ^ q ≤ (m - below (Double.ofFloat x) / 4) * 2 ^ q := by
    refine mul_le_mul_of_nonneg_right ?_ hunit.le
    rcases below_cases (Double.ofFloat x) with hb | ⟨hb, -⟩ <;> rw [hb] <;> push_cast <;> linarith
  refine ⟨hm ▸ hq ▸ Double.canonical (hm ▸ hpos), hhalf.trans hlow, hhigh, ?_, ?_⟩
  · intro hodd
    have hopen : (Interval.ofDouble (Double.ofFloat x)).closed = false :=
      decide_eq_false (by rw [hm]; omega)
    obtain ⟨hl, hh⟩ := htie hopen
    exact ⟨fun he => hl (le_antisymm hlow (he ▸ hhalf)), hh⟩
  · intro hbelow hleast
    rcases below_cases (Double.ofFloat x) with hb | ⟨hb, -⟩
    · -- the significand is above the least one, so all of its interval is above the power of two
      have hfraction : (Double.ofFloat x).fraction ≠ 0 := by
        intro hzero
        have : ¬ 1 < (Double.ofFloat x).biased := fun hbiased => by
          rw [below, if_pos ⟨hzero, hbiased⟩] at hb
          omega
        omega
      have hm' : (2 ^ 52 + 1 : ℚ) ≤ m := by
        have : 2 ^ 52 + 1 ≤ m := by omega
        exact_mod_cast this
      have hpower : (2 ^ 52 * 2 ^ q : ℚ) ≤ (m - 1 / 2) * 2 ^ q :=
        mul_le_mul_of_nonneg_right (by linarith) hunit.le
      exact absurd hbelow (not_lt.mpr (hpower.trans (hhalf.trans hlow)))
    · rw [hb, Nat.cast_one] at hlow
      exact hlow

/-- The ends of the interval are further from a double than half a step of seventeen digits. -/
theorem gap_le {d : Double} (hlt : d.significand < 2 ^ 53) (hleast : d.biased ≠ 0 →
    d.significand = d.fraction + 2 ^ 52) :
    d.significand * 2 ^ (d.scale - 1075 : Int) / 2 ^ 54 ≤
      (below d / 4 : ℚ) * 2 ^ (d.scale - 1075 : Int) := by
  have hunit : (0 : ℚ) < 2 ^ (d.scale - 1075 : Int) := by positivity
  rw [div_le_iff₀ (by positivity), mul_right_comm]
  refine mul_le_mul_of_nonneg_right ?_ hunit.le
  rcases below_cases d with hb | ⟨hb, hf, hbiased⟩
  · have : (d.significand : ℚ) ≤ 2 ^ 53 := by exact_mod_cast hlt.le
    rw [hb]
    norm_num at this ⊢
    exact this
  · rw [hb, hleast (by omega), hf]
    norm_num

theorem withDigits?_seventeen (hpos : 0 < (Double.ofFloat x).significand) :
    (Interval.ofDouble (Double.ofFloat x)).withDigits?
      (Interval.ofDouble (Double.ofFloat x)).magnitude 17 ≠ none := by
  have hvalue : 0 < (Interval.ofDouble (Double.ofFloat x)).value :=
    Nat.mul_pos (by omega) (Nat.pow_pos (by decide))
  have hden := denominator_pos (Double.ofFloat x)
  obtain ⟨hlow, hhigh⟩ := Interval.magnitude_spec hden hvalue
  have hgap := gap_le (Double.canonical hpos).lt fun hb => by
    rcases Double.significand_cases x with h | h
    · exact absurd h.1 hb
    · exact h.2.1
  set k := (Interval.ofDouble (Double.ofFloat x)).magnitude
  refine Interval.withDigits?_ne_none hden fun d hd hd' => ?_
  have hstep : (10 : ℚ) ^ (k - 1) = 10 ^ 16 * 10 ^ (k - (17 : Nat)) := by
    rw [← zpow_natCast, ← zpow_add₀ (by norm_num)]
    congr 1
    push_cast
    omega
  have hhalf : (below (Double.ofFloat x) / 4 : ℚ) ≤ 1 / 2 := by
    rcases below_cases (Double.ofFloat x) with hb | ⟨hb, -⟩ <;> rw [hb] <;> norm_num
  rw [hstep] at hlow
  rw [Interval.holds_iff hden, Interval.holds_iff hden]
  rw [part_low hpos, part_high]
  rw [part_value] at hlow hhigh hd hd'
  have hunit : (0 : ℚ) < 2 ^ ((Double.ofFloat x).scale - 1075 : Int) := by positivity
  generalize ((Double.ofFloat x).significand : ℚ) = m at *
  generalize (2 : ℚ) ^ ((Double.ofFloat x).scale - 1075 : Int) = U at *
  generalize (below (Double.ofFloat x) / 4 : ℚ) = w at *
  have hu : (0 : ℚ) < 10 ^ (k - (17 : Nat)) := by positivity
  generalize (10 : ℚ) ^ (k - (17 : Nat)) = u at *
  push_cast at hd' ⊢
  have hhalfU : w * U ≤ 1 / 2 * U := mul_le_mul_of_nonneg_right hhalf hunit.le
  have hclose : u / 2 < w * U := by
    refine lt_of_lt_of_le ?_ hgap
    rw [lt_div_iff₀ (by positivity)]
    norm_num at hlow ⊢
    linarith
  -- the nearer of the two neighbours is strictly inside
  have hinside {c : ℚ} (hl : (m - w) * U < c) (hh : c < (m + 1 / 2) * U) {p : Prop} :
      (m - w) * U ≤ c ∧ c ≤ (m + 1 / 2) * U ∧ (p → (m - w) * U ≠ c ∧ c ≠ (m + 1 / 2) * U) :=
    ⟨hl.le, hh.le, fun _ => ⟨hl.ne, hh.ne⟩⟩
  rcases le_total (m * U - d * u) (u / 2) with hnear | hnear
  · exact .inl (hinside (by linarith) (by linarith))
  · exact .inr (hinside (by linarith) (by linarith))

theorem Scientific.value_strip (fuel : Nat) (s : Scientific) : (s.strip fuel).value = s.value := by
  induction fuel generalizing s with
  | zero => rfl
  | succ fuel ih =>
    rw [strip]
    split
    · next h =>
      obtain ⟨c, hc⟩ := Nat.dvd_of_mod_eq_zero h.1
      rw [ih, value, value, hc, Nat.mul_div_cancel_left c (by decide), zpow_add_one₀ (by norm_num)]
      push_cast
      ring
    · rfl

/-- The shortest decimal of a double is rounded to it. -/
theorem roundsTo_shortest (hpos : 0 < (Double.ofFloat x).significand) :
    RoundsTo (shortest (Double.ofFloat x)).value (Double.ofFloat x).significand
      ((Double.ofFloat x).scale - 1075) := by
  set v := Interval.ofDouble (Double.ofFloat x) with hv
  obtain ⟨s, hs⟩ : ∃ s, ((List.range 17).map (· + 1)).findSome? (v.withDigits? v.magnitude) = some s := by
    refine Option.ne_none_iff_exists'.mp fun hnone => ?_
    exact withDigits?_seventeen hpos (List.findSome?_eq_none_iff.mp hnone 17 (by decide))
  obtain ⟨n, -, hn⟩ := List.exists_of_findSome?_eq_some hs
  have hshortest : shortest (Double.ofFloat x) = s.strip 20 := by
    unfold shortest
    dsimp only
    rw [← hv, hs]
    rfl
  rw [hshortest, s.value_strip]
  exact roundsTo_of_holds hpos (Interval.holds_of_withDigits? hn)

end OfDouble

end Hunkwise.Decimal
