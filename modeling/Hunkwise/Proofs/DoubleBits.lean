import Hunkwise.Decimal.Notation
import Hunkwise.Proofs.NearestDouble

/-! Doubles by their bits, and the numbers that decimals are read as. A decimal in the interval of a
double is read as that double, bit for bit. -/

namespace Hunkwise.Decimal

open Float.Model Float.Model.UnpackedFloat

theorem toNat_append {w v : Nat} (x : BitVec w) (y : BitVec v) :
    (x ++ y).toNat = x.toNat * 2 ^ v + y.toNat := by
  rw [BitVec.toNat_append, ← Nat.shiftLeft_add_eq_or_of_lt y.isLt, Nat.shiftLeft_eq]

theorem toNat_packComponents (s : Sign) (e : BitVec 11) (m : BitVec 52) :
    (packComponents .binary64 s e m).toNat = (s.toBitVec.toNat * 2 ^ 11 + e.toNat) * 2 ^ 52 + m.toNat := by
  unfold packComponents
  rw [toNat_append, toNat_append]

namespace Double

variable {x y : Float}

def sign (d : Double) : Sign := if d.negative then .negative else .positive

def bits (d : Double) : Nat := (d.sign.toBitVec.toNat * 2 ^ 11 + d.biased) * 2 ^ 52 + d.fraction

theorem biased_lt (x : Float) : (ofFloat x).biased < 2 ^ 11 := Nat.mod_lt _ (by decide)

theorem fraction_lt (x : Float) : (ofFloat x).fraction < 2 ^ 52 := Nat.mod_lt _ (by decide)

theorem negative_iff (x : Float) : (ofFloat x).negative = true ↔ 2 ^ 63 ≤ x.toBits.toNat := by
  have hx := x.toBits.toNat_lt
  rw [show (ofFloat x).negative = decide (x.toBits.toNat / 2 ^ 63 = 1) from rfl, decide_eq_true_iff]
  omega

theorem toNat_toBits (x : Float) : x.toBits.toNat = (ofFloat x).bits := by
  have hx := x.toBits.toNat_lt
  have hsign := negative_iff x
  have hbiased : (ofFloat x).biased = x.toBits.toNat / 2 ^ 52 % 2 ^ 11 := rfl
  have hfraction : (ofFloat x).fraction = x.toBits.toNat % 2 ^ 52 := rfl
  unfold bits sign
  split
  · next h =>
    have := hsign.mp h
    show _ = (1 * 2 ^ 11 + _) * 2 ^ 52 + _
    omega
  · next h =>
    have := mt hsign.mpr h
    show _ = (0 * 2 ^ 11 + _) * 2 ^ 52 + _
    omega

theorem eq_of_toNat_toBits (h : x.toBits.toNat = y.toBits.toNat) : x = y := by
  obtain ⟨⟨b, _⟩⟩ := x
  obtain ⟨⟨c, _⟩⟩ := y
  have : b = c := UInt64.toNat.inj h
  subst this
  rfl

theorem toNat_unpackExponent (x : Float) :
    (@unpackExponent .binary64 x.toBits.toBitVec).toNat = (ofFloat x).biased := by
  simp only [unpackExponent, BitVec.toNat_cast, BitVec.extractLsb_toNat, Nat.shiftRight_eq_div_pow]
  rfl

theorem toNat_unpackMantissa (x : Float) :
    (@unpackMantissa .binary64 x.toBits.toBitVec).toNat = (ofFloat x).fraction := by
  simp only [unpackMantissa, BitVec.toNat_cast, BitVec.extractLsb_toNat, Nat.shiftRight_eq_div_pow]
  show x.toBits.toNat / 1 % 2 ^ 52 = _
  rw [Nat.div_one]
  rfl

theorem ofBitVec_unpackSign (x : Float) :
    Sign.ofBitVec (@unpackSign .binary64 x.toBits.toBitVec) = (ofFloat x).sign := by
  have hx := x.toBits.toNat_lt
  have hbit : (@unpackSign .binary64 x.toBits.toBitVec).toNat = x.toBits.toNat / 2 ^ 63 := by
    show (x.toBits.toBitVec.extractLsb 63 63).toNat = _
    rw [BitVec.extractLsb_toNat, Nat.shiftRight_eq_div_pow]
    show x.toBits.toNat / 2 ^ 63 % 2 = _
    omega
  have hzero : @unpackSign .binary64 x.toBits.toBitVec = 0#1 ↔ x.toBits.toNat / 2 ^ 63 = 0 := by
    rw [← BitVec.toNat_inj, hbit]
    rfl
  have hsign := negative_iff x
  unfold Sign.ofBitVec sign
  by_cases h : x.toBits.toNat / 2 ^ 63 = 0
  · rw [if_pos (hzero.mpr h), if_neg (mt hsign.mp (by omega))]
  · rw [if_neg (mt hzero.mp h), if_pos (hsign.mpr (by omega))]

theorem finite_congr {s s' : Sign} {m m' : Nat} {q q' : Int} {hm : 0 < m} {hm' : 0 < m'} (hs : s = s')
    (hmm : m = m') (hq : q = q') : UnpackedFloat.finite s m q hm = .finite s' m' q' hm' := by
  subst hs hmm hq
  rfl

theorem unpack_finite (hfinite : (ofFloat x).isFinite = true) (hpos : 0 < (ofFloat x).significand) :
    x.toModel.unpack =
      .finite (ofFloat x).sign (ofFloat x).significand ((ofFloat x).scale - 1075) hpos := by
  have hexp := toNat_unpackExponent x
  have hman := toNat_unpackMantissa x
  have hlast : @unpackExponent .binary64 x.toBits.toBitVec ≠ -1#_ := by
    intro h
    rw [h] at hexp
    have : (ofFloat x).biased = 2047 := hexp.symm
    simp [isFinite, exponents, this] at hfinite
  have hfirst : @unpackExponent .binary64 x.toBits.toBitVec = 0#_ ↔ (ofFloat x).biased = 0 := by
    rw [← BitVec.toNat_inj, hexp]
    rfl
  have hnone : @unpackMantissa .binary64 x.toBits.toBitVec = 0#_ ↔ (ofFloat x).fraction = 0 := by
    rw [← BitVec.toNat_inj, hman]
    rfl
  have hmodel : x.toModel.unpack = UnpackedFloat.unpack .binary64 x.toBits.toBitVec := rfl
  rw [hmodel]
  unfold UnpackedFloat.unpack
  dsimp only
  rw [if_neg hlast]
  by_cases h : (ofFloat x).biased = 0
  · have hs : (ofFloat x).significand = (ofFloat x).fraction := if_pos h
    rw [if_pos (hfirst.mpr h), dif_neg (mt hnone.mp (by omega))]
    refine finite_congr (ofBitVec_unpackSign x) (hman.trans hs.symm) ?_
    rw [hexp, scale, h]
    rfl
  · have hs : (ofFloat x).significand = (ofFloat x).fraction + 2 ^ 52 := if_neg h
    have hmant : (1#1 ++ @unpackMantissa .binary64 x.toBits.toBitVec).toNat =
        (ofFloat x).significand := by
      rw [toNat_append, hman, hs, Nat.add_comm]
      rfl
    rw [if_neg (mt hfirst.mp h)]
    refine finite_congr (ofBitVec_unpackSign x) hmant ?_
    rw [hexp, scale, Nat.max_eq_left (by omega)]
    rfl

theorem toNat_pack {s : Sign} {m : Nat} {q : Int} (hm : 0 < m) (hlt : m < 2 ^ 53) (hleast : -1074 ≤ q)
    (hmost : q ≤ 971) :
    (UnpackedFloat.pack .binary64 (.finite s m q hm)).toNat =
      (s.toBitVec.toNat * 2 ^ 11 + (if 2 ^ 52 ≤ m then (q + 1075).toNat else 0)) * 2 ^ 52 + m % 2 ^ 52 := by
  have hexp : (q + Format.binary64.exponentBias + (52 : Nat)).toNat = (q + 1075).toNat := by
    show (q + (1023 : Nat) + (52 : Nat)).toNat = _
    omega
  have hnot : ¬ 2 ^ Format.binary64.exponentBits ≤ (q + 1075).toNat + 1 := by
    show ¬ 2 ^ 11 ≤ _
    omega
  have hlog : m.log2 + 1 = Format.binary64.mantissaBits ↔ 2 ^ 52 ≤ m := by
    show m.log2 + 1 = 53 ↔ _
    rw [← Nat.le_log2 hm.ne']
    have := (Nat.log2_lt hm.ne').mpr hlt
    omega
  unfold UnpackedFloat.pack
  simp only [hexp]
  rw [if_neg hnot]
  by_cases h : 2 ^ 52 ≤ m
  · rw [if_pos (hlog.mpr h), if_pos h, toNat_packComponents, BitVec.toNat_ofNat, BitVec.toNat_ofNat,
      Nat.mod_eq_of_lt (show (q + 1075).toNat < 2 ^ 11 by omega)]
  · rw [if_neg (mt hlog.mp h), if_neg h, toNat_packComponents, BitVec.toNat_ofNat]
    rfl

/-- The significand and the exponent of a double, by its bits. -/
theorem significand_cases (x : Float) :
    ((ofFloat x).biased = 0 ∧ (ofFloat x).significand = (ofFloat x).fraction ∧ (ofFloat x).scale = 1) ∨
      0 < (ofFloat x).biased ∧ (ofFloat x).significand = (ofFloat x).fraction + 2 ^ 52 ∧
        (ofFloat x).scale = (ofFloat x).biased := by
  rcases Nat.eq_zero_or_pos (ofFloat x).biased with h | h
  · exact .inl ⟨h, if_pos h, by rw [scale, h]; rfl⟩
  · exact .inr ⟨h, if_neg h.ne', Nat.max_eq_left h⟩

theorem canonical (hpos : 0 < (ofFloat x).significand) :
    Canonical (ofFloat x).significand ((ofFloat x).scale - 1075) := by
  have hfraction := fraction_lt x
  rcases significand_cases x with ⟨hb, hs, he⟩ | ⟨hb, hs, he⟩ <;>
    exact ⟨hpos, by omega, by omega, by omega⟩

theorem scale_le (hfinite : (ofFloat x).isFinite = true) : (ofFloat x).scale ≤ 2046 := by
  have hbiased := biased_lt x
  have hlast : (ofFloat x).biased + 1 ≠ 2 ^ 11 := of_decide_eq_true hfinite
  rcases significand_cases x with ⟨hb, hs, he⟩ | ⟨hb, hs, he⟩ <;> omega

theorem toNat_pack_significand (s : Sign) (hfinite : (ofFloat x).isFinite = true)
    (hpos : 0 < (ofFloat x).significand) :
    (UnpackedFloat.pack .binary64
        (.finite s (ofFloat x).significand ((ofFloat x).scale - 1075) hpos)).toNat =
      (s.toBitVec.toNat * 2 ^ 11 + (ofFloat x).biased) * 2 ^ 52 + (ofFloat x).fraction := by
  have hscale := scale_le hfinite
  have hfraction := fraction_lt x
  have hcanonical := canonical hpos
  rw [toNat_pack hpos hcanonical.lt hcanonical.least (by omega)]
  rcases significand_cases x with ⟨hb, hs, he⟩ | ⟨hb, hs, he⟩
  · rw [hs, hb, if_neg (by omega), Nat.mod_eq_of_lt hfraction]
  · rw [hs, he, if_pos (by omega), Nat.add_mod_right, Nat.mod_eq_of_lt hfraction]
    congr 3
    omega

theorem ofFloat_of_toNat {negative : Bool} {biased fraction : Nat} (hb : biased < 2 ^ 11)
    (hf : fraction < 2 ^ 52)
    (h : x.toBits.toNat = (negative.toNat * 2 ^ 11 + biased) * 2 ^ 52 + fraction) :
    ofFloat x = ⟨negative, biased, fraction⟩ := by
  have hsign := negative_iff x
  have hbiased : (ofFloat x).biased = x.toBits.toNat / 2 ^ 52 % 2 ^ 11 := rfl
  have hfraction : (ofFloat x).fraction = x.toBits.toNat % 2 ^ 52 := rfl
  have hnegative : (ofFloat x).negative = negative := by
    cases negative with
    | true => exact hsign.mpr (by rw [Bool.toNat_true] at h; omega)
    | false => exact Bool.eq_false_iff.mpr (mt hsign.mp (by rw [Bool.toNat_false] at h; omega))
  have hb' : (ofFloat x).biased = biased := by omega
  have hf' : (ofFloat x).fraction = fraction := by omega
  rw [← hnegative, ← hb', ← hf']

end Double

theorem decimal_bounds {D : Nat} (hD : D ≠ 0) (E : Int) :
    (10 : ℚ) ^ ((Nat.toDigits 10 D).length + E - 1) ≤ D * 10 ^ E ∧
      (D * 10 ^ E : ℚ) < 10 ^ ((Nat.toDigits 10 D).length + E) := by
  set n := (Nat.toDigits 10 D).length with hn
  have hpos : 0 < n := Nat.length_toDigits_pos
  have hlt : D < 10 ^ n := (Nat.length_toDigits_le_iff (by decide) hpos).mp le_rfl
  have hge : 10 ^ (n - 1) ≤ D := by
    rcases Nat.eq_zero_or_pos (n - 1) with h | h
    · rw [h]
      exact Nat.pos_of_ne_zero hD
    · refine not_lt.mp fun hlow => ?_
      have := (Nat.length_toDigits_le_iff (by decide) h).mpr hlow
      omega
  have hge : (10 : ℚ) ^ (n - 1 : Int) ≤ D := by
    rw [show (n - 1 : Int) = (n - 1 : Nat) by omega]
    exact_mod_cast hge
  have hlt : (D : ℚ) < 10 ^ (n : Int) := by exact_mod_cast hlt
  have hten : (0 : ℚ) < 10 ^ E := by positivity
  constructor
  · calc (10 : ℚ) ^ (n + E - 1) = 10 ^ (n - 1 : Int) * 10 ^ E := by
          rw [← zpow_add₀ (by norm_num)]; congr 1; omega
      _ ≤ D * 10 ^ E := by gcongr
  · calc (D * 10 ^ E : ℚ) < 10 ^ (n : Int) * 10 ^ E := by gcongr
      _ = 10 ^ (n + E) := by rw [← zpow_add₀ (by norm_num)]

/-- A decimal in the interval of a double is within the range of those that are computed. -/
theorem RoundsTo.size_bounds {D m : Nat} {E q : Int} (hv : RoundsTo (D * 10 ^ E) m q)
    (hmost : q ≤ 971) :
    -400 ≤ ((Nat.toDigits 10 D).length + E : Int) ∧ ((Nat.toDigits 10 D).length + E : Int) ≤ 400 := by
  obtain ⟨hlow, hhigh⟩ := decimal_bounds hv.ne_zero E
  have hten : (2 : ℚ) ^ (1200 : Int) ≤ 10 ^ (400 : Int) := by
    rw [show (1200 : Int) = 3 * 400 by norm_num, zpow_mul]
    exact zpow_le_zpow_left₀ (by norm_num) (by norm_num) (by norm_num)
  constructor
  · have hleast : (10 : ℚ) ^ (-400 : Int) ≤ D * 10 ^ E := by
      refine le_trans ?_ hv.low
      have hm : (1 : ℚ) ≤ m := by exact_mod_cast hv.canonical.pos
      have hq : (2 : ℚ) ^ (-1074 : Int) ≤ 2 ^ q := zpow_le_zpow_right₀ one_le_two hv.canonical.least
      calc (10 : ℚ) ^ (-400 : Int) ≤ 2 ^ (-1200 : Int) := by
            rw [zpow_neg, zpow_neg]
            exact inv_anti₀ (by positivity) hten
        _ ≤ 2 ^ (-1 + -1074 : Int) := zpow_le_zpow_right₀ one_le_two (by norm_num)
        _ = 1 / 2 * 2 ^ (-1074 : Int) := by rw [zpow_add₀ two_ne_zero, zpow_neg_one, one_div]
        _ ≤ (m - 1 / 2) * 2 ^ q := mul_le_mul (by linarith) hq (by positivity) (by linarith)
    have := lt_of_le_of_lt hleast hhigh
    rw [zpow_lt_zpow_iff_right₀ (by norm_num)] at this
    omega
  · have hmost : (D * 10 ^ E : ℚ) < 10 ^ (400 : Int) := by
      refine lt_of_lt_of_le hv.lt_two_zpow ?_
      exact (zpow_le_zpow_right₀ one_le_two (by omega)).trans hten
    have := lt_of_le_of_lt hlow hmost
    rw [zpow_lt_zpow_iff_right₀ (by norm_num)] at this
    omega

theorem length_toDigits_le_log2 (D : Nat) : (Nat.toDigits 10 D).length ≤ D.log2 + 1 := by
  rw [Nat.length_toDigits_le_iff (by decide) (Nat.succ_pos _)]
  exact lt_of_lt_of_le Nat.lt_log2_self (Nat.pow_le_pow_left (by decide) _)

/-- A decimal in the interval of a double is read as that double. -/
theorem toFloat_eq {x : Float} {D : Nat} {E : Int} (hfinite : isFinite x = true)
    (hv : RoundsTo (D * 10 ^ E) (Double.ofFloat x).significand ((Double.ofFloat x).scale - 1075)) :
    toFloat (Double.ofFloat x).negative D E = x := by
  have hscale := Double.scale_le hfinite
  have hpos := hv.canonical.pos
  have hD := hv.ne_zero
  obtain ⟨hleast, hmost⟩ := hv.size_bounds (by omega)
  have hlength := length_toDigits_le_log2 D
  have hread := hv.ofScientific_eq (by have := @Nat.length_toDigits_pos 10 D; omega) (by omega)
  generalize hy : Float.ofModel (.ofScientific D E) = y
  have hbits : y.toBits.toNat =
      (0 * 2 ^ 11 + (Double.ofFloat x).biased) * 2 ^ 52 + (Double.ofFloat x).fraction := by
    rw [← hy]
    show (UnpackedFloat.pack .binary64 (UnpackedFloat.ofScientific .binary64 D E)).toNat = _
    rw [hread, Double.toNat_pack_significand _ hfinite]
    rfl
  have hbiased := Double.biased_lt x
  have hfraction := Double.fraction_lt x
  have hdouble : Double.ofFloat y = { Double.ofFloat x with negative := false } :=
    Double.ofFloat_of_toNat hbiased hfraction hbits
  have hcore : toFloat (Double.ofFloat x).negative D E =
      if (Double.ofFloat x).negative then -y else y := by
    have hsmall : ¬ (D = 0 ∨ ((Nat.toDigits 10 D).length + E : Int) < -400) := by omega
    have hlarge : ¬ 400 < ((Nat.toDigits 10 D).length + E : Int) := by omega
    simp only [toFloat, if_neg hsmall, if_neg hlarge, hy]
  rw [hcore]
  apply Double.eq_of_toNat_toBits
  rw [Double.toNat_toBits x, Double.bits, Double.sign]
  cases (Double.ofFloat x).negative with
  | false => exact hbits
  | true =>
    have hunpack : y.toModel.unpack = .finite .positive (Double.ofFloat x).significand
        ((Double.ofFloat x).scale - 1075) hpos := by
      refine (Double.unpack_finite ?_ ?_).trans (Double.finite_congr ?_ ?_ ?_) <;> rw [hdouble]
      exacts [hfinite, hpos, rfl, rfl, rfl]
    show (UnpackedFloat.pack .binary64 y.toModel.unpack.neg).toNat = _
    rw [hunpack]
    exact Double.toNat_pack_significand .negative hfinite hpos

end Hunkwise.Decimal
