import TaskNetwork.Decimal.Fixed
import TaskNetwork.Proofs.Decimal.Packing

/-! Rounding to floats. The numbers that round to a float are those at most half the distance to the
next float away from it, and from any of them, as a quotient with bits enough, rounding makes the
float. -/

namespace TaskNetwork.Decimal

open Float.Model Float.Model.UnpackedFloat

section Bits

/-- The bits of `num / den`: its whole part, the half after it and whether more follows. -/
def bitsOf (num den : Nat) : ExtendedMantissa :=
  ⟨num / den, 2 * num / den % 2 != 0, 2 * num % den != 0⟩

theorem shiftRightOne_bitsOf (num : Nat) {den : Nat} (hden : 0 < den) :
    (bitsOf num den).shiftRightOne = bitsOf num (2 * den) := by
  have hhalf : num / den / 2 = num / (2 * den) := by rw [Nat.div_div_eq_div_mul, Nat.mul_comm]
  have hround : 2 * num / (2 * den) = num / den := Nat.mul_div_mul_left _ _ (by decide)
  have hrest : 2 * num % (2 * den) = 2 * (num % den) := Nat.mul_mod_mul_left 2 num den
  have hsticky : (2 * num / den % 2 != 0 || 2 * num % den != 0) = (2 * (num % den) != 0) := by
    have hdiv := Nat.div_add_mod num den
    have hdouble := Nat.div_add_mod (2 * num) den
    rw [Bool.eq_iff_iff]
    simp only [Bool.or_eq_true, bne_iff_ne]
    refine ⟨fun h hnone => ?_, fun h => ?_⟩
    · have hwhole : 2 * num = den * (2 * (num / den)) := by
        rw [Nat.mul_left_comm]
        omega
      rw [hwhole, Nat.mul_div_cancel_left _ hden, Nat.mul_mod_right, Nat.mul_mod_right] at h
      simp at h
    · by_contra hnone
      push Not at hnone
      obtain ⟨j, hj⟩ := Nat.dvd_of_mod_eq_zero hnone.1
      rw [hnone.2, Nat.add_zero, hj, Nat.mul_left_comm] at hdouble
      have hwhole : num = den * j := by omega
      rw [hwhole, Nat.mul_mod_right] at h
      exact h rfl
  simp only [bitsOf, ExtendedMantissa.shiftRightOne, hhalf, hround, hrest, hsticky]

theorem shiftRight_bitsOf (num : Nat) {den : Nat} (hden : 0 < den) (n : Nat) :
    bitsOf num den >>> n = bitsOf num (2 ^ n * den) := by
  induction n with
  | zero => rw [Nat.pow_zero, Nat.one_mul]; rfl
  | succ n ih =>
    show (bitsOf num den >>> n).shiftRightOne = _
    rw [ih, shiftRightOne_bitsOf num (by positivity), Nat.pow_succ', Nat.mul_assoc]

/-- The bits after the whole part are those of the remainder. -/
theorem ofMantissaAndAccuracy_fraction (num : Nat) {den : Nat} (hden : 0 < den) :
    ExtendedMantissa.ofMantissaAndAccuracy (num / den) (accuracyOfFraction (num % den) den) =
      bitsOf num den := by
  have hlt := Nat.mod_lt num hden
  have htwo : 2 * num = den * (2 * (num / den)) + 2 * (num % den) := by
    rw [Nat.mul_left_comm, ← Nat.mul_add, Nat.div_add_mod]
  have hround : 2 * num / den % 2 = 2 * (num % den) / den := by
    rw [htwo, Nat.mul_add_div hden, Nat.mul_add_mod]
    exact Nat.mod_eq_of_lt ((Nat.div_lt_iff_lt_mul hden).mpr (by omega))
  have hsticky : 2 * num % den = 2 * (num % den) % den := by rw [htwo, Nat.mul_add_mod]
  unfold accuracyOfFraction bitsOf
  rw [hround, hsticky]
  generalize num / den = f, num % den = r at *
  by_cases hr : r = 0
  · subst hr
    simp [ExtendedMantissa.ofMantissaAndAccuracy]
  rw [if_neg hr]
  rcases Nat.lt_trichotomy (2 * r) den with h | h | h
  · rw [Nat.div_eq_of_lt h, Nat.mod_eq_of_lt h, Nat.compare_eq_lt.mpr h]
    simp [ExtendedMantissa.ofMantissaAndAccuracy, hr]
  · rw [h, Nat.div_self hden, Nat.mod_self, Nat.compare_eq_eq.mpr rfl]
    rfl
  · have hone : 2 * r / den = 1 := Nat.div_eq_of_lt_le (by omega) (by omega)
    have hmore : 2 * r % den ≠ 0 := by
      rw [Nat.mod_eq_sub_mod (by omega), Nat.mod_eq_of_lt (by omega)]
      omega
    rw [hone, bne_iff_ne.mpr hmore, Nat.compare_eq_gt.mpr h]
    rfl

theorem roundedMantissa_bitsOf (num : Nat) {den : Nat} (hden : 0 < den) :
    (bitsOf num den).roundedMantissa = roundDiv num den := by
  have hrounded (m : Nat) (a : Accuracy) :
      (ExtendedMantissa.ofMantissaAndAccuracy m a).roundedMantissa = a.roundToNearestEven m := by
    cases a with
    | exact => rfl
    | inexact order => cases order <;> rfl
  rw [← ofMantissaAndAccuracy_fraction num hden, hrounded]
  unfold accuracyOfFraction roundDiv
  dsimp only
  generalize num / den = f, num % den = r
  by_cases hr : r = 0
  · rw [if_pos hr, if_pos (by omega)]
    rfl
  rw [if_neg hr]
  rcases Nat.lt_trichotomy (2 * r) den with h | h | h
  · rw [if_pos h, Nat.compare_eq_lt.mpr h]
    rfl
  · rw [h, if_neg (Nat.lt_irrefl den), if_neg (Nat.lt_irrefl den), Nat.compare_eq_eq.mpr rfl]
    show f + f % 2 = _
    split <;> omega
  · rw [if_neg (by omega), if_pos h, Nat.compare_eq_gt.mpr h]
    rfl

/-- A quotient rounds to the whole number that is at most half away, and if it is halfway to the
even one. -/
theorem roundDiv_eq {num den m : Nat} (hden : 0 < den) (hlow : (m : ℚ) - 1 / 2 ≤ num / den)
    (hhigh : (num : ℚ) / den ≤ m + 1 / 2)
    (hodd : m % 2 = 1 → (m : ℚ) - 1 / 2 < num / den ∧ (num : ℚ) / den < m + 1 / 2) :
    roundDiv num den = m := by
  have hpos : (0 : ℚ) < den := by exact_mod_cast hden
  have hsplit : (num : ℚ) / den = (num / den : Nat) + (num % den : Nat) / den := by
    rw [add_div' _ _ _ hpos.ne']
    congr 1
    exact_mod_cast (Nat.div_add_mod' num den).symm
  have hhalf : 2 * (num % den) < den ↔ ((num % den : Nat) : ℚ) / den < 1 / 2 := by
    rw [div_lt_div_iff₀ hpos two_pos, one_mul, mul_comm]
    exact_mod_cast Iff.rfl
  have hmore : den < 2 * (num % den) ↔ 1 / 2 < ((num % den : Nat) : ℚ) / den := by
    rw [div_lt_div_iff₀ two_pos hpos, one_mul, mul_comm]
    exact_mod_cast Iff.rfl
  have hnonneg : (0 : ℚ) ≤ (num % den : Nat) / den := by positivity
  have hless : ((num % den : Nat) : ℚ) / den < 1 := by
    rw [div_lt_one hpos]
    exact_mod_cast Nat.mod_lt num hden
  rw [hsplit] at hlow hhigh hodd
  unfold roundDiv
  dsimp only
  simp only [hhalf, hmore]
  generalize num / den = f, ((num % den : Nat) : ℚ) / den = d at *
  have hf : f = m ∨ f + 1 = m := by
    have hle : f < m + 1 := by exact_mod_cast (by linarith : (f : ℚ) < m + 1)
    have hge : m < f + 2 := by exact_mod_cast (by linarith : (m : ℚ) < f + 2)
    omega
  rcases hf with rfl | rfl
  · have hless : ¬1 / 2 < d := by linarith
    rw [if_neg hless]
    split
    · rfl
    · next hhalf =>
      split
      · rfl
      · exact absurd (by linarith [(hodd (by omega)).2]) hhalf
  · push_cast at hlow hhigh hodd
    have hmore : ¬d < 1 / 2 := by linarith
    rw [if_neg hmore]
    split
    · rfl
    · next hhalf =>
      split
      · exact absurd (by linarith [(hodd (by omega)).1]) hhalf
      · rfl

end Bits

/-- The least number, in units of `2 ^ q`, that may round to `m * 2 ^ q`. Below a power of two the
floats lie twice as dense. -/
def lowerEnd (m : Nat) (q : Int) : ℚ :=
  if m = leadingOne ∧ leastExponent < q then m - 1 / 4 else m - 1 / 2

/-- The numbers that round to `m * 2 ^ q`: of two equally near floats a number rounds to the one
with an even mantissa. -/
def Rounds (m : Nat) (q : Int) (v : ℚ) : Prop :=
  if m % 2 = 0 then lowerEnd m q ≤ v / 2 ^ q ∧ v / 2 ^ q ≤ m + 1 / 2
  else lowerEnd m q < v / 2 ^ q ∧ v / 2 ^ q < m + 1 / 2

namespace Rounds

variable {m : Nat} {q : Int} {v : ℚ}

theorem lowerEnd_le (h : Rounds m q v) : lowerEnd m q ≤ v / 2 ^ q := by
  unfold Rounds at h
  split at h
  · exact h.1
  · exact h.1.le

theorem half_le (h : Rounds m q v) : (m : ℚ) - 1 / 2 ≤ v / 2 ^ q := by
  refine le_trans ?_ h.lowerEnd_le
  unfold lowerEnd
  split <;> linarith

theorem le_half (h : Rounds m q v) : v / 2 ^ q ≤ m + 1 / 2 := by
  unfold Rounds at h
  split at h
  · exact h.2
  · exact h.2.le

theorem of_odd (h : Rounds m q v) (hodd : m % 2 = 1) :
    (m : ℚ) - 1 / 2 < v / 2 ^ q ∧ v / 2 ^ q < m + 1 / 2 := by
  unfold Rounds at h
  rw [if_neg (by omega)] at h
  refine ⟨lt_of_le_of_lt ?_ h.1, h.2⟩
  unfold lowerEnd
  split <;> linarith

end Rounds

theorem targetExponent_binary64 (m : Nat) (e : Int) :
    Format.binary64.targetExponent (totalExponent m e) = max (m.log2 + e - 52) leastExponent := by
  simp only [Format.targetExponent, totalExponent, Format.mantissaBits, Format.minExponent,
    leastExponent]
  norm_num
  omega

theorem shiftToTargetExponent_fraction (num : Nat) {den : Nat} (hden : 0 < den) (e : Int) :
    shiftToTargetExponent .binary64 (num / den) e (accuracyOfFraction (num % den) den) =
      (bitsOf num (2 ^ (max ((num / den).log2 + e - 52) leastExponent - e).toNat * den),
        e + (max ((num / den).log2 + e - 52) leastExponent - e).toNat) := by
  rw [shiftToTargetExponent, targetExponent_binary64, shiftToExponent,
    ofMantissaAndAccuracy_fraction num hden, shiftRight_bitsOf num hden]

/-- The float stays as it is. -/
theorem shiftToTargetExponent_exact {m : Nat} {q : Int} (hlt : m < 2 ^ 53)
    (hq : leastExponent ≤ q) :
    shiftToTargetExponent .binary64 m q .exact = (⟨m, false, false⟩, q) := by
  have hlog : m.log2 ≤ 52 := by
    by_cases hm : m = 0
    · simp [hm]
    · have := (Nat.log2_lt hm).mpr hlt
      omega
  rw [shiftToTargetExponent, targetExponent_binary64, shiftToExponent]
  have hshift : (max (m.log2 + q - 52) leastExponent - q).toNat = 0 := by omega
  rw [hshift]
  simp [HShiftRight.hShiftRight, Nat.repeat, ExtendedMantissa.ofMantissaAndAccuracy]

/-- A mantissa that was rounded up to one bit more loses it again. -/
theorem shiftToTargetExponent_carry {q : Int} (hq : leastExponent < q) :
    shiftToTargetExponent .binary64 (2 ^ 53) (q - 1) .exact = (⟨2 ^ 52, false, false⟩, q) := by
  rw [shiftToTargetExponent, targetExponent_binary64, shiftToExponent, Nat.log2_two_pow]
  have hshift : (max (((53 : Nat) : Int) + (q - 1) - 52) leastExponent - (q - 1)).toNat = 1 := by
    omega
  rw [hshift]
  simp [HShiftRight.hShiftRight, Nat.repeat, ExtendedMantissa.ofMantissaAndAccuracy,
    ExtendedMantissa.shiftRightOne]

/-- A quotient in units of the least exponent that it can have: rounding finds the float, or the
power of two above it in units of the exponent below. -/
theorem roundDiv_cases {num den m : Nat} {q b : Int} (h : IsFloat m q) (hden : 0 < den)
    (hb : leastExponent ≤ b) (hbig : 2 ^ 52 ≤ (num : ℚ) / den ∨ b = leastExponent)
    (hsmall : (num : ℚ) / den < 2 ^ 53) (hv : Rounds m q (num / den * 2 ^ b)) :
    b = q ∧ roundDiv num den = m ∨
      b = q - 1 ∧ leastExponent < q ∧ m = 2 ^ 52 ∧ roundDiv num den = 2 ^ 53 := by
  have hpos : (0 : ℚ) < 2 ^ b := by positivity
  have hunits : (num : ℚ) / den * 2 ^ b / 2 ^ q = num / den * 2 ^ (b - q) := by
    rw [zpow_sub₀ two_ne_zero, mul_div_assoc]
  have hnonneg : (0 : ℚ) ≤ num / den := by positivity
  have hlow := hv.half_le
  have hhigh := hv.le_half
  have hodd := hv.of_odd
  have hend := hv.lowerEnd_le
  rw [hunits] at hlow hhigh hodd hend
  have hfull := h.full
  have hlt : (m : ℚ) + 1 ≤ 2 ^ 53 := by exact_mod_cast h.lt
  have hle : (1 : ℚ) ≤ m := by exact_mod_cast h.pos
  rcases lt_trichotomy b q with hbq | rfl | hbq
  · have hqleast : leastExponent < q := by omega
    have hfloat : 2 ^ 52 ≤ m := hfull.resolve_right (by omega)
    have hfloat' : (2 : ℚ) ^ 52 ≤ m := by exact_mod_cast hfloat
    have hnear : b = q - 1 := by
      by_contra hne
      have hscale : (2 : ℚ) ^ (b - q) ≤ 2 ^ (-2 : Int) := zpow_le_zpow_right₀ one_le_two (by omega)
      have hquarter := mul_le_mul_of_nonneg_left hscale hnonneg
      have hfour : (2 : ℚ) ^ (-2 : Int) = 1 / 4 := by norm_num
      rw [hfour] at hquarter
      linarith
    subst hnear
    have hscale : (2 : ℚ) ^ (q - 1 - q) = 1 / 2 := by
      rw [show q - 1 - q = -1 by ring]
      norm_num
    rw [hscale] at hlow hhigh hend
    have hm : m = 2 ^ 52 := by
      by_contra hne
      have hmore : (2 : ℚ) ^ 52 + 1 ≤ m := by exact_mod_cast lt_of_le_of_ne hfloat (Ne.symm hne)
      linarith
    subst hm
    have hdense : lowerEnd (2 ^ 52) q = 2 ^ 52 - 1 / 4 := by
      rw [lowerEnd, if_pos ⟨rfl, hqleast⟩]
      norm_num
    rw [hdense] at hend
    refine .inr ⟨rfl, hqleast, rfl, roundDiv_eq hden ?_ ?_ fun h => absurd h (by norm_num)⟩
    · push_cast
      linarith
    · push_cast
      linarith
  · left
    rw [sub_self, zpow_zero, mul_one] at *
    exact ⟨rfl, roundDiv_eq hden hlow hhigh hodd⟩
  · have hscale : (2 : ℚ) ^ (1 : Int) ≤ 2 ^ (b - q) := zpow_le_zpow_right₀ one_le_two (by omega)
    have hbig' := hbig.resolve_right (by have := h.least; omega)
    nlinarith

theorem roundWithAccuracy_eq (num : Nat) {den : Nat} (hden : 0 < den) (e : Int) (s : Sign) {m : Nat}
    {q : Int} (h : IsFloat m q) (hv : Rounds m q (num / den * 2 ^ e))
    (hbits : 2 ^ 52 ≤ num / den ∨ e ≤ leastExponent) :
    roundWithAccuracy .binary64 s (num / den) e (accuracyOfFraction (num % den) den) =
      .finite s m q h.pos := by
  have hlog : 2 ^ 52 ≤ num / den → 52 ≤ (num / den).log2 := fun h =>
    (Nat.le_log2 (by omega)).mpr h
  have hfloor : num / den < 2 ^ ((num / den).log2 + 1) := Nat.lt_log2_self
  have hself (h : num / den ≠ 0) : 2 ^ (num / den).log2 ≤ num / den := Nat.log2_self_le h
  rw [roundWithAccuracy, shiftToTargetExponent_fraction num hden]
  generalize hb : max ((num / den).log2 + e - 52) leastExponent = b
  obtain ⟨k, hk⟩ : ∃ k : Nat, b = e + k := ⟨(b - e).toNat, by omega⟩
  have hshift : (b - e).toNat = k := by omega
  rw [hshift, ← hk]
  dsimp only
  rw [roundedMantissa_bitsOf num (by positivity)]
  have hunits : (num : ℚ) / den * 2 ^ e = num / (2 ^ k * den : Nat) * 2 ^ b := by
    rw [hk, zpow_add₀ two_ne_zero, zpow_natCast]
    push_cast
    field_simp
  have hwhole : num / (2 ^ k * den) = num / den / 2 ^ k := by
    rw [Nat.div_div_eq_div_mul, Nat.mul_comm]
  have hsmall : (num : ℚ) / (2 ^ k * den : Nat) < 2 ^ 53 := by
    have hlt : num / (2 ^ k * den) < 2 ^ 53 := by
      rw [hwhole, Nat.div_lt_iff_lt_mul (by positivity), ← Nat.pow_add]
      exact lt_of_lt_of_le hfloor (Nat.pow_le_pow_right two_pos (by omega))
    rw [div_lt_iff₀ (by positivity)]
    exact_mod_cast (Nat.div_lt_iff_lt_mul (by positivity)).mp hlt
  have hbig : (2 : ℚ) ^ 52 ≤ num / (2 ^ k * den : Nat) ∨ b = leastExponent := by
    by_cases hleast : b = leastExponent
    · exact .inr hleast
    have hle : 2 ^ 52 ≤ num / (2 ^ k * den) := by
      rw [hwhole, Nat.le_div_iff_mul_le (by positivity), ← Nat.pow_add]
      refine le_trans (Nat.pow_le_pow_right two_pos (by omega)) (hself fun h => ?_)
      rw [h, Nat.log2_zero] at hb
      omega
    refine .inl ?_
    rw [le_div_iff₀ (by positivity)]
    exact_mod_cast (Nat.le_div_iff_mul_le (by positivity)).mp hle
  rw [hunits] at hv
  rcases roundDiv_cases h (by positivity) (by omega) hbig hsmall hv with
    ⟨rfl, hround⟩ | ⟨rfl, hq, rfl, hround⟩
  · rw [hround, shiftToTargetExponent_exact h.lt h.least]
    simp [h.pos.ne']
  · rw [hround, shiftToTargetExponent_carry hq]
    simp

end TaskNetwork.Decimal
