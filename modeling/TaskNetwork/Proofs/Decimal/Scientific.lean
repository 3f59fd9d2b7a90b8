import TaskNetwork.Proofs.Decimal.Rounding

/-! Floats of decimals. A decimal that rounds to a float is made into that float, by one operation
on floats where its digits and its power of ten are floats themselves, and otherwise from whole
numbers. -/

namespace TaskNetwork.Decimal

open Float.Model Float.Model.UnpackedFloat

variable {m : Nat} {q : Int}

theorem rounds_self (m : Nat) (q : Int) : Rounds m q (m * 2 ^ q) := by
  have hunits : (m : ℚ) * 2 ^ q / 2 ^ q = m := mul_div_cancel_right₀ _ (by positivity)
  have hend : lowerEnd m q < m := by
    unfold lowerEnd
    split <;> linarith
  unfold Rounds
  rw [hunits]
  split
  · exact ⟨hend.le, by linarith⟩
  · exact ⟨hend, by linarith⟩

/-- A whole number with bits enough. -/
theorem roundWithAccuracy_exact (n : Nat) (e : Int) (s : Sign) (h : IsFloat m q)
    (hv : Rounds m q (n * 2 ^ e)) (hbits : 2 ^ 52 ≤ n ∨ e ≤ leastExponent) :
    roundWithAccuracy .binary64 s n e .exact = .finite s m q h.pos := by
  have hround := roundWithAccuracy_eq n one_pos e s h (by simpa using hv) (by simpa using hbits)
  rwa [Nat.div_one, Nat.mod_one] at hround

theorem shiftLeft_le {n k : Nat} (hn : 0 < n) (hk : 52 ≤ n.log2 + k) : 2 ^ 52 ≤ n <<< k := by
  rw [Nat.shiftLeft_eq]
  calc 2 ^ 52 ≤ 2 ^ (n.log2 + k) := Nat.pow_le_pow_right two_pos hk
    _ = 2 ^ n.log2 * 2 ^ k := Nat.pow_add ..
    _ ≤ n * 2 ^ k := Nat.mul_le_mul_right _ (Nat.log2_self_le hn.ne')

theorem shiftLeft_mul_zpow (n k : Nat) (e : Int) :
    ((n <<< k : Nat) : ℚ) * 2 ^ (e - k) = n * 2 ^ e := by
  rw [Nat.shiftLeft_eq, zpow_sub₀ two_ne_zero, zpow_natCast]
  push_cast
  field_simp

theorem round_eq {n : Nat} (hn : 0 < n) (e : Int) (s : Sign) (h : IsFloat m q)
    (hv : Rounds m q (n * 2 ^ e)) : UnpackedFloat.round .binary64 s n e = .finite s m q h.pos := by
  rw [UnpackedFloat.round, targetExponent_binary64, decreaseExponent]
  dsimp only
  generalize hk : (e - max (n.log2 + e - 52) leastExponent).toNat = k
  refine roundWithAccuracy_exact _ _ s h ?_ ?_
  · rwa [shiftLeft_mul_zpow]
  · by_cases hleast : e - k ≤ leastExponent
    · exact .inr hleast
    · exact .inl (shiftLeft_le hn (by omega))

theorem mul_eq {n₁ n₂ : Nat} {e₁ e₂ : Int} (h₁ : 0 < n₁) (h₂ : 0 < n₂) (s₁ s₂ : Sign)
    (h : IsFloat m q) (hv : Rounds m q (n₁ * 2 ^ e₁ * (n₂ * 2 ^ e₂)))
    (hbits : 2 ^ 52 ≤ n₁ * n₂) :
    mul .binary64 (.finite s₁ n₁ e₁ h₁) (.finite s₂ n₂ e₂ h₂) =
      .finite (s₁ * s₂) m q h.pos := by
  refine roundWithAccuracy_exact _ _ _ h ?_ (.inl hbits)
  have hvalue : ((n₁ * n₂ : Nat) : ℚ) * 2 ^ (e₁ + e₂) = n₁ * 2 ^ e₁ * (n₂ * 2 ^ e₂) := by
    rw [zpow_add₀ two_ne_zero]
    push_cast
    ring
  rwa [hvalue]

theorem div_eq {n₁ n₂ : Nat} {e₁ e₂ : Int} (h₁ : 0 < n₁) (h₂ : 0 < n₂) (s₁ s₂ : Sign)
    (h : IsFloat m q) (hv : Rounds m q (n₁ * 2 ^ e₁ / (n₂ * 2 ^ e₂))) :
    div .binary64 (.finite s₁ n₁ e₁ h₁) (.finite s₂ n₂ e₂ h₂) =
      .finite (s₁ / s₂) m q h.pos := by
  rw [UnpackedFloat.div, divCore]
  dsimp only
  have htarget : Format.binary64.targetExponent (totalExponent n₁ e₁ - totalExponent n₂ e₂) =
      max (n₁.log2 + e₁ - (n₂.log2 + e₂) - 53) leastExponent := by
    simp only [Format.targetExponent, totalExponent, Format.mantissaBits, Format.minExponent,
      leastExponent]
    norm_num
    omega
  rw [htarget]
  generalize ht : min (e₁ - e₂) (max (n₁.log2 + e₁ - (n₂.log2 + e₂) - 53) leastExponent) = t
  obtain ⟨k, hk⟩ : ∃ k : Nat, t = e₁ - e₂ - k := ⟨(e₁ - e₂ - t).toNat, by omega⟩
  have hshift : (e₁ - e₂ - t).toNat = k := by omega
  rw [hshift]
  refine roundWithAccuracy_eq _ h₂ t _ h ?_ ?_
  · have hvalue : ((n₁ <<< k : Nat) : ℚ) / n₂ * 2 ^ t = n₁ * 2 ^ e₁ / (n₂ * 2 ^ e₂) := by
      have hscaled := shiftLeft_mul_zpow n₁ k (e₁ - e₂)
      rw [← hk] at hscaled
      rw [div_mul_eq_mul_div, hscaled, zpow_sub₀ two_ne_zero]
      field_simp
    rwa [hvalue]
  · by_cases hleast : t ≤ leastExponent
    · exact .inr hleast
    refine .inl ?_
    rw [Nat.le_div_iff_mul_le h₂, Nat.shiftLeft_eq]
    have hlog : 52 + (n₂.log2 + 1) ≤ n₁.log2 + k := by omega
    calc 2 ^ 52 * n₂ ≤ 2 ^ 52 * 2 ^ (n₂.log2 + 1) := Nat.mul_le_mul_left _ Nat.lt_log2_self.le
      _ = 2 ^ (52 + (n₂.log2 + 1)) := (Nat.pow_add ..).symm
      _ ≤ 2 ^ (n₁.log2 + k) := Nat.pow_le_pow_right two_pos hlog
      _ = 2 ^ n₁.log2 * 2 ^ k := Nat.pow_add ..
      _ ≤ n₁ * 2 ^ k := Nat.mul_le_mul_right _ (Nat.log2_self_le h₁.ne')

section Scientific

variable {n : Nat}

theorem isFloat_shiftLeft (hn : 0 < n) (hlt : n < 2 ^ 53) :
    IsFloat (n <<< (52 - n.log2)) (n.log2 - 52) := by
  have hlog : n.log2 < 53 := (Nat.log2_lt hn.ne').mpr hlt
  have hfull : 2 ^ 52 ≤ n <<< (52 - n.log2) := shiftLeft_le hn (by omega)
  have hleast : leastExponent = -1074 := rfl
  refine ⟨lt_of_lt_of_le (by norm_num) hfull, ?_, by omega, by omega, .inl hfull⟩
  rw [Nat.shiftLeft_eq]
  calc n * 2 ^ (52 - n.log2) < 2 ^ (n.log2 + 1) * 2 ^ (52 - n.log2) :=
        Nat.mul_lt_mul_of_pos_right Nat.lt_log2_self (Nat.two_pow_pos _)
    _ = 2 ^ (n.log2 + 1 + (52 - n.log2)) := (Nat.pow_add ..).symm
    _ = 2 ^ 53 := by rw [show n.log2 + 1 + (52 - n.log2) = 53 by omega]

theorem shiftLeft_value (hlt : n.log2 ≤ 52) :
    ((n <<< (52 - n.log2) : Nat) : ℚ) * 2 ^ ((n.log2 : Int) - 52) = n := by
  have hexponent : (n.log2 : Int) - 52 = 0 - (52 - n.log2 : Nat) := by omega
  rw [hexponent, shiftLeft_mul_zpow, zpow_zero, mul_one]

theorem unpack_ofNat (hn : 0 < n) (hlt : n < 2 ^ 53) : n.toUInt64.toFloat.toModel.unpack =
    .finite .positive (n <<< (52 - n.log2)) (n.log2 - 52) (isFloat_shiftLeft hn hlt).pos := by
  have hfloat := isFloat_shiftLeft hn hlt
  have hlog : n.log2 < 53 := (Nat.log2_lt hn.ne').mpr hlt
  have hnat : n.toUInt64.toNat = n := Nat.mod_eq_of_lt (by omega)
  have hv : Rounds (n <<< (52 - n.log2)) (n.log2 - 52) (n * 2 ^ (0 : Int)) := by
    rw [zpow_zero, mul_one, ← shiftLeft_value (by omega : n.log2 ≤ 52)]
    exact rounds_self _ _
  have hround : UnpackedFloat.ofUInt64 .binary64 n.toUInt64 =
      .finite .positive (n <<< (52 - n.log2)) (n.log2 - 52) hfloat.pos := by
    rw [UnpackedFloat.ofUInt64, hnat, UnpackedFloat.ofNat, UnpackedFloat.ofInt,
      UnpackedFloat.normalize]
    rw [Int.compare_eq_gt.mpr (by omega)]
    exact round_eq hn 0 .positive hfloat hv
  show (Float.Model.pack (UnpackedFloat.ofUInt64 .binary64 n.toUInt64)).unpack = _
  rw [hround, unpack_pack hfloat]

/-- Whether a float stands for the whole number `n`, with as many bits as a float has. -/
def isWhole (x : Float) (n : Nat) : Bool :=
  match Exact.ofFloat x with
  | .finite false p k => 2 ^ 52 ≤ p && p * 2 ^ k.toNat == n * 2 ^ (-k).toNat
  | _ => false

theorem isWhole_power (e : Fin 23) :
    isWhole Float.exactlyRepresentablePowersOfTen[e] (10 ^ e.val) = true := by
  decide +revert +kernel

theorem unpack_of_isWhole {x : Float} (h : isWhole x n) : ∃ p k hp,
    x.toModel.unpack = .finite .positive p k hp ∧ 2 ^ 52 ≤ p ∧ (p : ℚ) * 2 ^ k = n := by
  unfold isWhole at h
  split at h
  · next p k hexact =>
    simp only [Bool.and_eq_true, decide_eq_true_eq, beq_iff_eq] at h
    obtain ⟨hfull, hvalue⟩ := h
    have hfloat : IsFloat p k := isFloat_of_ofFloat hexact (by omega)
    have hunpack := unpack_pack hfloat .positive
    have hpack := eq_pack_of_ofFloat hexact hfloat
    refine ⟨p, k, hfloat.pos, by rw [hpack]; exact hunpack, hfull, ?_⟩
    have hvalue' : (p : ℚ) * 2 ^ k.toNat = n * 2 ^ (-k).toNat := by exact_mod_cast hvalue
    have hk : k = k.toNat - (-k).toNat := by omega
    rw [hk, zpow_sub₀ two_ne_zero, zpow_natCast, zpow_natCast, ← mul_div_assoc, hvalue']
    exact mul_div_cancel_right₀ _ (by positivity)
  · exact absurd h (by decide)

theorem ten_zpow_of_neg {k : Int} (hk : k < 0) : (10 : ℚ) ^ k = (10 ^ k.natAbs)⁻¹ := by
  rw [← zpow_natCast, ← zpow_neg]
  congr 1
  omega

theorem ten_zpow_of_nonneg {k : Int} (hk : 0 ≤ k) : (10 : ℚ) ^ k = 10 ^ k.natAbs := by
  rw [← zpow_natCast]
  congr 1
  omega

/-- Both parts of a small decimal are floats, so one operation on floats makes it. -/
theorem ofScientific_small (hn : 0 < n) (hlt : n < 2 ^ 53) {k : Int} (hk : k.natAbs ≤ 22)
    (h : IsFloat m q) (hv : Rounds m q (n * 10 ^ k)) :
    Float.ofScientific n (k < 0) k.natAbs = .ofModel (.pack (.finite .positive m q h.pos)) := by
  have hunpack := unpack_ofNat hn hlt
  have hlog : n.log2 < 53 := (Nat.log2_lt hn.ne').mpr hlt
  obtain ⟨p, e, hp, hpower, hfull, hvalue⟩ := unpack_of_isWhole (isWhole_power ⟨k.natAbs, by omega⟩)
  push_cast at hvalue
  rw [Float.ofScientific, dif_pos ⟨hlt, hk⟩]
  have hfirst := shiftLeft_value (by omega : n.log2 ≤ 52)
  by_cases hneg : k < 0
  · rw [if_pos (by simpa using hneg)]
    refine congrArg (fun u => Float.ofModel (.pack u)) ?_
    rw [hunpack]
    refine (congrArg _ hpower).trans (div_eq _ hp .positive .positive h ?_)
    rwa [hfirst, hvalue, div_eq_mul_inv, ← ten_zpow_of_neg hneg]
  · rw [if_neg (by simpa using hneg)]
    refine congrArg (fun u => Float.ofModel (.pack u)) ?_
    rw [hunpack]
    refine (congrArg _ hpower).trans (mul_eq _ hp .positive .positive h ?_ ?_)
    · rwa [hfirst, hvalue, ← ten_zpow_of_nonneg (not_lt.mp hneg)]
    · exact le_trans (shiftLeft_le hn (by omega)) (Nat.le_mul_of_pos_right _ hp)

/-- Other decimals are made from whole numbers. Those between the bounds have floats near them. -/
theorem ofScientific_large (hn : 0 < n) {k : Int} (hlow : -(2048 + n.log2 : Int) ≤ k)
    (hhigh : k ≤ 2048) (h : IsFloat m q) (hv : Rounds m q (n * 10 ^ k)) :
    UnpackedFloat.ofScientific .binary64 n k = .finite .positive m q h.pos := by
  rw [UnpackedFloat.ofScientific, dif_neg hn.ne', if_neg (show ¬k > 2 ^ 11 by omega),
    if_neg (show ¬k < -((2 ^ 11 : Int) + n.log2) by omega)]
  by_cases hneg : k < 0
  · rw [if_neg (by omega)]
    refine div_eq hn _ .positive .positive h ?_
    have habs : (-k).toNat = k.natAbs := by omega
    rw [ten_zpow_of_neg hneg] at hv
    rw [habs]
    push_cast
    rwa [mul_one, mul_one, div_eq_mul_inv]
  · rw [if_pos (by omega)]
    refine mul_eq _ _ .positive .positive h ?_ ?_
    · have habs : k.toNat = k.natAbs := by omega
      have hshifted := shiftLeft_mul_zpow n 53 0
      rw [zero_sub, zpow_zero, mul_one] at hshifted
      rw [ten_zpow_of_nonneg (not_lt.mp hneg)] at hv
      rw [habs]
      push_cast
      show Rounds m q (((n <<< 53 : Nat) : ℚ) * 2 ^ (-(53 : Nat) : Int) * _)
      rwa [hshifted, mul_one]
    · refine le_trans (shiftLeft_le hn (by show 52 ≤ n.log2 + 53; omega)) ?_
      exact Nat.le_mul_of_pos_right _ (by positivity)

theorem ofScientific_eq (hn : 0 < n) {k : Int} (hlow : -(2048 + n.log2 : Int) ≤ k)
    (hhigh : k ≤ 2048) (h : IsFloat m q) (hv : Rounds m q (n * 10 ^ k)) :
    Float.ofScientific n (k < 0) k.natAbs = .ofModel (.pack (.finite .positive m q h.pos)) := by
  by_cases hsmall : n < 2 ^ 53 ∧ k.natAbs ≤ 22
  · exact ofScientific_small hn hsmall.1 hsmall.2 h hv
  · have hexponent : (if k < 0 then Int.negOfNat k.natAbs else Int.ofNat k.natAbs) = k := by
      split
      · rw [Int.negOfNat_eq, Int.ofNat_eq_natCast]
        omega
      · exact Int.natAbs_of_nonneg (by omega)
    rw [Float.ofScientific, dif_neg hsmall]
    simp only [decide_eq_true_eq]
    rw [hexponent, Float.Model.ofScientific, ofScientific_large hn hlow hhigh h hv]

end Scientific

section NotANumber

theorem roundWithAccuracy_ne_notANumber (s : Sign) (n : Nat) (e : Int) (a : Accuracy) :
    roundWithAccuracy .binary64 s n e a ≠ .notANumber := by
  unfold roundWithAccuracy
  dsimp only
  split <;> exact UnpackedFloat.noConfusion

theorem mul_ne_notANumber {u : UnpackedFloat} (hu : u ≠ .notANumber) (s : Sign) (n : Nat) (e : Int)
    (hn : 0 < n) : UnpackedFloat.mul .binary64 u (.finite s n e hn) ≠ .notANumber := by
  cases u with
  | notANumber => exact absurd rfl hu
  | finite => exact roundWithAccuracy_ne_notANumber _ _ _ _
  | _ => exact UnpackedFloat.noConfusion

theorem div_ne_notANumber {u : UnpackedFloat} (hu : u ≠ .notANumber) (s : Sign) (n : Nat) (e : Int)
    (hn : 0 < n) : UnpackedFloat.div .binary64 u (.finite s n e hn) ≠ .notANumber := by
  cases u with
  | notANumber => exact absurd rfl hu
  | finite => exact roundWithAccuracy_ne_notANumber _ _ _ _
  | _ => exact UnpackedFloat.noConfusion

theorem scientific_ne_notANumber (n : Nat) (k : Int) :
    UnpackedFloat.ofScientific .binary64 n k ≠ .notANumber := by
  unfold UnpackedFloat.ofScientific
  split
  · exact UnpackedFloat.noConfusion
  · split
    · exact UnpackedFloat.noConfusion
    · split
      · exact UnpackedFloat.noConfusion
      · split
        · exact mul_ne_notANumber UnpackedFloat.noConfusion _ _ _ _
        · exact div_ne_notANumber UnpackedFloat.noConfusion _ _ _ _

theorem ofNat_ne_notANumber (n : Nat) : n.toUInt64.toFloat.toModel.unpack ≠ .notANumber := by
  refine unpack_pack_ne_notANumber ?_
  unfold UnpackedFloat.ofUInt64 UnpackedFloat.ofNat UnpackedFloat.ofInt UnpackedFloat.normalize
  split
  · exact roundWithAccuracy_ne_notANumber _ _ _ _
  · exact UnpackedFloat.noConfusion
  · exact roundWithAccuracy_ne_notANumber _ _ _ _

theorem ofScientific_ne_notANumber (n : Nat) (negative : Bool) (k : Nat) :
    (Float.ofScientific n negative k).toModel.unpack ≠ .notANumber := by
  unfold Float.ofScientific
  split
  · next hsmall =>
    obtain ⟨p, e, hp, hpower, -⟩ :=
      unpack_of_isWhole (isWhole_power ⟨k, Nat.lt_succ_of_le hsmall.2⟩)
    dsimp only
    split
    · exact unpack_pack_ne_notANumber fun h => div_ne_notANumber (ofNat_ne_notANumber n) .positive
        p e hp ((congrArg _ hpower).symm.trans h)
    · exact unpack_pack_ne_notANumber fun h => mul_ne_notANumber (ofNat_ne_notANumber n) .positive
        p e hp ((congrArg _ hpower).symm.trans h)
  · exact unpack_pack_ne_notANumber (scientific_ne_notANumber _ _)

end NotANumber

end TaskNetwork.Decimal
