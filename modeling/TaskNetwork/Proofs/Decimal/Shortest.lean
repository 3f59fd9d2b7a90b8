import TaskNetwork.Decimal.Shortest
import TaskNetwork.Proofs.Decimal.Rounding

/-! The shortest decimal of a float rounds to the float: a multiple of a power of ten is a hit just
if it does, and some grid is fine enough to have one. -/

namespace TaskNetwork.Decimal

variable {m : Nat} {q : Int}

theorem scale_pos (k e : Int) : 0 < (scale k e).1 ∧ 0 < (scale k e).2 :=
  ⟨Nat.mul_pos (Nat.pow_pos (by decide)) (Nat.two_pow_pos _),
    Nat.mul_pos (Nat.pow_pos (by decide)) (Nat.two_pow_pos _)⟩

theorem zpow_eq_div (b : ℚ) (hb : b ≠ 0) (k : Int) : b ^ k = b ^ k.toNat / b ^ (-k).toNat := by
  have hk : k = k.toNat - (-k).toNat := by omega
  conv_lhs => rw [hk, zpow_sub₀ hb, zpow_natCast, zpow_natCast]

theorem scale_div (k e : Int) : ((scale k e).1 : ℚ) / (scale k e).2 = 10 ^ k / 2 ^ e := by
  rw [zpow_eq_div 10 (by norm_num), zpow_eq_div 2 two_ne_zero, div_div_div_eq]
  show ((10 ^ k.toNat * 2 ^ (-e).toNat : Nat) : ℚ) / (10 ^ (-k).toNat * 2 ^ e.toNat : Nat) = _
  push_cast
  rfl

theorem lowerEnd_eq (hm : 0 < m) : lowerEnd m q = (roundingEnds m q).1 / 4 := by
  unfold lowerEnd roundingEnds
  split
  · rw [Nat.cast_sub (by omega)]
    push_cast
    ring
  · rw [Nat.cast_sub (by omega)]
    push_cast
    ring

theorem upperEnd_eq : (m : ℚ) + 1 / 2 = (roundingEnds m q).2 / 4 := by
  show _ = ((4 * m + 2 : Nat) : ℚ) / 4
  push_cast
  ring

/-- Whether a multiple of the grid lies in the rounding interval, in whole numbers. -/
theorem rounds_iff (hm : 0 < m) {k : Int} {grid unit low high : Nat}
    (hscale : scale k (q - 2) = (grid, unit)) (hends : roundingEnds m q = (low, high)) (c : Nat) :
    Rounds m q (c * 10 ^ k) ↔
      if m % 2 = 0 then low * unit ≤ c * grid ∧ c * grid ≤ high * unit
      else low * unit < c * grid ∧ c * grid < high * unit := by
  have hunit : 0 < unit := by
    have hpos := (scale_pos k (q - 2)).2
    rwa [hscale] at hpos
  have hpos : (0 : ℚ) < unit := by exact_mod_cast hunit
  have hvalue : (c : ℚ) * 10 ^ k / 2 ^ q = (c * grid : Nat) / unit / 4 := by
    have hratio := scale_div k (q - 2)
    rw [hscale] at hratio
    push_cast
    rw [mul_div_assoc (c : ℚ) grid, hratio, zpow_sub₀ two_ne_zero]
    norm_num
    ring
  have hle (a b : Nat) : (a : ℚ) / 4 ≤ (b : ℚ) / unit / 4 ↔ a * unit ≤ b := by
    rw [div_le_div_iff_of_pos_right (by norm_num), le_div_iff₀ hpos]
    exact_mod_cast Iff.rfl
  have hge (a b : Nat) : (b : ℚ) / unit / 4 ≤ (a : ℚ) / 4 ↔ b ≤ a * unit := by
    rw [div_le_div_iff_of_pos_right (by norm_num), div_le_iff₀ hpos]
    exact_mod_cast Iff.rfl
  have hlt (a b : Nat) : (a : ℚ) / 4 < (b : ℚ) / unit / 4 ↔ a * unit < b := by
    rw [← not_le, hge, not_le]
  have hgt (a b : Nat) : (b : ℚ) / unit / 4 < (a : ℚ) / 4 ↔ b < a * unit := by
    rw [← not_le, hle, not_le]
  unfold Rounds
  rw [lowerEnd_eq hm, @upperEnd_eq m q, hvalue, hends]
  simp only [hle, hge, hlt, hgt]

theorem rounds_of_onGrid? (hm : 0 < m) {tie : Tie} {k : Int} {c : Nat}
    (h : onGrid? tie m q k = some c) : Rounds m q (c * 10 ^ k) := by
  unfold onGrid? at h
  generalize hscale : scale k (q - 2) = gu at h
  generalize hends : roundingEnds m q = lh at h
  obtain ⟨grid, unit⟩ := gu
  obtain ⟨low, high⟩ := lh
  have hinside (c : Nat) : (if m % 2 = 0 then
      decide (low * unit ≤ c * grid) && decide (c * grid ≤ high * unit)
      else decide (low * unit < c * grid) && decide (c * grid < high * unit)) = true ↔
        Rounds m q (c * 10 ^ k) := by
    rw [rounds_iff hm hscale hends]
    split <;> simp
  dsimp only at h
  split at h
  · next hbelow habove =>
    rw [hinside] at hbelow habove
    split at h
    · cases h
      exact hbelow
    · split at h
      · cases h
        exact habove
      · split at h
        · cases h
          exact habove
        · cases h
          split
          · exact hbelow
          · exact habove
  · next hbelow _ =>
    cases h
    exact (hinside _).mp hbelow
  · next _ habove =>
    cases h
    exact (hinside _).mp habove
  · cases h

/-- A grid that is no coarser than a quarter of the unit has a hit. -/
theorem onGrid?_isSome (hm : 0 < m) (tie : Tie) {k : Int} (hfine : (10 : ℚ) ^ k ≤ 2 ^ (q - 2)) :
    (onGrid? tie m q k).isSome := by
  obtain ⟨hgrid, hunit⟩ := scale_pos k (q - 2)
  have hratio := scale_div k (q - 2)
  unfold onGrid?
  generalize scale k (q - 2) = gu at *
  obtain ⟨grid, unit⟩ := gu
  dsimp only at *
  have hle : grid ≤ unit := by
    have hone : (grid : ℚ) / unit ≤ 1 := by
      rw [hratio]
      exact div_le_one_of_le₀ hfine (by positivity)
    exact_mod_cast (div_le_one (by exact_mod_cast hunit)).mp hone
  have hnear : 4 * m * unit / grid * grid ≤ 4 * m * unit ∧
      4 * m * unit < 4 * m * unit / grid * grid + grid :=
    ⟨Nat.div_mul_le_self _ _, Nat.lt_div_mul_add hgrid⟩
  have hlow : (roundingEnds m q).1 + 1 ≤ 4 * m := by
    unfold roundingEnds
    split <;> omega
  have hlow' := Nat.mul_le_mul_right unit hlow
  have hhigh : 4 * m * unit < (roundingEnds m q).2 * unit :=
    Nat.mul_lt_mul_of_pos_right (Nat.lt_add_of_pos_right two_pos) hunit
  rw [Nat.add_mul] at hlow'
  generalize 4 * m * unit / grid = below at *
  have hinside : (if m % 2 = 0 then decide ((roundingEnds m q).1 * unit ≤ below * grid) &&
      decide (below * grid ≤ (roundingEnds m q).2 * unit)
      else decide ((roundingEnds m q).1 * unit < below * grid) &&
        decide (below * grid < (roundingEnds m q).2 * unit)) = true := by
    split
    · simp only [Bool.and_eq_true, decide_eq_true_eq]
      omega
    · simp only [Bool.and_eq_true, decide_eq_true_eq]
      omega
  rw [hinside]
  split
  · split
    · rfl
    · split
      · rfl
      · cases tie <;> rfl
  · rfl
  · next h _ => cases h
  · next h _ => cases h

theorem lt_width (n : Nat) : n < 10 ^ width n :=
  (Nat.length_toDigits_le_iff (by decide) Nat.length_toDigits_pos).mp (le_refl _)

theorem width_le {n : Nat} (hn : 0 < n) : 10 ^ (width n - 1) ≤ n := by
  by_cases hone : width n ≤ 1
  · rw [Nat.sub_eq_zero_of_le hone]
    exact hn
  · refine not_lt.mp fun h => ?_
    have hle : width n ≤ width n - 1 := (Nat.length_toDigits_le_iff (by decide) (by omega)).mpr h
    omega

/-- Seventeen digits suffice. -/
theorem fine_enough (h : IsFloat m q) : (10 : ℚ) ^ ((width (m * Nat.pow 2 q.toNat) : Int) -
    width (Nat.pow 2 (-q).toNat) + 1 - 19) ≤ 2 ^ (q - 2) := by
  have hnum := width_le (Nat.mul_pos h.pos (Nat.two_pow_pos q.toNat))
  have hwidth : 0 < width (m * Nat.pow 2 q.toNat) := Nat.length_toDigits_pos
  have hden := lt_width (Nat.pow 2 (-q).toNat)
  generalize hn : width (m * Nat.pow 2 q.toNat) = n at *
  generalize hd : width (Nat.pow 2 (-q).toNat) = d at *
  have hnum' : (10 : ℚ) ^ (n - 1) ≤ m * 2 ^ q.toNat := by exact_mod_cast hnum
  have hden' : (2 : ℚ) ^ (-q).toNat ≤ 10 ^ d := by exact_mod_cast hden.le
  have hm : (m : ℚ) ≤ 2 ^ 53 := by exact_mod_cast h.lt.le
  have hvalue : (10 : ℚ) ^ (n - 1) / 10 ^ d ≤ 2 ^ 53 * 2 ^ q := by
    rw [zpow_eq_div 2 two_ne_zero q, ← mul_div_assoc]
    refine div_le_div₀ (by positivity) (hnum'.trans ?_) (by positivity) hden'
    exact mul_le_mul_of_nonneg_right hm (by positivity)
  have hsplit : (10 : ℚ) ^ ((n : Int) - d + 1 - 19) = 10 ^ (n - 1) / 10 ^ d / 10 ^ 17 := by
    rw [show (n : Int) - d + 1 - 19 = (n - 1 : Nat) - d - 17 by omega,
      zpow_sub₀ (by norm_num), zpow_sub₀ (by norm_num), zpow_natCast, zpow_natCast]
    rfl
  have hquarter : (2 : ℚ) ^ (q - 2) = 2 ^ q / 4 := by
    rw [zpow_sub₀ two_ne_zero]
    norm_num
  have hpos : (0 : ℚ) < 2 ^ q := by positivity
  rw [hsplit, hquarter, div_le_iff₀ (by positivity)]
  refine hvalue.trans ?_
  linarith

/-- Of all decimals that round to a float one is found, and it is positive. -/
theorem shortest_rounds (tie : Tie) (h : IsFloat m q) :
    0 < (shortest tie m q).1 ∧ Rounds m q ((shortest tie m q).1 * 10 ^ (shortest tie m q).2) := by
  unfold shortest
  rw [if_neg h.pos.ne']
  have hfine := fine_enough h
  dsimp only
  generalize (width (m * Nat.pow 2 q.toNat) : Int) - width (Nat.pow 2 (-q).toNat) + 1 = top at *
  obtain ⟨⟨c, k⟩, hfound⟩ : ∃ r, (((List.range 20).map fun (i : Nat) => top - i).findSome?
      fun k => (onGrid? tie m q k).map fun c => (c, k)) = some r := by
    refine Option.isSome_iff_exists.mp (List.findSome?_isSome_iff.mpr ⟨top - 19, ?_, ?_⟩)
    · exact List.mem_map.mpr ⟨19, by simp, rfl⟩
    · rw [Option.isSome_map]
      exact onGrid?_isSome h.pos tie hfine
  rw [hfound, Option.getD_some]
  obtain ⟨i, -, hi⟩ := List.exists_of_findSome?_eq_some hfound
  obtain ⟨c', hc, hck⟩ := Option.map_eq_some_iff.mp hi
  cases hck
  have hrounds := rounds_of_onGrid? h.pos hc
  refine ⟨Nat.pos_of_ne_zero fun (hzero : c = 0) => ?_, hrounds⟩
  have hlow := hrounds.half_le
  have hm : (1 : ℚ) ≤ m := by exact_mod_cast h.pos
  rw [hzero, Nat.cast_zero, zero_mul, zero_div] at hlow
  linarith

end TaskNetwork.Decimal
