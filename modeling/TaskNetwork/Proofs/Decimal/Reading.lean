import TaskNetwork.Decimal.Layout
import TaskNetwork.Decimal.Read
import TaskNetwork.Proofs.Decimal.Scientific
import TaskNetwork.Proofs.Decimal.Shortest

/-! Written numbers read back: the digits that a layout writes are those of a decimal that rounds to
the float, and reading makes the float of them. What is read is always a number. -/

namespace TaskNetwork.Decimal

open Float.Model Float.Model.UnpackedFloat

section Digits

theorem ofDigits_append (ds es : List Char) :
    ofDigits (ds ++ es) = 10 ^ es.length * ofDigits ds + ofDigits es := by
  show Nat.ofDigitChars 10 (ds ++ es) 0 = _
  rw [Nat.ofDigitChars_append, Nat.ofDigitChars_eq_ofDigitChars_zero]
  rfl

theorem ofDigits_cons (c : Char) (cs : List Char) :
    ofDigits (c :: cs) = 10 ^ cs.length * (c.toNat - '0'.toNat) + ofDigits cs := by
  rw [← List.singleton_append, ofDigits_append]
  congr 2
  exact Nat.zero_add _

theorem ofDigits_replicate (n : Nat) : ofDigits (List.replicate n '0') = 0 :=
  Nat.ofDigitChars_replicate_zero

theorem ofDigits_toDigits (n : Nat) : ofDigits (Nat.toDigits 10 n) = n :=
  Nat.ofDigitChars_ten_toDigits

theorem ofDigits_dropWhile (ds : List Char) : ofDigits (ds.dropWhile (· = '0')) = ofDigits ds := by
  induction ds with
  | nil => rfl
  | cons c cs ih =>
    by_cases hc : c = '0'
    · rw [List.dropWhile_cons_of_pos (by simpa using hc), ih, ofDigits_cons, hc]
      simp
    · rw [List.dropWhile_cons_of_neg (by simpa using hc)]

theorem ofDigits_lt {ds : List Char} (h : ∀ c ∈ ds, c.isDigit) : ofDigits ds < 10 ^ ds.length := by
  induction ds with
  | nil => exact Nat.one_pos
  | cons c cs ih =>
    have hdigit := (Char.isDigit_iff_toNat.mp (h c List.mem_cons_self)).2
    have hc : c.toNat - '0'.toNat ≤ 9 := by
      simp only [Char.reduceToNat] at hdigit ⊢
      omega
    have hcs := ih fun c hc => h c (List.mem_cons_of_mem _ hc)
    have hfirst := Nat.mul_le_mul_left (10 ^ cs.length) hc
    rw [ofDigits_cons, List.length_cons, Nat.pow_succ]
    omega

/-- The first of the significant digits is not zero, so all of them count. -/
theorem le_ofDigits {ds : List Char} (h : ∀ c ∈ ds, c.isDigit) {c : Char} {cs : List Char}
    (hcs : ds.dropWhile (· = '0') = c :: cs) : 10 ^ cs.length ≤ ofDigits ds := by
  have hmem : c ∈ ds := List.dropWhile_subset (fun c => decide (c = '0'))
    (hcs ▸ List.mem_cons_self)
  have hdigit := (Char.isDigit_iff_toNat.mp (h c hmem)).1
  have hfirst := List.head?_dropWhile_not (fun c => decide (c = '0')) ds
  rw [hcs] at hfirst
  have hone : 1 ≤ c.toNat - '0'.toNat := by
    have hne : c.toNat ≠ '0'.toNat := fun h => by simp [Char.toNat_inj.mp h] at hfirst
    omega
  have hle := Nat.mul_le_mul_left (10 ^ cs.length) hone
  rw [← ofDigits_dropWhile, hcs, ofDigits_cons]
  omega

end Digits

variable {m : Nat} {q : Int}

namespace Rounds

variable {v : ℚ}

theorem lt (h : IsFloat m q) (hv : Rounds m q v) : v < 2 ^ 1024 := by
  have hpos : (0 : ℚ) < 2 ^ q := by positivity
  have hm : (m : ℚ) + 1 ≤ 2 ^ 53 := by exact_mod_cast h.lt
  have hscale : (2 : ℚ) ^ q ≤ 2 ^ (971 : Int) := zpow_le_zpow_right₀ one_le_two h.greatest
  have hhigh := hv.le_half
  rw [div_le_iff₀ hpos] at hhigh
  calc v ≤ (m + 1 / 2) * 2 ^ q := hhigh
    _ < 2 ^ 53 * 2 ^ q := mul_lt_mul_of_pos_right (by linarith) hpos
    _ ≤ 2 ^ 53 * 2 ^ (971 : Int) := mul_le_mul_of_nonneg_left hscale (by norm_num)
    _ = 2 ^ 1024 := by rw [zpow_ofNat, ← pow_add]

theorem gt (h : IsFloat m q) (hv : Rounds m q v) : (2 ^ 1075)⁻¹ ≤ v := by
  have hpos : (0 : ℚ) < 2 ^ q := by positivity
  have hm : (1 : ℚ) ≤ m := by exact_mod_cast h.pos
  have hscale : (2 : ℚ) ^ (-1074 : Int) ≤ 2 ^ q := zpow_le_zpow_right₀ one_le_two h.least
  have hlow := hv.half_le
  rw [le_div_iff₀ hpos] at hlow
  calc ((2 : ℚ) ^ 1075)⁻¹ = 1 / 2 * 2 ^ (-1074 : Int) := by
        rw [zpow_neg, zpow_ofNat, pow_succ, mul_inv, mul_comm]
        norm_num
    _ ≤ 1 / 2 * 2 ^ q := mul_le_mul_of_nonneg_left hscale (by norm_num)
    _ ≤ (m - 1 / 2) * 2 ^ q := mul_le_mul_of_nonneg_right (by linarith) hpos.le
    _ ≤ v := hlow

end Rounds

theorem two_pow_le {n k : Nat} (hk : k ≤ 3 * n) : (2 : ℚ) ^ k ≤ 10 ^ n := calc
  (2 : ℚ) ^ k ≤ 2 ^ (3 * n) := pow_le_pow_right₀ one_le_two hk
  _ = 8 ^ n := by rw [pow_mul]; norm_num
  _ ≤ 10 ^ n := pow_le_pow_left₀ (by norm_num) (by norm_num) n

/-- Digits read as the float that their number rounds to. -/
theorem nearest_eq {ds : List Char} (hds : ∀ c ∈ ds, c.isDigit) {k : Int} (h : IsFloat m q)
    (hv : Rounds m q (ofDigits ds * 10 ^ k)) :
    nearest ds k = .ofModel (.pack (.finite .positive m q h.pos)) := by
  have hlt := hv.lt h
  have hgt := hv.gt h
  have hlow {c : Char} {cs : List Char} := @le_ofDigits ds hds c cs
  have hdigits : ∀ c ∈ ds.dropWhile (· = '0'), c.isDigit := fun c hc =>
    hds c (List.dropWhile_subset _ hc)
  unfold nearest
  rw [← ofDigits_dropWhile] at hv hlt hgt hlow
  generalize ds.dropWhile (· = '0') = significant at *
  cases significant with
  | nil =>
    rw [show ofDigits [] = 0 from rfl, Nat.cast_zero, zero_mul] at hgt
    exact absurd hgt (not_le.mpr (by positivity))
  | cons c cs =>
    have hlow := hlow rfl
    have hhigh := ofDigits_lt hdigits
    dsimp only
    rw [List.length_cons] at hhigh ⊢
    generalize ofDigits (c :: cs) = n at *
    generalize cs.length = l at *
    have hn : 0 < n := lt_of_lt_of_le (Nat.pow_pos (by decide)) hlow
    have hten : (0 : ℚ) < 10 ^ k := by positivity
    have hupper : ((l + 1 : Nat) : Int) + k ≤ 400 := by
      by_contra hfar
      have hbig : (10 : ℚ) ^ 400 ≤ n * 10 ^ k := calc
        (10 : ℚ) ^ 400 ≤ 10 ^ ((l : Int) + k) := by
          rw [← zpow_natCast]
          exact zpow_le_zpow_right₀ (by norm_num) (by omega)
        _ = 10 ^ l * 10 ^ k := by rw [zpow_add₀ (by norm_num), zpow_natCast]
        _ ≤ n * 10 ^ k := mul_le_mul_of_nonneg_right (by exact_mod_cast hlow) hten.le
      have hpower := @two_pow_le 400 1024 (by norm_num)
      exact absurd (hbig.trans_lt hlt) (not_lt.mpr hpower)
    have hlower : -400 ≤ ((l + 1 : Nat) : Int) + k := by
      by_contra hfar
      have hsmall : n * (10 : ℚ) ^ k < (10 ^ 401)⁻¹ := calc
        n * (10 : ℚ) ^ k < 10 ^ (l + 1) * 10 ^ k :=
          mul_lt_mul_of_pos_right (by exact_mod_cast hhigh) hten
        _ = 10 ^ (((l + 1 : Nat) : Int) + k) := by rw [zpow_add₀ (by norm_num), zpow_natCast]
        _ ≤ 10 ^ (-401 : Int) := zpow_le_zpow_right₀ (by norm_num) (by omega)
        _ = (10 ^ 401)⁻¹ := by rw [zpow_neg, zpow_ofNat]
      have hpower := inv_anti₀ (by positivity) (@two_pow_le 401 1075 (by norm_num))
      exact absurd (hgt.trans_lt hsmall) (not_lt.mpr hpower)
    have hlog : l ≤ n.log2 :=
      (Nat.le_log2 hn.ne').mpr (le_trans (Nat.pow_le_pow_left (by decide) l) hlow)
    rw [if_neg (by simp), if_neg (by omega), if_neg (by omega)]
    exact ofScientific_eq hn (by omega) (by omega) h hv

theorem nearest_zero {ds : List Char} (hds : ∀ c ∈ ds, c.isDigit) (hzero : ofDigits ds = 0)
    (k : Int) : nearest ds k = 0.0 := by
  unfold nearest
  cases hcs : ds.dropWhile (· = '0') with
  | nil => rfl
  | cons c cs =>
    have hlow := le_ofDigits hds hcs
    have hpos : 0 < 10 ^ cs.length := Nat.pow_pos (by decide)
    omega

/-- The digits of a written number, before and after its point, and the decimal that they make. -/
structure Parts (cs : List Char) (n : Nat) (k : Int) (whole fraction : List Char) : Prop where
  text : cs = whole ++ if fraction.isEmpty then [] else '.' :: fraction
  started : whole ≠ []
  digits : ∀ c ∈ whole ++ fraction, c.isDigit
  value : (ofDigits (whole ++ fraction) : ℚ) * 10 ^ (-fraction.length : Int) = n * 10 ^ k

theorem pointAt_parts (n : Nat) (k : Int) : ∃ whole fraction, Parts
    (pointAt false (Nat.toDigits 10 n) ((Nat.toDigits 10 n).length + k)) n k whole fraction := by
  have hvalue := ofDigits_toDigits n
  have hpos : 0 < (Nat.toDigits 10 n).length := Nat.length_toDigits_pos
  have hdigits : ∀ c ∈ Nat.toDigits 10 n, c.isDigit := fun c hc =>
    Nat.isDigit_of_mem_toDigits (by decide) (by decide) hc
  generalize Nat.toDigits 10 n = ds at *
  generalize hpoint : (ds.length : Int) + k = point
  have hk : k = point - ds.length := by omega
  unfold pointAt
  split
  · next hlow =>
    have hsome : (List.replicate (-point).toNat '0' ++ ds).isEmpty = false := by
      rw [List.isEmpty_eq_false_iff, ← List.length_pos_iff, List.length_append]
      omega
    refine ⟨['0'], List.replicate (-point).toNat '0' ++ ds, ?_, by simp, ?_, ?_⟩
    · rw [hsome]
      rfl
    · intro c hc
      simp only [List.mem_append, List.mem_singleton, List.mem_replicate] at hc
      obtain rfl | ⟨-, rfl⟩ | hc := hc
      · rfl
      · rfl
      · exact hdigits c hc
    · have hexponent : -((List.replicate (-point).toNat '0' ++ ds).length : Int) = k := by
        rw [List.length_append, List.length_replicate]
        omega
      rw [hexponent, ofDigits_append, ofDigits_append, ofDigits_replicate, hvalue]
      simp [show ofDigits ['0'] = 0 from rfl]
  · next hhigh =>
    dsimp only
    split
    · next hlong =>
      refine ⟨ds ++ List.replicate (point.toNat - ds.length) '0', [], ?_, ?_, ?_, ?_⟩
      · simp
      · rw [← List.length_pos_iff, List.length_append]
        omega
      · intro c hc
        simp only [List.append_nil, List.mem_append, List.mem_replicate] at hc
        obtain hc | ⟨-, rfl⟩ := hc
        · exact hdigits c hc
        · rfl
      · have hexponent : k = (point.toNat - ds.length : Nat) := by omega
        rw [List.append_nil, ofDigits_append, ofDigits_replicate, hvalue, hexponent,
          List.length_replicate]
        push_cast
        rw [List.length_nil, Nat.cast_zero, neg_zero, zpow_zero, zpow_natCast]
        ring
    · next hshort =>
      have hsome : (ds.drop point.toNat).isEmpty = false := by
        rw [List.isEmpty_eq_false_iff, ← List.length_pos_iff, List.length_drop]
        omega
      refine ⟨ds.take point.toNat, ds.drop point.toNat, ?_, ?_, ?_, ?_⟩
      · rw [hsome]
        rfl
      · rw [← List.length_pos_iff, List.length_take]
        omega
      · rw [List.take_append_drop]
        exact hdigits
      · have hexponent : -((ds.drop point.toNat).length : Int) = k := by
          rw [List.length_drop]
          omega
        rw [List.take_append_drop, hexponent, hvalue]

/-- Reading the shortest decimal of a float gives the float back. -/
theorem ofParts_shortest {x : Float} {negative : Bool} (tie : Tie)
    (hx : Exact.ofFloat x = .finite negative m q) (hm : 0 < m) {cs whole fraction : List Char}
    (h : Parts cs (shortest tie m q).1 (shortest tie m q).2 whole fraction) :
    ofParts negative whole fraction 0 = x := by
  have hfloat := isFloat_of_ofFloat hx hm
  have hv := (shortest_rounds tie hfloat).2
  rw [← h.value, ← zero_sub] at hv
  rw [ofParts, nearest_eq h.digits hfloat hv, eq_pack_of_ofFloat hx hfloat]
  cases negative with
  | false => rfl
  | true => exact neg_pack hfloat

/-- What is read where a float was written: zero has no sign. -/
def unsignedZero (x : Float) : Float :=
  match Exact.ofFloat x with
  | .finite _ m _ => if m = 0 then 0.0 else x
  | _ => x

/-- A layout without exponents that keeps no point in whole numbers and no sign of zero writes a
number by its parts, and reading them gives the number back. -/
theorem write_parts {x : Float} {negative : Bool} (layout : Layout)
    (hpointed : layout.pointed = false) (hpositional : layout.positional = none)
    (hzero : layout.signedZero = false) (hx : Exact.ofFloat x = .finite negative m q) :
    ∃ whole fraction n k,
      Parts (layout.digits m q) n k whole fraction ∧
      (layout.write x).toList = (if negative && m ≠ 0 then ['-'] else []) ++ layout.digits m q ∧
      ofParts (negative && m ≠ 0) whole fraction 0 = unsignedZero x := by
  obtain ⟨whole, fraction, hparts⟩ :=
    pointAt_parts (shortest layout.tie m q).1 (shortest layout.tie m q).2
  have hdigits : layout.digits m q = pointAt false (Nat.toDigits 10 (shortest layout.tie m q).1)
      ((Nat.toDigits 10 (shortest layout.tie m q).1).length + (shortest layout.tie m q).2) := by
    unfold Layout.digits
    rw [hpositional, hpointed]
    simp
  rw [← hdigits] at hparts
  refine ⟨whole, fraction, _, _, hparts, ?_, ?_⟩
  · rw [Layout.write, hx]
    simp [hzero]
  · rcases Nat.eq_zero_or_pos m with rfl | hm
    · have hnone : ofDigits (whole ++ fraction) = 0 := by
        have hvalue := hparts.value
        rw [show shortest layout.tie 0 q = (0, 0) from rfl] at hvalue
        simpa using hvalue
      rw [unsignedZero, hx, ofParts, nearest_zero hparts.digits hnone]
      simp
    · have hsign : (negative && decide (m ≠ 0)) = negative := by simp [hm.ne']
      rw [unsignedZero, hx, hsign, ofParts_shortest layout.tie hx hm hparts]
      simp [hm.ne']

theorem ofFloat_zero : Exact.ofFloat 0.0 = .finite false 0 leastExponent := by decide +kernel

theorem unsignedZero_beq {x : Float} {negative : Bool}
    (hx : Exact.ofFloat x = .finite negative m q) : (unsignedZero x == x) = true := by
  rw [unsignedZero, hx]
  dsimp only
  split
  · next hm =>
    subst hm
    exact beq_zero ofFloat_zero hx
  · exact beq_self hx

theorem nearest_ne_notANumber (ds : List Char) (k : Int) :
    (nearest ds k).toModel.unpack ≠ .notANumber := by
  have hzero : (0.0 : Float).toModel.unpack ≠ .notANumber := ofScientific_ne_notANumber 0 true 1
  have hinfinity : infinity.toModel.unpack ≠ .notANumber := fun h => by
    have hexact := ofFloat_eq_ofUnpacked infinity
    rw [h] at hexact
    exact absurd hexact (by decide +kernel)
  unfold nearest
  dsimp only
  split
  · exact hzero
  · split
    · exact hinfinity
    · split
      · exact hzero
      · exact ofScientific_ne_notANumber _ _ _

/-- A number that is read is a number. -/
theorem ofParts_ne_notANumber (negative : Bool) (whole fraction : List Char) (power : Int) :
    Exact.ofFloat (ofParts negative whole fraction power) ≠ .notANumber := by
  have hnearest := nearest_ne_notANumber (whole ++ fraction) (power - fraction.length)
  have hneg {u : UnpackedFloat} (hu : u ≠ .notANumber) : u.neg ≠ .notANumber := by
    cases u with
    | notANumber => exact absurd rfl hu
    | _ => exact UnpackedFloat.noConfusion
  have hunpack : (ofParts negative whole fraction power).toModel.unpack ≠ .notANumber := by
    unfold ofParts
    dsimp only
    split
    · exact unpack_pack_ne_notANumber (hneg hnearest)
    · exact hnearest
  rw [ofFloat_eq_ofUnpacked]
  cases hu : (ofParts negative whole fraction power).toModel.unpack with
  | notANumber => exact absurd hu hunpack
  | _ => exact Exact.noConfusion

end TaskNetwork.Decimal
