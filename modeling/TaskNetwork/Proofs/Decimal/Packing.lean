import Mathlib
import TaskNetwork.Decimal.Exact

/-! The bits of floats. The exact value of a float is that of its parts, and a float that is finite
and not zero is packed from its mantissa, exponent and sign, which are the parts that are unpacked
again. -/

namespace TaskNetwork.Decimal

open Float.Model Float.Model.UnpackedFloat

section Fields

variable (b : BitVec Format.binary64.numBits)

theorem toNat_unpackMantissa : (unpackMantissa b).toNat = b.toNat % 2 ^ 52 := by
  simp [unpackMantissa, BitVec.extractLsb_toNat]

theorem toNat_unpackExponent : (unpackExponent b).toNat = b.toNat / 2 ^ 52 % 2 ^ 11 := by
  simp [unpackExponent, BitVec.extractLsb_toNat, Nat.shiftRight_eq_div_pow]

theorem toNat_unpackSign : (unpackSign b).toNat = b.toNat / 2 ^ 63 := by
  have hlt : b.toNat < 2 ^ 64 := b.isLt
  have hsign : (unpackSign b).toNat = b.toNat / 2 ^ 63 % 2 := by
    simp [unpackSign, BitVec.extractLsb_toNat, Nat.shiftRight_eq_div_pow]
  omega

theorem toNat_packComponents (s : Sign) (e : BitVec Format.binary64.exponentBits)
    (m : BitVec Format.binary64.mantissaBitsWithoutImplicit) :
    (packComponents .binary64 s e m).toNat =
      s.toBitVec.toNat * 2 ^ 63 + e.toNat * 2 ^ 52 + m.toNat := by
  rw [packComponents, BitVec.toNat_append, BitVec.toNat_append,
    ← Nat.shiftLeft_add_eq_or_of_lt e.isLt, ← Nat.shiftLeft_add_eq_or_of_lt m.isLt]
  simp only [Nat.shiftLeft_eq]
  ring

end Fields

theorem sign_ofBitVec (s : BitVec 1) : (Sign.ofBitVec s == .negative) = (s.toNat == 1) := by
  have h : s = 0#1 ∨ s = 1#1 := by
    rcases Nat.lt_or_ge s.toNat 1 with h | h
    · exact .inl (BitVec.eq_of_toNat_eq (by simpa using h))
    · exact .inr (BitVec.eq_of_toNat_eq (by have := s.isLt; simp; omega))
  rcases h with rfl | rfl <;> rfl

/-- What a float stands for, by its parts. -/
def Exact.ofUnpacked : UnpackedFloat → Exact
  | .notANumber => .notANumber
  | .infinity s => .infinite (s == .negative)
  | .zero s => .finite (s == .negative) 0 leastExponent
  | .finite s m e _ => .finite (s == .negative) m e

theorem ofFloat_eq_ofUnpacked (x : Float) : Exact.ofFloat x = .ofUnpacked x.toModel.unpack := by
  let b : BitVec Format.binary64.numBits := x.toModel.toBits.toBitVec
  have hexponent : unpackExponent b = -1#_ ↔ b.toNat / leadingOne % 2048 = 2047 := by
    rw [← BitVec.toNat_inj, toNat_unpackExponent]
    exact Iff.rfl
  have hleast : unpackExponent b = 0#_ ↔ b.toNat / leadingOne % 2048 = 0 := by
    rw [← BitVec.toNat_inj, toNat_unpackExponent]
    exact Iff.rfl
  have hmantissa : unpackMantissa b = 0#_ ↔ b.toNat % leadingOne = 0 := by
    rw [← BitVec.toNat_inj, toNat_unpackMantissa]
    exact Iff.rfl
  have hsign : (Sign.ofBitVec (unpackSign b) == .negative) = (b.toNat / Nat.pow 2 63 == 1) := by
    rw [sign_ofBitVec, toNat_unpackSign]
    rfl
  have hbits : x.toBits.toNat = b.toNat := rfl
  rw [show x.toModel.unpack = UnpackedFloat.unpack .binary64 b from rfl, Exact.ofFloat, hbits,
    UnpackedFloat.unpack]
  simp only [hexponent, hleast, hmantissa]
  by_cases hall : b.toNat / leadingOne % 2048 = 2047
  · rw [if_pos hall, if_pos hall]
    by_cases hzero : b.toNat % leadingOne = 0
    · rw [if_pos hzero, if_pos hzero, Exact.ofUnpacked, hsign]
    · rw [if_neg hzero, if_neg hzero, Exact.ofUnpacked]
  · rw [if_neg hall, if_neg hall]
    by_cases hsubnormal : b.toNat / leadingOne % 2048 = 0
    · rw [if_pos hsubnormal, if_pos hsubnormal]
      by_cases hzero : b.toNat % leadingOne = 0
      · rw [dif_pos hzero, Exact.ofUnpacked, hsign, hzero]
      · rw [dif_neg hzero, Exact.ofUnpacked, hsign, toNat_unpackMantissa, toNat_unpackExponent,
          show b.toNat / 2 ^ 52 % 2 ^ 11 = 0 from hsubnormal]
        rfl
    · rw [if_neg hsubnormal, if_neg hsubnormal, Exact.ofUnpacked, hsign, BitVec.toNat_append,
        ← Nat.shiftLeft_add_eq_or_of_lt (BitVec.isLt _), toNat_unpackMantissa,
        toNat_unpackExponent]
      congr 1

/-- A float has the mantissa `m` and the exponent `q`: it is positive and finite. -/
structure IsFloat (m : Nat) (q : Int) : Prop where
  pos : 0 < m
  lt : m < 2 ^ 53
  least : leastExponent ≤ q
  greatest : q ≤ 971
  full : 2 ^ 52 ≤ m ∨ q = leastExponent

/-- Packing puts the parts of a float in their places. -/
theorem toNat_pack {m : Nat} {q : Int} (h : IsFloat m q) (s : Sign) :
    (UnpackedFloat.pack .binary64 (.finite s m q h.pos)).toNat = s.toBitVec.toNat * 2 ^ 63 +
      (if 2 ^ 52 ≤ m then (q + 1075).toNat * 2 ^ 52 + (m - 2 ^ 52) else m) := by
  have hlt := h.lt
  have hleast := h.least
  have hgreatest := h.greatest
  have hbiased : (q + Format.binary64.exponentBias + (52 : Nat)).toNat = (q + 1075).toNat := by
    show (q + (1023 : Nat) + (52 : Nat)).toNat = _
    congr 1
    omega
  unfold leastExponent at hleast
  rw [UnpackedFloat.pack]
  dsimp only
  rw [hbiased, if_neg (by show ¬2 ^ 11 ≤ _; omega)]
  by_cases hnormal : 2 ^ 52 ≤ m
  · have hlog : m.log2 = 52 := (Nat.log2_eq_iff (by omega)).mpr ⟨hnormal, hlt⟩
    rw [if_pos (by rw [hlog]; rfl), if_pos hnormal, toNat_packComponents, BitVec.toNat_ofNat,
      BitVec.toNat_ofNat]
    show _ + (q + 1075).toNat % 2 ^ 11 * 2 ^ 52 + m % 2 ^ 52 = _
    omega
  · have hlog : m.log2 < 52 := (Nat.log2_lt h.pos.ne').mpr (by omega)
    rw [if_neg (by show ¬m.log2 + 1 = 1 + 52; omega), if_neg hnormal, toNat_packComponents,
      BitVec.toNat_ofNat, BitVec.toNat_ofNat]
    show _ + 0 % 2 ^ 11 * 2 ^ 52 + m % 2 ^ 52 = _
    omega

theorem unpack_normal {b : BitVec Format.binary64.numBits} {e f : Nat}
    (he : b.toNat / 2 ^ 52 % 2 ^ 11 = e) (hf : b.toNat % 2 ^ 52 = f) (hpos : 0 < e)
    (hlt : e < 2047) : UnpackedFloat.unpack .binary64 b =
      .finite (.ofBitVec (unpackSign b)) (2 ^ 52 + f) (e - 1075)
        (Nat.add_pos_left (Nat.two_pow_pos 52) f) := by
  have hall : unpackExponent b ≠ -1#_ := by
    rw [ne_eq, ← BitVec.toNat_inj, toNat_unpackExponent, he]
    show e ≠ 2047
    omega
  have hzero : unpackExponent b ≠ 0#_ := by
    rw [ne_eq, ← BitVec.toNat_inj, toNat_unpackExponent, he]
    show e ≠ 0
    omega
  rw [UnpackedFloat.unpack]
  dsimp only
  rw [if_neg hall, if_neg hzero]
  rw [UnpackedFloat.finite.injEq, BitVec.toNat_append,
    ← Nat.shiftLeft_add_eq_or_of_lt (BitVec.isLt _), toNat_unpackMantissa, toNat_unpackExponent,
    he, hf]
  exact ⟨rfl, rfl, rfl⟩

theorem unpack_subnormal {b : BitVec Format.binary64.numBits} {f : Nat}
    (he : b.toNat / 2 ^ 52 % 2 ^ 11 = 0) (hf : b.toNat % 2 ^ 52 = f) (hpos : 0 < f) :
    UnpackedFloat.unpack .binary64 b =
      .finite (.ofBitVec (unpackSign b)) f leastExponent hpos := by
  have hall : unpackExponent b ≠ -1#_ := by
    rw [ne_eq, ← BitVec.toNat_inj, toNat_unpackExponent, he]
    decide
  have hzero : unpackExponent b = 0#_ := by
    rw [← BitVec.toNat_inj, toNat_unpackExponent, he]
    rfl
  have hmantissa : unpackMantissa b ≠ 0#_ := by
    rw [ne_eq, ← BitVec.toNat_inj, toNat_unpackMantissa, hf]
    exact hpos.ne'
  rw [UnpackedFloat.unpack]
  dsimp only
  rw [if_neg hall, if_pos hzero, dif_neg hmantissa, UnpackedFloat.finite.injEq,
    toNat_unpackMantissa, toNat_unpackExponent, he, hf]
  exact ⟨rfl, rfl, rfl⟩

theorem unpack_pack {m : Nat} {q : Int} (h : IsFloat m q) (s : Sign) :
    (Float.Model.pack (.finite s m q h.pos)).unpack = .finite s m q h.pos := by
  have hbits := toNat_pack h s
  have hlt := h.lt
  have hleast := h.least
  have hgreatest := h.greatest
  unfold leastExponent at hleast
  show UnpackedFloat.unpack .binary64 (UnpackedFloat.pack .binary64 (.finite s m q h.pos)) = _
  generalize UnpackedFloat.pack .binary64 (.finite s m q h.pos) = b at hbits
  have hfield : unpackSign b = s.toBitVec := by
    refine BitVec.eq_of_toNat_eq ?_
    rw [toNat_unpackSign, hbits]
    split <;> omega
  have hsign : Sign.ofBitVec (unpackSign b) = s := by
    rw [hfield]
    cases s <;> rfl
  by_cases hnormal : 2 ^ 52 ≤ m
  · rw [if_pos hnormal] at hbits
    rw [@unpack_normal _ (q + 1075).toNat (m - 2 ^ 52) (by omega) (by omega) (by omega) (by omega),
      UnpackedFloat.finite.injEq]
    exact ⟨hsign, by omega, by omega⟩
  · rw [if_neg hnormal] at hbits
    have hq := h.full.resolve_left hnormal
    have hpos := h.pos
    rw [@unpack_subnormal _ m (by omega) (by omega) h.pos, UnpackedFloat.finite.injEq]
    exact ⟨hsign, rfl, hq.symm⟩

theorem isFloat_of_ofFloat {x : Float} {negative : Bool} {m : Nat} {q : Int}
    (h : Exact.ofFloat x = .finite negative m q) (hm : 0 < m) : IsFloat m q := by
  have hfraction : x.toBits.toNat % leadingOne < 2 ^ 52 := Nat.mod_lt _ (Nat.two_pow_pos 52)
  have hbiased : x.toBits.toNat / leadingOne % 2048 < 2048 := Nat.mod_lt _ (by decide)
  unfold Exact.ofFloat at h
  dsimp only at h
  split at h
  · split at h <;> cases h
  · split at h
    · obtain ⟨-, rfl, rfl⟩ := Exact.finite.inj h
      exact ⟨hm, by omega, le_refl _, by decide, .inr rfl⟩
    · obtain ⟨-, rfl, rfl⟩ := Exact.finite.inj h
      have hleading : leadingOne = 2 ^ 52 := rfl
      have hleast : leastExponent = -1074 := rfl
      exact ⟨hm, by omega, by omega, by omega, .inl (by omega)⟩

/-- The sign of a number by whether it is negative. -/
def signOf (negative : Bool) : Sign := if negative then .negative else .positive

theorem unpack_of_ofFloat {x : Float} {negative : Bool} {m : Nat} {q : Int}
    (h : Exact.ofFloat x = .finite negative m q) (hm : 0 < m) :
    x.toModel.unpack = .finite (signOf negative) m q hm := by
  rw [ofFloat_eq_ofUnpacked] at h
  cases hu : x.toModel.unpack with
  | finite s m' e hm' =>
    rw [hu] at h
    obtain ⟨rfl, rfl, rfl⟩ := Exact.finite.inj h
    cases s <;> rfl
  | zero s =>
    rw [hu] at h
    exact absurd (Exact.finite.inj h).2.1 hm.ne
  | _ =>
    rw [hu] at h
    cases h

/-- A float that stands for a number that is not zero is packed from its parts. -/
theorem eq_pack_of_ofFloat {x : Float} {negative : Bool} {m : Nat} {q : Int}
    (h : Exact.ofFloat x = .finite negative m q) (hf : IsFloat m q) :
    x = .ofModel (.pack (.finite (signOf negative) m q hf.pos)) := by
  rw [← unpack_of_ofFloat h hf.pos]
  exact (Float.ofBits_toBits x).symm

theorem neg_pack {m : Nat} {q : Int} (h : IsFloat m q) :
    -Float.ofModel (.pack (.finite .positive m q h.pos)) =
      .ofModel (.pack (.finite .negative m q h.pos)) := by
  show Float.ofModel (.pack (Float.Model.pack (.finite .positive m q h.pos)).unpack.neg) = _
  rw [unpack_pack h]
  rfl

theorem beq_zero {x y : Float} {negative negative' : Bool} {q q' : Int}
    (hx : Exact.ofFloat x = .finite negative 0 q) (hy : Exact.ofFloat y = .finite negative' 0 q') :
    (x == y) = true := by
  have hunpack {x : Float} {negative : Bool} {q : Int}
      (h : Exact.ofFloat x = .finite negative 0 q) : ∃ s, x.toModel.unpack = .zero s := by
    rw [ofFloat_eq_ofUnpacked] at h
    cases hu : x.toModel.unpack with
    | zero s => exact ⟨s, rfl⟩
    | finite s m e hm =>
      rw [hu] at h
      exact absurd (Exact.finite.inj h).2.1 hm.ne'
    | _ =>
      rw [hu] at h
      cases h
  obtain ⟨s, hs⟩ := hunpack hx
  obtain ⟨s', hs'⟩ := hunpack hy
  show (x.toModel.unpack.compare y.toModel.unpack == some .eq) = true
  rw [hs, hs']
  rfl

theorem ofFloat_nan : Exact.ofFloat Float.nan = .notANumber := by decide +kernel

theorem beq_self {x : Float} {negative : Bool} {m : Nat} {q : Int}
    (hx : Exact.ofFloat x = .finite negative m q) : (x == x) = true := by
  refine Float.beq_self_iff.mpr ?_
  rintro rfl
  rw [ofFloat_nan] at hx
  cases hx

theorem fields_of_notANumber {b : BitVec Format.binary64.numBits}
    (h : UnpackedFloat.unpack .binary64 b = .notANumber) :
    unpackExponent b = -1#_ ∧ unpackMantissa b ≠ 0#_ := by
  unfold UnpackedFloat.unpack at h
  dsimp only at h
  split at h
  · next hexponent =>
    split at h
    · cases h
    · next hmantissa => exact ⟨hexponent, hmantissa⟩
  · split at h
    · split at h <;> cases h
    · cases h

theorem unpack_pack_ne_notANumber {u : UnpackedFloat} (hu : u ≠ .notANumber) :
    (Float.Model.pack u).unpack ≠ .notANumber := by
  intro h
  obtain ⟨hexponent, hmantissa⟩ := fields_of_notANumber h
  unfold Float.Model.pack at hexponent hmantissa
  dsimp only at hexponent hmantissa
  unfold UnpackedFloat.pack at hexponent hmantissa
  cases u with
  | notANumber => exact hu rfl
  | infinity s => exact hmantissa unpackMantissa_packComponents
  | zero s => exact hmantissa unpackMantissa_packComponents
  | finite s m e hm =>
    dsimp only at hexponent hmantissa
    split at hexponent
    · next hover =>
      rw [if_pos hover] at hmantissa
      exact hmantissa unpackMantissa_packComponents
    · next hover =>
      split at hexponent
      · rw [unpackExponent_packComponents] at hexponent
        have hbiased : _ % 2 ^ 11 = 2047 := congrArg BitVec.toNat hexponent
        have hsmall : _ + 1 < 2 ^ 11 := not_le.mp hover
        omega
      · rw [unpackExponent_packComponents] at hexponent
        exact absurd (congrArg BitVec.toNat hexponent) (by decide)

end TaskNetwork.Decimal
