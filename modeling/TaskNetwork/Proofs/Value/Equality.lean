import TaskNetwork.Value

/-! Equality of values is symmetric and transitive, though not reflexive. Finer than it is identity,
which is reflexive and tells even zeros of different sign apart. -/

namespace TaskNetwork

open Float.Model in
theorem compare_unpackedFloat_swap (a b : UnpackedFloat) :
    b.compare a = (a.compare b).map (·.swap) := by
  have hthen (m m' : Nat) (e e' : Int) : ((compare e e').then (compare m m')).swap =
      (compare e' e).then (compare m' m) := by
    rw [Ordering.swap_then, ← Std.OrientedCmp.eq_swap, ← Std.OrientedCmp.eq_swap]
  cases a with
  | notANumber => cases b <;> rfl
  | infinity s =>
    cases b with
    | infinity s' => cases s <;> cases s' <;> rfl
    | _ => cases s <;> rfl
  | zero s =>
    cases b with
    | infinity s' => cases s' <;> rfl
    | finite s' => cases s' <;> rfl
    | _ => rfl
  | finite s m e hm =>
    cases b with
    | infinity s' => cases s <;> cases s' <;> rfl
    | finite s' m' e' hm' =>
      cases s <;> cases s'
      case negative.negative => exact congrArg (some ·.swap) (hthen m m' e e').symm
      case positive.positive => exact congrArg some (hthen m m' e e').symm
      case negative.positive | positive.negative => rfl
    | _ => cases s <;> rfl

theorem float_beq_comm (x y : Float) : (x == y) = (y == x) := by
  show (x.toModel.unpack.compare y.toModel.unpack == some .eq) =
    (y.toModel.unpack.compare x.toModel.unpack == some .eq)
  rw [compare_unpackedFloat_swap x.toModel.unpack]
  cases x.toModel.unpack.compare y.toModel.unpack with
  | none => rfl
  | some order => cases order <;> rfl

open Float.Model in
/-- Numbers that compare as equal are the same, or both are zeros. -/
theorem eq_or_zeros_of_compare {a b : UnpackedFloat} (h : a.compare b = some .eq) :
    a = b ∨ ∃ s s', a = .zero s ∧ b = .zero s' := by
  cases a with
  | notANumber => cases b <;> cases h
  | infinity s =>
    cases b with
    | infinity s' =>
      cases s <;> cases s'
      case negative.negative | positive.positive => exact .inl rfl
      case negative.positive | positive.negative => cases h
    | _ => cases s <;> cases h
  | zero s =>
    cases b with
    | zero s' => exact .inr ⟨s, s', rfl, rfl⟩
    | infinity s' | finite s' => cases s' <;> cases h
    | notANumber => cases h
  | finite s m e hm =>
    cases b with
    | infinity s' => cases s <;> cases s' <;> cases h
    | finite s' m' e' hm' =>
      have hparts (h : (compare e e').then (compare m m') = .eq) : e = e' ∧ m = m' := by
        rwa [Ordering.then_eq_eq, Std.compare_eq_iff_eq, Std.compare_eq_iff_eq] at h
      cases s <;> cases s'
      case negative.negative =>
        obtain ⟨rfl, rfl⟩ := hparts (Ordering.swap_eq_eq.mp (Option.some.inj h))
        exact .inl rfl
      case positive.positive =>
        obtain ⟨rfl, rfl⟩ := hparts (Option.some.inj h)
        exact .inl rfl
      case negative.positive | positive.negative => cases h
    | zero => cases s <;> cases h
    | notANumber => cases s <;> cases h

theorem float_beq_trans {x y z : Float} (hxy : (x == y) = true) (hyz : (y == z) = true) :
    (x == z) = true := by
  have hiff (x y : Float) :
      (x == y) = true ↔ x.toModel.unpack.compare y.toModel.unpack = some .eq := by
    show (x.toModel.unpack.compare y.toModel.unpack == some .eq) = true ↔ _
    exact beq_iff_eq
  rw [hiff] at hxy hyz ⊢
  rcases eq_or_zeros_of_compare hxy with heq | ⟨s, s', hx, hy⟩
  · rw [heq]
    exact hyz
  · rcases eq_or_zeros_of_compare hyz with heq | ⟨_, s'', -, hz⟩
    · rw [hx, ← heq, hy]
      rfl
    · rw [hx, hz]
      rfl

namespace Value

mutual

theorem beq_comm : (v u : Value) → v.beq u = u.beq v
  | unbound, u => by cases u <;> rfl
  | bool a, u => by cases u <;> simp [beq, Bool.beq_comm]
  | number x, u => by cases u <;> simp [beq, float_beq_comm]
  | text s, u => by cases u <;> simp [beq, BEq.comm]
  | symbol s, u => by cases u <;> simp [beq, BEq.comm]
  | list vs, u => by
    cases u with
    | list us => exact beqList_comm vs us
    | _ => rfl

theorem beqList_comm : (vs us : List Value) → beqList vs us = beqList us vs
  | [], us => by cases us <;> rfl
  | v :: vs, [] => rfl
  | v :: vs, u :: us => by rw [beqList, beqList, beq_comm v u, beqList_comm vs us]

end

/-- Only a bound value equals anything. -/
theorem isBound_of_beq {v u : Value} (h : (v == u) = true) : v.isBound = true := by
  cases v with
  | unbound => cases h
  | _ => rfl

mutual

theorem beq_trans : (v u t : Value) → v.beq u = true → u.beq t = true → v.beq t = true
  | unbound, _, _, h, _ => by cases h
  | bool a, u, t, h, h' => by cases u <;> cases t <;> simp_all [beq]
  | number x, u, t, h, h' => by
    cases u <;> cases t <;> simp_all only [beq, Bool.false_eq_true]
    exact float_beq_trans h h'
  | text s, u, t, h, h' => by cases u <;> cases t <;> simp_all [beq]
  | symbol s, u, t, h, h' => by cases u <;> cases t <;> simp_all [beq]
  | list vs, u, t, h, h' => by
    cases u <;> cases t <;> simp_all only [beq, Bool.false_eq_true]
    exact beqList_trans vs _ _ h h'

theorem beqList_trans : (vs us ts : List Value) → beqList vs us = true → beqList us ts = true →
    beqList vs ts = true
  | [], us, ts, h, h' => by cases us <;> cases ts <;> simp_all [beqList]
  | v :: vs, us, ts, h, h' => by
    cases us <;> cases ts <;> simp_all only [beqList, Bool.and_eq_true, Bool.false_eq_true]
    exact ⟨beq_trans v _ _ h.1 h'.1, beqList_trans vs _ _ h.2 h'.2⟩

end

mutual

/-- Values that are built in the same way from the same parts. -/
def identical : Value → Value → Bool
  | unbound, unbound => true
  | bool a, bool b => a = b
  | number x, number y => x = y
  | text a, text b => a = b
  | symbol a, symbol b => a = b
  | list vs, list us => identicalList vs us
  | _, _ => false

def identicalList : List Value → List Value → Bool
  | [], [] => true
  | v :: vs, u :: us => identical v u && identicalList vs us
  | _, _ => false

end

mutual

theorem identical_iff : (v u : Value) → (v.identical u = true ↔ v = u)
  | unbound, u => by cases u <;> simp [identical]
  | bool a, u => by cases u <;> simp [identical]
  | number x, u => by cases u <;> simp [identical]
  | text s, u => by cases u <;> simp [identical]
  | symbol s, u => by cases u <;> simp [identical]
  | list vs, u => by
    cases u with
    | list us => simp [identical, identicalList_iff vs us]
    | _ => simp [identical]

theorem identicalList_iff : (vs us : List Value) → (identicalList vs us = true ↔ vs = us)
  | [], us => by cases us <;> simp [identicalList]
  | v :: vs, [] => by simp [identicalList]
  | v :: vs, u :: us => by simp [identicalList, identical_iff v u, identicalList_iff vs us]

end

instance : DecidableEq Value := fun v u => decidable_of_iff _ (identical_iff v u)

end Value

end TaskNetwork
