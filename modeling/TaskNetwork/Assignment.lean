/-! Finite assignments in the order in which their keys first appeared. -/

namespace TaskNetwork

/-- Pairs of a key and its value, with each key at most once. -/
abbrev Assignment (κ α : Type) := List (κ × α)

namespace Assignment

variable {κ α : Type} [DecidableEq κ]

def get? (key : κ) : Assignment κ α → Option α
  | [] => none
  | (k, a) :: rest => if k = key then some a else get? key rest

/-- Gives `key` the value `a`, in its place or behind all others. -/
def put (key : κ) (a : α) : Assignment κ α → Assignment κ α
  | [] => [(key, a)]
  | (k, b) :: rest => if k = key then (k, a) :: rest else (k, b) :: put key a rest

/-- Gives `key` what `f` makes of the value it has, if any. -/
def update (key : κ) (f : Option α → α) : Assignment κ α → Assignment κ α
  | [] => [(key, f none)]
  | (k, a) :: rest => if k = key then (k, f (some a)) :: rest else (k, a) :: update key f rest

def erase (key : κ) (as : Assignment κ α) : Assignment κ α := as.filter (·.1 ≠ key)

theorem get?_eq_none_iff {key : κ} {as : Assignment κ α} :
    get? key as = none ↔ ∀ p ∈ as, p.1 ≠ key := by
  induction as with
  | nil => simp [get?]
  | cons p rest ih => by_cases h : p.1 = key <;> simp [get?, h, ih]

theorem mem_of_get?_eq_some {key : κ} {a : α} {as : Assignment κ α} (h : get? key as = some a) :
    (key, a) ∈ as := by
  induction as with
  | nil => simp [get?] at h
  | cons p rest ih =>
    obtain ⟨k, b⟩ := p
    by_cases hk : k = key
    · simp only [get?, hk, ↓reduceIte, Option.some.injEq] at h
      simp [hk, h]
    · simp only [get?, hk, ↓reduceIte] at h
      exact List.mem_cons_of_mem _ (ih h)

theorem put_of_get?_eq_none {key : κ} {as : Assignment κ α} (h : get? key as = none) (a : α) :
    put key a as = as ++ [(key, a)] := by
  fun_induction put key a as <;> simp_all [get?]

theorem get?_put_self (key : κ) (a : α) (as : Assignment κ α) :
    get? key (put key a as) = some a := by
  fun_induction put key a as <;> simp_all [get?]

theorem get?_put_of_ne {key other : κ} (h : key ≠ other) (a : α) (as : Assignment κ α) :
    get? other (put key a as) = get? other as := by
  fun_induction put key a as <;> simp_all [get?]

theorem get?_update_self (key : κ) (f : Option α → α) (as : Assignment κ α) :
    get? key (update key f as) = some (f (get? key as)) := by
  fun_induction update key f as <;> simp_all [get?]

theorem get?_update_of_ne {key other : κ} (h : key ≠ other) (f : Option α → α)
    (as : Assignment κ α) : get? other (update key f as) = get? other as := by
  fun_induction update key f as <;> simp_all [get?]

theorem get?_erase_self (key : κ) (as : Assignment κ α) : get? key (erase key as) = none := by
  induction as with
  | nil => rfl
  | cons p rest ih =>
    by_cases h : p.1 = key
    · simpa [erase, h] using ih
    · simpa [erase, h, get?] using ih

theorem get?_erase_of_ne {key other : κ} (h : key ≠ other) (as : Assignment κ α) :
    get? other (erase key as) = get? other as := by
  induction as with
  | nil => rfl
  | cons p rest ih =>
    simp only [erase, List.filter_cons] at ih ⊢
    by_cases hp : p.1 = key <;> simp_all [get?]

end Assignment

end TaskNetwork
