import TaskNetwork.World

/-! A world is the log of its insertions: each table has the rows that were inserted into it, in
their order. -/

namespace TaskNetwork.World

/-- An insertion: a fact and its arguments. -/
structure Entry where
  fact : Symbol
  args : Row

/-- The entries are the rows of the world, those of each table in their order. -/
def Lists (w : World) (entries : List Entry) : Prop :=
  ∀ fact arity, (w.rows fact arity).toList =
    (entries.filter fun e => e.fact = fact ∧ e.args.length = arity).map (·.args)

def insertAll (w : World) (entries : List Entry) : Except InsertError World :=
  entries.foldlM (fun w e => w.insert e.fact e.args) w

/-- The world after an insertion, whether it was refused or not. -/
def attempt (w : World) (e : Entry) : World :=
  match append e.fact e.args w with
  | .ok () w' | .error _ w' => w'

def attemptAll (w : World) (entries : List Entry) : World := entries.foldl attempt w

section Tables

theorem FactTables.getElem_push (t : FactTables) (row : Row) {arity : Nat}
    (h : arity < maxArity + 1) : (t.push row).rows[arity] =
      if row.length = arity then t.rows[arity].push row else t.rows[arity] :=
  Array.getElem_modify ..

theorem rows_eq (w : World) (fact : Symbol) {arity : Nat} (h : arity < maxArity + 1) :
    w.rows fact arity = ((w.tables.get? fact).getD .empty).rows[arity] := by
  rw [rows, table?, dif_pos (Nat.le_of_lt_succ h)]
  cases w.tables.get? fact with
  | none => exact (FactTables.getElem_rows_empty _).symm
  | some t => rfl

theorem rows_of_gt (w : World) (fact : Symbol) {arity : Nat} (h : maxArity < arity) :
    w.rows fact arity = #[] := by
  rw [rows, table?, dif_neg (Nat.not_le.mpr h)]
  rfl

theorem rows_empty (fact : Symbol) (arity : Nat) : empty.rows fact arity = #[] := by
  unfold rows table?
  split <;> rfl

theorem numRows_eq (w : World) (fact : Symbol) (arity : Nat) :
    w.numRows fact arity = (w.rows fact arity).size := by
  unfold numRows rows
  cases w.table? fact arity <;> rfl

end Tables

theorem length_of_mem_rows {w : World} {fact : Symbol} {arity : Nat} {row : Row}
    (h : row ∈ w.rows fact arity) : row.length = arity := by
  rcases Nat.lt_or_ge maxArity arity with hwide | harity
  · rw [rows_of_gt w fact hwide] at h
    exact absurd h (Array.not_mem_empty row)
  · have hlt : arity < maxArity + 1 := Nat.lt_succ_of_le harity
    rw [rows_eq w fact hlt] at h
    exact FactTables.wide _ arity hlt row h

/-- The number of rows in all tables. -/
def rowCount (w : World) : Nat :=
  (w.tables.flatMap fun (_, t) => t.rows.toList.flatMap (·.toList)).length

theorem size_rows_le (w : World) (fact : Symbol) (arity : Nat) :
    (w.rows fact arity).size ≤ w.rowCount := by
  unfold rows table?
  split
  · next harity =>
    cases htables : w.tables.get? fact with
    | none => exact Nat.zero_le _
    | some t =>
      have hfact := List.sublist_flatten_of_mem (List.mem_map_of_mem
        (f := fun (_, t) => t.rows.toList.flatMap (·.toList))
        (Assignment.mem_of_get?_eq_some htables))
      have hrow : t.rows[arity].toList.Sublist (t.rows.toList.flatMap (·.toList)) :=
        List.sublist_flatten_of_mem (List.mem_map_of_mem (by simp))
      exact (hrow.trans hfact).length_le
  · exact Nat.zero_le _

variable {w w' : World} {e : Entry} {entries : List Entry} {fact : Symbol} {args : Row}

/-- The world with one more row, which is counted. -/
def extend (w : World) (fact : Symbol) (args : Row) : World :=
  ⟨w.tables.update fact fun t => (t.getD .empty).push args, w.size + 1⟩

/-- All that an insertion does to a world, and its world after a refusal. -/
theorem append_eq (fact : Symbol) (args : Row) (w : World) : append fact args w =
    if maxArity < args.length then .error (.arityOutOfRange args.length) w
    else match args.findIdx? (!·.isGround) with
      | some position => .error (.unboundArgument position) w
      | none => .ok () (w.extend fact args) := by
  unfold append
  by_cases hwide : maxArity < args.length
  · simp only [hwide, ↓reduceIte]
    rfl
  · simp only [hwide, ↓reduceIte]
    cases args.findIdx? (!·.isGround) <;> rfl

theorem insert_eq_ok_iff : w.insert fact args = .ok w' ↔
    args.length ≤ maxArity ∧ (∀ v ∈ args, v.isGround = true) ∧ w' = w.extend fact args := by
  rw [insert, append_eq]
  by_cases harity : maxArity < args.length
  · simp [harity, Nat.not_le.mpr harity]
  · cases hposition : args.findIdx? (!·.isGround) with
    | some position =>
      have hunbound : ¬∀ v ∈ args, v.isGround = true := fun hall => by
        rw [List.findIdx?_eq_none_iff.mpr (by simpa using hall)] at hposition
        cases hposition
      simp [harity, hunbound]
    | none =>
      have hground : ∀ v ∈ args, v.isGround = true := by
        simpa using List.findIdx?_eq_none_iff.mp hposition
      simp only [harity, ↓reduceIte, Except.ok.injEq]
      exact ⟨fun h => ⟨Nat.not_lt.mp harity, hground, h.symm⟩, fun h => h.2.2.symm⟩

theorem rows_insert (h : w.insert fact args = .ok w') :
    w'.rows fact args.length = (w.rows fact args.length).push args := by
  obtain ⟨harity, -, rfl⟩ := insert_eq_ok_iff.mp h
  have hlt : args.length < maxArity + 1 := Nat.lt_succ_of_le harity
  rw [rows_eq _ _ hlt, rows_eq _ _ hlt, extend, Assignment.get?_update_self,
    Option.getD_some, FactTables.getElem_push, if_pos rfl]

theorem rows_insert_of_ne {other : Symbol} {arity : Nat} (h : w.insert fact args = .ok w')
    (hne : ¬(fact = other ∧ args.length = arity)) : w'.rows other arity = w.rows other arity := by
  obtain ⟨-, -, rfl⟩ := insert_eq_ok_iff.mp h
  rcases Nat.lt_or_ge maxArity arity with hwide | harity
  · rw [rows_of_gt _ _ hwide, rows_of_gt _ _ hwide]
  have hlt : arity < maxArity + 1 := Nat.lt_succ_of_le harity
  rw [rows_eq _ _ hlt, rows_eq _ _ hlt, extend]
  by_cases hfact : fact = other
  · subst hfact
    have hlength : args.length ≠ arity := fun hlength => hne ⟨rfl, hlength⟩
    rw [Assignment.get?_update_self, Option.getD_some, FactTables.getElem_push, if_neg hlength]
  · rw [Assignment.get?_update_of_ne hfact]

theorem insertAll_cons_of_ok (h : w.insert e.fact e.args = .ok w') (entries : List Entry) :
    w.insertAll (e :: entries) = w'.insertAll entries := by
  rw [insertAll, List.foldlM_cons, h]
  rfl

theorem exists_of_insertAll_cons (h : w.insertAll (e :: entries) = .ok w') :
    ∃ w₁, w.insert e.fact e.args = .ok w₁ ∧ w₁.insertAll entries = .ok w' := by
  rw [insertAll, List.foldlM_cons] at h
  cases hfirst : w.insert e.fact e.args with
  | error cause => rw [hfirst] at h; cases h
  | ok w₁ => rw [hfirst] at h; exact ⟨w₁, rfl, h⟩

/-- The rows that are there stay, and those that are inserted come after them. -/
theorem rows_insertAll (h : w.insertAll entries = .ok w') (fact : Symbol) (arity : Nat) :
    (w'.rows fact arity).toList = (w.rows fact arity).toList ++
      (entries.filter fun e => e.fact = fact ∧ e.args.length = arity).map (·.args) := by
  induction entries generalizing w with
  | nil => cases h; simp
  | cons e entries ih =>
    obtain ⟨w₁, hfirst, hothers⟩ := exists_of_insertAll_cons h
    rw [ih hothers]
    by_cases htable : e.fact = fact ∧ e.args.length = arity
    · obtain ⟨rfl, rfl⟩ := htable
      simp [rows_insert hfirst]
    · simp [rows_insert_of_ne hfirst htable, htable]

theorem lists_of_insertAll (h : empty.insertAll entries = .ok w) : w.Lists entries := by
  intro fact arity
  rw [rows_insertAll h, rows_empty, List.nil_append]

/-- What was inserted could be inserted. -/
theorem accepted_of_insertAll (h : w.insertAll entries = .ok w') (he : e ∈ entries) :
    e.args.length ≤ maxArity ∧ ∀ v ∈ e.args, v.isGround = true := by
  induction entries generalizing w with
  | nil => cases he
  | cons first entries ih =>
    obtain ⟨w₁, hfirst, hothers⟩ := exists_of_insertAll_cons h
    obtain rfl | he := List.mem_cons.mp he
    · exact ⟨(insert_eq_ok_iff.mp hfirst).1, (insert_eq_ok_iff.mp hfirst).2.1⟩
    · exact ih hothers he

theorem insertAll_ok (w : World)
    (h : ∀ e ∈ entries, e.args.length ≤ maxArity ∧ ∀ v ∈ e.args, v.isGround = true) :
    ∃ w', w.insertAll entries = .ok w' := by
  induction entries generalizing w with
  | nil => exact ⟨w, rfl⟩
  | cons e entries ih =>
    obtain ⟨hfirst, hothers⟩ := List.forall_mem_cons.mp h
    rw [insertAll_cons_of_ok (insert_eq_ok_iff.mpr ⟨hfirst.1, hfirst.2, rfl⟩)]
    exact ih _ hothers

theorem Lists.mem (h : w.Lists entries) (he : e ∈ entries) :
    e.args ∈ (w.rows e.fact e.args.length).toList := by
  rw [h]
  exact List.mem_map.mpr ⟨e, List.mem_filter.mpr ⟨he, by simp⟩, rfl⟩

theorem Lists.exists_mem (h : w.Lists entries) {arity : Nat} {row : Row}
    (hrow : row ∈ (w.rows fact arity).toList) :
    row.length = arity ∧ ⟨fact, row⟩ ∈ entries := by
  rw [h] at hrow
  obtain ⟨e, hfiltered, rfl⟩ := List.mem_map.mp hrow
  obtain ⟨he, htable⟩ := List.mem_filter.mp hfiltered
  obtain ⟨rfl, rfl⟩ := of_decide_eq_true htable
  exact ⟨rfl, he⟩

end TaskNetwork.World
