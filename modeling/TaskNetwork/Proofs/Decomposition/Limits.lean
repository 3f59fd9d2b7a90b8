import TaskNetwork.Decomposition.Search
import TaskNetwork.Proofs.Solver.Limits

/-! The limits of a decomposition matter only to one that is cut off: with more rounds a run that
came to an end takes the same course. -/

namespace TaskNetwork.Decomposition

open Solver

section Branches

variable (d : Domain) (w : World) {rounds rounds' : Nat} (m : Method) (actuals : List Value)

theorem branchSearch_approximates (hle : rounds ≤ rounds') (b : Branch) (path : Path) :
    Approximates (branchSearch d w rounds m b actuals path)
      (branchSearch d w rounds' m b actuals path) := by
  intro s
  unfold branchSearch
  split
  · exact solveGuard_approximates d w hle b.condition path path (select path) _
  · exact .inr rfl

theorem solution?_approximates (hle : rounds ≤ rounds') (methodPath : Path) (b : Branch)
    (skip : Nat) (s : State Unit) :
    (solution? d w rounds methodPath m b actuals skip s).1 = .error .unfinished ∨
      solution? d w rounds methodPath m b actuals skip s =
        solution? d w rounds' methodPath m b actuals skip s := by
  have hsearch := approximates_within methodPath (.node b.id) (fun s => (.more, s))
    (branchSearch_approximates d w m actuals hle b)
  unfold solution?
  dsimp only
  rcases hsearch ⟨s.env, s.counters, { skip }⟩ with hcut | heq
  · exact .inl (by rw [Prod.fst_eq_iff.mp hcut])
  · exact .inr (by rw [heq])

theorem tryBranch_approximates (hle : rounds ≤ rounds') (choice : Choice) (methodPath : Path)
    (i : Nat) : Approximates (tryBranch d w rounds m actuals choice methodPath i)
      (tryBranch d w rounds' m actuals choice methodPath i) := by
  intro s
  unfold tryBranch
  split
  · exact .inr rfl
  · next b _ =>
    dsimp only
    rcases solution?_approximates d w m actuals hle methodPath b
      (if i = choice.branch then choice.solution else 0) ⟨s.env, s.counters, ()⟩ with hcut | heq
    · exact .inl (by rw [Prod.fst_eq_iff.mp hcut])
    · exact .inr (by rw [heq])

theorem takeBranch_approximates (hle : rounds ≤ rounds') (root : Path) (choice : Choice) :
    Approximates (takeBranch d w rounds m actuals root choice)
      (takeBranch d w rounds' m actuals root choice) :=
  approximates_within root _ blocked fun path _ =>
    approximates_scan path _ (tryBranch_approximates d w m actuals hle choice path)
      (Nat.le_refl _) _

end Branches

namespace Search

variable (d : Domain) (w : World) {rounds rounds' : Nat}

theorem choose_approximates (hle : rounds ≤ rounds') (t : PendingTask) (m : Method)
    (actuals : List Value) (s : Search) :
    (choose d w rounds t m actuals s).1 = .error .unfinished ∨
      choose d w rounds t m actuals s = choose d w rounds' t m actuals s := by
  unfold choose
  rcases takeBranch_approximates d w m actuals hle (Path.ofTask t.scope) t.choice
    ⟨s.agenda.environment, s.counters, none⟩ with hcut | heq
  · exact .inl (by rw [Prod.fst_eq_iff.mp hcut])
  · exact .inr (by rw [heq])

theorem expand_approximates (hle : rounds ≤ rounds') (t : PendingTask) (m : Method) (s : Search) :
    (expand d w rounds t m s).1 = .error .unfinished ∨
      expand d w rounds t m s = expand d w rounds' t m s := by
  unfold expand
  split
  · exact .inr rfl
  · next actuals _ =>
    rcases choose_approximates d w hle t m actuals (s.count .expansion) with hcut | heq
    · exact .inl (by rw [Prod.fst_eq_iff.mp hcut])
    · exact .inr (by rw [heq])

theorem step_approximates (hle : rounds ≤ rounds') (s : Search) :
    (step d w rounds s).1 = .error .unfinished ∨ step d w rounds s = step d w rounds' s := by
  unfold step
  dsimp only
  split
  · exact .inr rfl
  · split
    · exact expand_approximates d w hle _ _ _
    · exact .inr rfl

theorem round_approximates (hle : rounds ≤ rounds') (course : Course) (s : Search) :
    (∃ s', s.round d w rounds course = .ended (.error (.error .unfinished)) s') ∨
      s.round d w rounds course = s.round d w rounds' course := by
  cases course with
  | onward =>
    simp only [round]
    rcases step_approximates d w hle s with hcut | heq
    · exact .inl ⟨_, by rw [Prod.fst_eq_iff.mp hcut]⟩
    · exact .inr (by rw [heq])
  | back | done => exact .inr rfl

/-- With more rounds a loop that is not cut off ends in the same way. -/
theorem loop_approximates (hle : rounds ≤ rounds') (left : Nat) :
    ∀ {left' : Nat} (course : Course) (s : Search), left ≤ left' →
      (loop d w rounds left course s).1 = .error (.error .unfinished) ∨
        loop d w rounds left course s = loop d w rounds' left' course s := by
  induction left with
  | zero => exact fun _ _ _ => .inl rfl
  | succ left ih =>
    intro left' course s hleft
    obtain ⟨left', rfl⟩ := Nat.exists_eq_add_of_le' (Nat.le_trans (Nat.succ_pos _) hleft)
    simp only [loop]
    rcases round_approximates d w hle course s with ⟨s', hcut⟩ | heq
    · exact .inl (by rw [hcut])
    · rw [← heq]
      cases s.round d w rounds course with
      | next course s => exact ih course s (Nat.le_of_succ_le_succ hleft)
      | ended outcome s => exact .inr rfl

end Search

end TaskNetwork.Decomposition
