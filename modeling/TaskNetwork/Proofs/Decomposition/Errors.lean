import TaskNetwork.Proofs.Decomposition.Choosing

/-! The errors of a decomposition. A round ends in an error only if the condition of some branch
does, and in a domain that queries no fact too wide for facts that is a search that was cut off. -/

namespace TaskNetwork.Decomposition

open Solver

/-- The errors in which the search of some branch may end. -/
def AnyHalts (d : Domain) (w : World) (rounds : Nat) (e : SolveError) : Prop :=
  ∃ m ∈ d.methods, ∃ b ∈ m.branches, BranchHalts d w rounds b e

section Narrow

variable {d : Domain} {w : World} {rounds : Nat} {e : SolveError}

theorem AnyHalts.eq_unfinished (hnarrow : d.Narrow) (h : AnyHalts d w rounds e) :
    e = .unfinished := by
  obtain ⟨m, hm, b, hb, c, hc, hhalts⟩ := h
  cases e with
  | unfinished => rfl
  | arityOutOfRange name arity =>
    obtain ⟨hwide, id, args, rfl, hquery | ⟨clause, hclause, hquery⟩⟩ := hhalts
    · exact absurd (hnarrow.branches m hm b hb c hc id name args hquery) (Nat.not_le.mpr hwide)
    · exact absurd (hnarrow.clauses clause hclause id name args hquery) (Nat.not_le.mpr hwide)

/-- With rounds enough for each branch, none ends in an error. -/
theorem not_anyHalts (hnarrow : d.Narrow)
    (hrounds : ∀ m ∈ d.methods, ∀ b ∈ m.branches, ∀ c, b.condition = some c →
      candidateBound d w c ≤ rounds) : ¬AnyHalts d w rounds e := by
  intro h
  obtain rfl := h.eq_unfinished hnarrow
  obtain ⟨m, hm, b, hb, c, hc, hcut⟩ := h
  exact absurd (hrounds m hm b hb c hc) (Nat.not_le.mpr hcut)

end Narrow

section Rounds

variable {d : Domain} {w : World} {rounds : Nat} {s s' : Search} {e : SolveError}

theorem expand_error (hd : d.nodeIds.Nodup) {t : PendingTask} {m : Method}
    (hmethod : d.method? t.call.name t.call.arity = some m)
    (henvironment : s.agenda.environment = {})
    (h : Search.expand d w rounds t m s = (.error e, s')) : AnyHalts d w rounds e := by
  have hm : m ∈ d.methods := (Domain.of_method?_eq_some hmethod).1
  unfold Search.expand at h
  split at h
  · cases h
  · next actuals _ =>
    cases hchoose : Search.choose d w rounds t m actuals (s.count .expansion) with
    | mk result after =>
      obtain ⟨-, hresult⟩ := choose_takes (s := s.count .expansion) hd hm henvironment hchoose
      rw [hchoose] at h
      rcases hresult with ⟨e, rfl, hhalts⟩ | ⟨rfl, -⟩ | ⟨taken, rfl, -⟩
      · cases h
        exact ⟨m, hm, hhalts⟩
      · cases h
      · cases h

theorem round_error (hd : d.nodeIds.Nodup) (henvironment : s.agenda.environment = {})
    {course : Course} (h : s.round d w rounds course = .ended (.error (.error e)) s') :
    AnyHalts d w rounds e := by
  cases course with
  | back =>
    rw [Search.round] at h
    split at h <;> cases h
  | done => cases h
  | onward =>
    rw [Search.round] at h
    cases hstep : Search.step d w rounds s with
    | mk result after =>
      rw [hstep] at h
      cases result with
      | ok course => cases h
      | error e' =>
        cases h
        unfold Search.step at hstep
        dsimp only at hstep
        split at hstep
        · cases hstep
        · next hpop =>
          have hpopped := (pop?_environment hpop).trans henvironment
          split at hstep
          · next hmethod => exact expand_error hd hmethod hpopped hstep
          · cases hstep

end Rounds

end TaskNetwork.Decomposition
