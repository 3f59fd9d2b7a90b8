import TaskNetwork.Solver.Condition

/-! What solving counts: probes of rows and those that match, calls of axioms and nodes that are
blocked. A match is counted with its probe, and what belongs to the decomposition is not touched. -/

namespace TaskNetwork

/-- The counters of `after` are those of `before` and what solving has counted since. -/
structure Counters.Probed (before after : Counters) : Prop where
  others : after = { before with
    factProbes := after.factProbes
    factMatches := after.factMatches
    axiomCalls := after.axiomCalls
    cyclesBlocked := after.cyclesBlocked }
  factMatches_le : after.factMatches + before.factProbes ≤ before.factMatches + after.factProbes

namespace Counters.Probed

variable {before mid after : Counters}

theorem refl (c : Counters) : Probed c c := ⟨rfl, Nat.le_refl _⟩

theorem trans (h : Probed before mid) (h' : Probed mid after) : Probed before after := by
  obtain ⟨hothers, hle⟩ := h
  obtain ⟨hothers', hle'⟩ := h'
  refine ⟨?_, by omega⟩
  rw [hothers', hothers]

theorem factProbe (c : Counters) (matched : Bool) : Probed c (c.factProbe matched) := by
  refine ⟨rfl, ?_⟩
  cases matched <;> simp only [Counters.factProbe] <;> split <;> omega

theorem axiomCall (c : Counters) : Probed c c.axiomCall := ⟨rfl, Nat.le_refl _⟩

theorem cycleBlocked (c : Counters) : Probed c c.cycleBlocked := ⟨rfl, Nat.le_refl _⟩

end Counters.Probed

namespace Solver

open Counters

variable {σ : Type}

/-- The action counts as solving does. -/
def Probes (k : Action σ) : Prop := ∀ s, Probed s.counters (k s).2.counters

section Parts

variable {k : Action σ}

theorem probes_of_counters_eq (h : ∀ s, (k s).2.counters = s.counters) : Probes k := by
  intro s
  rw [h s]
  exact .refl _

theorem probes_blocked : Probes (blocked : Action σ) := fun s => .cycleBlocked s.counters

theorem probes_within {parent : Path} {segment : Segment} {refused : Action σ}
    {body : Path → Action σ} (hrefused : Probes refused) (hbody : ∀ path, Probes (body path)) :
    Probes (within parent segment refused body) := by
  intro s
  unfold within
  split
  · exact hbody _ s
  · exact hrefused s

theorem probes_binding (make : Environment → Bool × Environment) (hk : Probes k) :
    Probes (binding make k) := by
  intro s
  have hnext (made : Bool) (env : Environment) : Probed s.counters
      (if made then k { s with env } else (.more, { s with env })).2.counters := by
    split
    · exact hk { s with env }
    · exact .refl _
  unfold binding
  dsimp only
  split
  · next heq =>
    have h := hnext (make s.env).1 (make s.env).2
    rw [heq] at h
    exact h
  · next heq =>
    have h := hnext (make s.env).1 (make s.env).2
    rw [heq] at h
    exact h

theorem probes_scan (path : Path) (count : Nat) {visit : Nat → Action σ}
    (hvisit : ∀ i, Probes (visit i)) (rounds : Nat) : Probes (scan path count visit rounds) := by
  induction rounds with
  | zero =>
    intro s
    unfold scan
    split <;> exact .refl _
  | succ rounds ih =>
    intro s
    have hvisited := hvisit (s.env.cursor path) s
    unfold scan
    dsimp only
    split
    · split
      · next t heq =>
        rw [heq] at hvisited
        exact hvisited.trans (ih (t.mapEnv (·.advance path)))
      · exact hvisited
    · exact .refl _

theorem probes_refute {search : Action σ → Action σ}
    (hsearch : ∀ k, Probes k → Probes (search k)) (hk : Probes k) : Probes (refute search k) := by
  intro s
  have hinner := hsearch (fun s => (.stop, s)) (probes_of_counters_eq fun _ => rfl) s
  unfold refute
  dsimp only
  split
  · next heq =>
    rw [heq] at hinner
    exact hinner
  · next t heq =>
    rw [heq] at hinner
    exact hinner.trans (hk (t.mapEnv (·.rollback s.env.mark)))
  · next heq =>
    rw [heq] at hinner
    exact hinner

end Parts

section Nodes

variable {k : Action σ} {frame path : Path} (d : Domain) (rounds : Nat) (name : Symbol)
  (args : List Term)

theorem probes_queryFact (w : World) (hk : Probes k) :
    Probes (queryFact d w rounds name args path frame k) := by
  intro s
  unfold queryFact
  split
  · exact .refl _
  · split
    · exact .refl _
    · refine probes_scan path _ (fun i t => ?_) rounds s
      unfold tryRow
      split
      · exact .factProbe _ false
      · next values _ =>
        exact (Probed.factProbe t.counters true).trans
          (probes_binding (bindRow frame args values) hk (t.count (·.factProbe true)))

theorem probes_callAxiom {solveBody : Condition → Path → Path → Action σ → Action σ}
    (hbody : ∀ c callee k, Probes k → Probes (solveBody c callee callee k)) (hk : Probes k) :
    Probes (callAxiom d rounds solveBody name args path frame k) := by
  intro s
  unfold callAxiom
  split
  · exact .refl _
  · refine (Probed.axiomCall s.counters).trans
      (probes_scan path _ (fun i => ?_) rounds (s.count (·.axiomCall)))
    split
    · exact probes_of_counters_eq fun _ => rfl
    · refine probes_within probes_blocked fun callee t => ?_
      unfold callClause
      split
      · next env _ => exact hbody _ callee _ (probes_binding _ hk) { t with env }
      · exact .refl _

end Nodes

theorem solveWithin_probes (d : Domain) (w : World) (rounds depth : Nat) :
    ∀ (c : Condition) (parent frame : Path) (k : Action σ), Probes k →
      Probes (solveWithin d w rounds depth c parent frame k) := by
  induction depth with
  | zero => exact fun _ _ _ _ _ => probes_of_counters_eq fun _ => rfl
  | succ depth ih =>
    intro c parent frame k hk
    refine probes_within probes_blocked fun path => ?_
    cases c with
    | fact id name args => exact probes_queryFact d rounds name args w hk
    | derived id name args =>
      exact probes_callAxiom d rounds name args (fun c callee k hk => ih c callee callee k hk) hk
    | all id children =>
      show Probes (children.foldr (fun child k => solveWithin d w rounds depth child path frame k) k)
      induction children with
      | nil => exact hk
      | cons child children hrest => exact ih child path frame _ hrest
    | any id children =>
      refine probes_scan path _ (fun i => ?_) rounds
      split
      · exact probes_of_counters_eq fun _ => rfl
      · exact ih _ path frame k hk
    | not id child => exact probes_refute (fun k hk => ih child path frame k hk) hk

theorem solveGuard_probes (d : Domain) (w : World) (rounds : Nat) (c : Option Condition)
    (parent frame : Path) {k : Action σ} (hk : Probes k) :
    Probes (solveGuard d w rounds c parent frame k) := by
  cases c with
  | none => exact hk
  | some c => exact solveWithin_probes d w rounds _ c parent frame k hk

end Solver

end TaskNetwork
