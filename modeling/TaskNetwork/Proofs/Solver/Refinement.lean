import TaskNetwork.Proofs.Domain.Built
import TaskNetwork.Proofs.Solver.Guard

/-! The solver finds what a condition means. Entered below a branch, with the bindings of the branch
in its frame, a search hands over the answers of the condition from these bindings, in order. -/

namespace TaskNetwork.Solver

open Environment

section Branch

variable {σ : Type} {d : Domain} {m : Method} {b : Branch} {c : Condition}

theorem solve_serves_answers (hd : d.nodeIds.Nodup) (w : World) (rounds : Nat) (hm : m ∈ d.methods)
    (hb : b ∈ m.branches) (hc : b.condition = some c) (scope : Nat) {s : State σ}
    (hs : s.env.Compact) (hclear : Clear ((branchPath scope m b).child (.node c.id)) s.env) :
    Serves (Halts d w rounds c) ((branchPath scope m b).child (.node c.id)) (branchPath scope m b)
      (c.answers d w (s.env.frame (branchPath scope m b)))
      (solve d w rounds c (branchPath scope m b) (branchPath scope m b)) s := by
  rw [← pathAnswers_eq_answers hd w hm hb hc scope]
  refine solve_serves w rounds (foreign_branchPath hd hm hb hc scope).nodup
    (fun clause hclause => ?_) (Path.isWithin_refl _) hs hclear
  exact (List.nodup_cons.mp (Domain.clause_nodeIds_nodup hd hclause)).2

/-- With rounds enough, the condition of a branch is solved by handing its answers to `k`, one by
one, up to the first that is not to be followed by another. -/
theorem solve_delivers_answers {declarations : List Declaration}
    (hbuilt : Domain.ofDeclarations declarations = .ok d) (hd : d.nodeIds.Nodup) (w : World)
    {rounds : Nat} (hm : m ∈ d.methods) (hb : b ∈ m.branches) (hc : b.condition = some c)
    (hrounds : candidateBound d w c ≤ rounds) (scope : Nat) {k : Action σ}
    (hk : ∀ t, (k t).2.env = t.env) {s : State σ} (hs : s.env.Reachable)
    (hclear : Clear ((branchPath scope m b).child (.node c.id)) s.env) :
    Delivered (fun _ => False) (fun _ => True) (branchPath scope m b) k
      (c.answers d w (s.env.frame (branchPath scope m b))) s.memory
      (solve d w rounds c (branchPath scope m b) (branchPath scope m b) k s).1
      (solve d w rounds c (branchPath scope m b) (branchPath scope m b) k s).2.memory := by
  have hnarrow := Domain.narrow_of_declarations hbuilt
  have hnone : ∀ e, ¬Halts d w rounds c e := by
    refine not_halts hrounds fun x hx id name args heq => ?_
    rcases hx with hx | ⟨clause, hclause, hx⟩
    · exact hnarrow.branches m hm b hb c hc id name args (heq ▸ hx)
    · exact hnarrow.clauses clause hclause id name args (heq ▸ hx)
  obtain ⟨-, hdelivered⟩ := solve_serves_answers hd w rounds hm hb hc scope hs.compact hclear
    (fun _ => True) k trivial fun t _ => .of_eq (hk t) _
  exact (hdelivered.mono fun _ _ => trivial).mono_halts hnone

end Branch

/-- Keeps the bindings of every solution. -/
def gather (path : Path) : Action (List Frame) := fun s =>
  (.more, { s with memory := s.memory ++ [s.env.frame path] })

open Roads in
theorem roads_delivered :
    let path := branchPath 0 (leave wayCalled) (walk wayCalled)
    (reachable wayCalled).answers domain world [] = [[(⟨11⟩, place 2)]] ∧
      Delivered (fun _ => False) (fun _ => True) path (gather path)
        ((reachable wayCalled).answers domain world []) []
        (solve domain world 20 (reachable wayCalled) path path (gather path) ⟨{}, {}, []⟩).1
        (solve domain world 20 (reachable wayCalled) path path (gather path) ⟨{}, {}, []⟩).2.memory := by
  have hrounds : candidateBound domain world (reachable wayCalled) ≤ 20 := by decide
  refine ⟨rfl, ?_⟩
  exact solve_delivers_answers domain_built domain_distinct world (m := leave wayCalled)
    (b := walk wayCalled) List.mem_cons_self List.mem_cons_self rfl hrounds 0
    (k := gather _) (fun _ => rfl) (s := ⟨{}, {}, []⟩) .empty (clear_empty _)

end TaskNetwork.Solver
