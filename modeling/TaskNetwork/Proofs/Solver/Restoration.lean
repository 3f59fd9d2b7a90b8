import Mathlib
import TaskNetwork.Proofs.Domain.Built
import TaskNetwork.Proofs.Solver.Enumeration

/-! Solving a condition leaves no trace. Whether its answers ran out or were cut short, the
environment afterwards is the one before. A search that ends in an error leaves at most new bindings
in the frame in which the condition was entered. -/

namespace TaskNetwork.Solver

open Environment

/-- The environment after a search is the one before it, unless the search ends in an error of its
own, which leaves at most new bindings in `frame`. -/
theorem solve_restores {σ : Type} {d : Domain} (hd : d.nodeIds.Nodup) (w : World) (rounds : Nat)
    {c : Condition} (hc : c ∈ d.conditions ∨ c.nodeIds.Nodup) {parent frame : Path}
    (hframe : parent.isWithin frame) {k : Action σ}
    (hk : ∀ t, (∀ e, (k t).1 ≠ .fail e) ∧ (k t).2.env = t.env) {s : State σ}
    (hs : s.env.Reachable) (hclear : Clear (parent.child (.node c.id)) s.env) :
    match solve d w rounds c parent frame k s with
    | (.stop, t) | (.more, t) => t.env = s.env
    | (.fail e, t) => Halts d w rounds c e ∧ t.env.cursors = s.env.cursors ∧
        (∀ p, p ≠ frame → t.env.frames.get? p = s.env.frames.get? p) ∧
        ∀ name, (s.env.value frame name).isBound →
          t.env.value frame name = s.env.value frame name := by
  have hdistinct : c.nodeIds.Nodup := hc.elim (Domain.condition_nodeIds_nodup hd) id
  have hclauses (clause : Clause) (hclause : clause ∈ d.clauses) :
      clause.condition.nodeIds.Nodup :=
    (List.nodup_cons.mp (Domain.clause_nodeIds_nodup hd hclause)).2
  obtain ⟨htidy, hdelivered⟩ := solve_serves w rounds hdistinct hclauses hframe hs.compact hclear
    (· = frame) k rfl fun t _ => .of_eq (hk t).2 _
  cases hsolve : solve d w rounds c parent frame k s with
  | mk reply t =>
    rw [Tidy, hsolve] at htidy
    rw [hsolve] at hdelivered
    cases reply with
    | stop => exact htidy
    | more => exact htidy
    | fail e =>
      have hhalts : Halts d w rounds c e := by
        rcases hdelivered.halts_or_fails with hhalts | ⟨u, _, _, hfail⟩
        · exact hhalts
        · exact absurd (congrArg Prod.fst hfail) ((hk u).1 e)
      exact ⟨hhalts, htidy.cursors, htidy.frames, fun name => htidy.values frame name⟩

/-- A condition whose second query is wider than facts are. -/
def tooWide : Condition :=
  .all 20 [Roads.road 21 [Roads.var 10, Roads.var 11], .fact 22 ⟨3⟩ (.replicate 11 (Roads.var 10))]

open Roads in
/-- The first query has bound a variable when the search fails. -/
theorem solve_restores_tooWide :
    let path := Path.ofTask 0
    let env := Environment.empty.bind path ⟨10⟩ (place 1)
    ∃ t, solve domain world 20 tooWide path path (fun s => (.more, s)) ⟨env, {}, ()⟩ =
        (.fail (.arityOutOfRange ⟨3⟩ 11), t) ∧
      t.env.value path ⟨11⟩ = place 2 ∧ env.value path ⟨11⟩ = .unbound ∧
      t.env.cursors = env.cursors ∧
      (∀ p, p ≠ path → t.env.frames.get? p = env.frames.get? p) ∧
      ∀ name, (env.value path name).isBound → t.env.value path name = env.value path name := by
  intro path env
  have hbinds : Binds path {} env := .bind ⟨10⟩ (place 1) .refl rfl
  have hclear : Clear (path.child (.node tooWide.id)) env :=
    hbinds.clear_child (clear_empty path) (.node tooWide.id)
  have hdistinct : tooWide.nodeIds.Nodup := by decide
  have hrestores := solve_restores domain_distinct world 20 (.inr hdistinct)
    (Path.isWithin_refl path) (k := fun s => (.more, s)) (fun _ => ⟨fun _ h => (by cases h), rfl⟩)
    (s := ⟨env, {}, ()⟩) (.bind path ⟨10⟩ (place 1) .empty) hclear
  have hfails : (solve domain world 20 tooWide path path (fun s => (.more, s)) ⟨env, {}, ()⟩).1 =
      .fail (.arityOutOfRange ⟨3⟩ 11) := by cbv
  have hbound : (solve domain world 20 tooWide path path (fun s => (.more, s))
      ⟨env, {}, ()⟩).2.env.value path ⟨11⟩ = place 2 := by cbv
  have hsolve := Prod.fst_eq_iff.mp hfails
  rw [hsolve] at hrestores
  exact ⟨_, hsolve, hbound, rfl, hrestores.2⟩

end TaskNetwork.Solver
