import TaskNetwork.Proofs.Decomposition.Errors
import TaskNetwork.Proofs.Solver.Substitution

/-! Resuming a choice. A branch is solved again from the start each time, and as many solutions are
passed over as were taken before. So one call after another takes the solutions of the branch in the
order in which the solver finds them, each once, and each call knows whether it takes the last. -/

namespace TaskNetwork.Decomposition

open Solver Environment

theorem filterMap_getElem?_range {α : Type} (as : List α) (count : Nat) :
    (List.range count).filterMap (as[·]?) = as.take count := by
  induction count with
  | zero => rfl
  | succ count ih =>
    rw [List.range_succ, List.filterMap_append, ih, List.take_add_one]
    cases h : as[count]? <;> simp [h]

section Branch

variable {d : Domain} {m : Method} {b : Branch} {rounds : Nat}

/-- With rounds enough, the search of a branch ends in no error. -/
theorem not_branchHalts {w : World} (hnarrow : d.Narrow) (hm : m ∈ d.methods) (hb : b ∈ m.branches)
    (hrounds : ∀ c, b.condition = some c → candidateBound d w c ≤ rounds) (e : SolveError) :
    ¬BranchHalts d w rounds b e := by
  rintro ⟨c, hc, hhalts⟩
  obtain rfl := AnyHalts.eq_unfinished hnarrow ⟨m, hm, b, hb, c, hc, hhalts⟩
  exact absurd (hrounds c hc) (Nat.not_le.mpr hhalts)

/-- With rounds enough, a branch gives the answer at the place it is asked for. -/
theorem solution?_of_rounds (hd : d.nodeIds.Nodup) (hnarrow : d.Narrow) (w : World)
    (hm : m ∈ d.methods) (hb : b ∈ m.branches)
    (hrounds : ∀ c, b.condition = some c → candidateBound d w c ≤ rounds) (actuals : List Value)
    (scope skip : Nat) {s : State Unit} (hs : s.env.Compact)
    (hclear : Clear (branchPath scope m b) s.env) :
    let answers := b.answers d w m actuals
    let (result, t) :=
      solution? d w rounds ((Path.ofTask scope).child (.node m.id)) m b actuals skip s
    result = .ok (answers[skip]?.map (⟨·, decide (skip + 1 < answers.length)⟩)) ∧ t.env = s.env := by
  rcases solution?_eq hd w rounds hm hb actuals scope skip hs hclear rfl with
    ⟨e, -, hhalts⟩ | hresult
  · exact absurd hhalts (not_branchHalts hnarrow hm hb hrounds e)
  · exact hresult

/-- A search of the condition of a branch that keeps all solutions finds the answers. -/
theorem solveGuard_gathers (hd : d.nodeIds.Nodup) (hnarrow : d.Narrow) (w : World)
    (hm : m ∈ d.methods) (hb : b ∈ m.branches)
    (hrounds : ∀ c, b.condition = some c → candidateBound d w c ≤ rounds) (scope : Nat)
    {env : Environment} (henv : env.Compact)
    (hclear : ∀ id, Clear ((branchPath scope m b).child (.node id)) env) :
    let path := branchPath scope m b
    let (reply, t) := solveGuard d w rounds b.condition path path (gather path) ⟨env, {}, []⟩
    reply = .more ∧ t.memory = guardAnswers d w b.condition (env.frame path) := by
  cases hcondition : b.condition with
  | none => exact ⟨rfl, rfl⟩
  | some c =>
    have hgathers := solve_gathers hd hnarrow w (foreign_branchPath hd hm hb hcondition scope).nodup
      (hnarrow.branches m hm b hb c hcondition) (hrounds c hcondition) (Path.isWithin_refl _) henv
      (hclear c.id)
    rw [pathAnswers_eq_answers hd w hm hb hcondition scope] at hgathers
    exact hgathers

/-- With the parameters bound, the answers of a branch are the solutions of its condition that the
solver finds, and otherwise there is none. -/
theorem answers_eq_gathered (hd : d.nodeIds.Nodup) (hnarrow : d.Narrow) (w : World)
    (hm : m ∈ d.methods) (hb : b ∈ m.branches)
    (hrounds : ∀ c, b.condition = some c → candidateBound d w c ≤ rounds) (actuals : List Value)
    (scope : Nat) {env : Environment} (henv : env.Compact)
    (hclear : Clear (branchPath scope m b) env) :
    let path := branchPath scope m b
    let entered := enterParams d path m.params actuals env
    let search := solveGuard d w rounds b.condition path path (gather path) ⟨entered.2, {}, []⟩
    search.1 = .more ∧ b.answers d w m actuals = if entered.1 then search.2.memory else [] := by
  intro path entered search
  obtain ⟨bound, env', henter, hbinds, hparams⟩ := enterParams_of_clear d hclear m.params actuals
  have hentered : entered = (bound, env') := henter
  obtain ⟨hmore, hmemory⟩ := solveGuard_gathers hd hnarrow w hm hb hrounds scope
    (hbinds.compact henv) fun id => hbinds.clear_child hclear (.node id)
  simp only [search, hentered]
  refine ⟨hmore, ?_⟩
  rw [Branch.answers, hparams]
  cases bound with
  | false => rfl
  | true => exact hmemory.symm

/-- The call that passes over `skip` solutions takes nothing if the parameters do not bind or the
condition has no more than that many, and otherwise the one at that place. It brings the environment
back. So the calls take the solutions in turn. -/
theorem choice_resumes {declarations : List Declaration}
    (hbuilt : Domain.ofDeclarations declarations = .ok d) (hd : d.nodeIds.Nodup) (w : World)
    (hm : m ∈ d.methods) (hb : b ∈ m.branches)
    (hrounds : ∀ c, b.condition = some c → candidateBound d w c ≤ rounds) (actuals : List Value)
    (scope : Nat) {s : State Unit} (hs : s.env.Reachable)
    (hclear : Clear (branchPath scope m b) s.env) :
    let path := branchPath scope m b
    let call (skip : Nat) :=
      solution? d w rounds ((Path.ofTask scope).child (.node m.id)) m b actuals skip s
    let entered := enterParams d path m.params actuals s.env
    let search := solveGuard d w rounds b.condition path path (gather path) ⟨entered.2, {}, []⟩
    let found := search.2.memory
    search.1 = .more ∧
      (∀ skip, (call skip).2.env = s.env ∧
        ((call skip).1 = .ok none ↔ entered.1 = false ∨ found.length ≤ skip) ∧
        ∀ g more, (call skip).1 = .ok (some ⟨g, more⟩) ↔
          entered.1 = true ∧ found[skip]? = some g ∧ more = decide (skip + 1 < found.length)) ∧
      (entered.1 = true → ∀ count, (List.range count).filterMap (fun skip =>
        (call skip).1.toOption.join.map (·.bindings)) = found.take count) := by
  intro path call entered search found
  have hnarrow := Domain.narrow_of_declarations hbuilt
  obtain ⟨hmore, hanswers⟩ := answers_eq_gathered hd hnarrow w hm hb hrounds actuals scope
    hs.compact hclear
  have hreply : search.1 = .more := hmore
  have hsolutions : b.answers d w m actuals = if entered.1 then found else [] := hanswers
  have hcall (skip : Nat) : (call skip).1 = .ok ((if entered.1 then found else [])[skip]?.map
      (⟨·, decide (skip + 1 < (if entered.1 then found else []).length)⟩)) ∧
      (call skip).2.env = s.env := by
    rw [← hsolutions]
    exact solution?_of_rounds hd hnarrow w hm hb hrounds actuals scope skip hs.compact hclear
  refine ⟨hreply, fun skip => ⟨(hcall skip).2, ?_, fun g more => ?_⟩, fun hentered count => ?_⟩
  · rw [(hcall skip).1]
    cases entered.1 <;> simp
  · rw [(hcall skip).1]
    cases entered.1 with
    | false => simp
    | true => simpa using fun _ => eq_comm
  · rw [← filterMap_getElem?_range]
    refine List.filterMap_congr fun skip _ => ?_
    rw [(hcall skip).1, hentered]
    show ((found[skip]?.map _).map Solution.bindings) = found[skip]?
    rw [Option.map_map]
    exact Option.map_id'

end Branch

open Roads in
/-- Roads from 0 to 1, which is closed, and from 1 to 2 and 3. -/
def fork : World :=
  .attemptAll .empty [⟨⟨0⟩, [place 0, place 1]⟩, ⟨⟨0⟩, [place 1, place 2]⟩,
    ⟨⟨0⟩, [place 1, place 3]⟩, ⟨⟨2⟩, [place 1]⟩]

open Roads in
/-- The ways from place 0 lead to places 2 and 3. -/
theorem choice_resumes_fork :
    let call (skip : Nat) := solution? domain fork 20 ((Path.ofTask 0).child (.node 12))
      (leave wayCalled) (walk wayCalled) [] skip ⟨{}, {}, ()⟩
    (call 0).1 = .ok (some ⟨[(⟨11⟩, place 2)], true⟩) ∧
      (call 1).1 = .ok (some ⟨[(⟨11⟩, place 3)], false⟩) ∧ (call 2).1 = .ok none := by
  intro call
  have hrounds (c : Condition) (hc : (walk wayCalled).condition = some c) :
      candidateBound domain fork c ≤ 20 := by
    obtain rfl := Option.some.inj hc
    decide
  obtain ⟨-, hcall, -⟩ := choice_resumes domain_built domain_distinct fork (m := leave wayCalled)
    (b := walk wayCalled) List.mem_cons_self List.mem_cons_self hrounds [] 0 (s := ⟨{}, {}, ()⟩)
    .empty (clear_empty _)
  have hfound : (solveGuard domain fork 20 (walk wayCalled).condition
      (branchPath 0 (leave wayCalled) (walk wayCalled))
      (branchPath 0 (leave wayCalled) (walk wayCalled))
      (gather (branchPath 0 (leave wayCalled) (walk wayCalled)))
      ⟨(enterParams domain (branchPath 0 (leave wayCalled) (walk wayCalled))
        (leave wayCalled).params [] {}).2, {}, []⟩).2.memory =
      [[(⟨11⟩, place 2)], [(⟨11⟩, place 3)]] := by decide +kernel
  simp only [hfound] at hcall
  refine ⟨((hcall 0).2.2 _ _).mpr ⟨rfl, rfl, rfl⟩, ((hcall 1).2.2 _ _).mpr ⟨rfl, rfl, rfl⟩,
    (hcall 2).2.1.mpr (.inr (Nat.le_refl _))⟩

end TaskNetwork.Decomposition
