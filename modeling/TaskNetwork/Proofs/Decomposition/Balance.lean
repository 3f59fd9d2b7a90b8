import TaskNetwork.Proofs.Decomposition.Alternatives
import TaskNetwork.Proofs.Solver.Counting

/-! Counters that balance. Every step of a search is called for by a run, a primitive task, a branch
that was taken or a point that was restored, and every point that was noted is restored or still
noted. What one round counts keeps this balance, and so do whole runs on one interpreter. -/

namespace TaskNetwork.Decomposition

open Solver Counters

section Branches

variable (d : Domain) (w : World) (rounds : Nat) (m : Method) (actuals : List Value)

theorem branchSearch_probes (b : Branch) (path : Path) :
    Probes (branchSearch d w rounds m b actuals path) := by
  have hselect : Probes (select path) := probes_of_counters_eq fun s => by
    unfold select
    split <;> rfl
  intro s
  unfold branchSearch
  split
  · next env _ => exact solveGuard_probes d w rounds b.condition path path hselect { s with env }
  · exact .refl _

theorem solution?_probed (methodPath : Path) (b : Branch) (skip : Nat) (s : State Unit) :
    Probed s.counters (solution? d w rounds methodPath m b actuals skip s).2.counters := by
  have hsearch : Probes (within methodPath (.node b.id) (fun s => (.more, s))
      (branchSearch d w rounds m b actuals)) :=
    probes_within (probes_of_counters_eq fun _ => rfl)
      (branchSearch_probes d w rounds m actuals b)
  have hout := hsearch ⟨s.env, s.counters, { skip }⟩
  unfold solution?
  dsimp only
  split
  · next heq =>
    rw [heq] at hout
    exact hout
  · next heq =>
    rw [heq] at hout
    exact hout

/-- Besides probes, `after` counts branches that gave nothing, and those that were `taken`. -/
def Tried (taken : Nat) (before after : Counters) : Prop :=
  ∃ failed, Probed { before with
    branchesTried := before.branchesTried + failed + taken
    branchesFailed := before.branchesFailed + failed } after

theorem Tried.refl (c : Counters) : Tried 0 c c := ⟨0, .refl c⟩

theorem Tried.trans {taken : Nat} {before mid after : Counters} (h : Tried 0 before mid)
    (h' : Tried taken mid after) : Tried taken before after := by
  obtain ⟨failed, hothers, hle⟩ := h
  obtain ⟨failed', hothers', hle'⟩ := h'
  refine ⟨failed + failed', ?_, by simp only at *; omega⟩
  rw [hothers', hothers]
  simp only [Counters.mk.injEq, true_and, and_true]
  omega

/-- A search for a branch counts the one that it takes, and those before it as failed. -/
def CountsBranches (k : Action (Option TakenBranch)) : Prop :=
  ∀ s reply t, k s = (reply, t) → s.memory = none → (∀ e, reply ≠ .fail e) →
    Tried t.memory.toList.length s.counters t.counters ∧ (reply = .more → t.memory = none)

theorem tryBranch_counts (choice : Choice) (methodPath : Path) (i : Nat) :
    CountsBranches (tryBranch d w rounds m actuals choice methodPath i) := by
  intro s reply t heq hnone hreply
  unfold tryBranch at heq
  split at heq
  · cases heq
    exact ⟨hnone ▸ .refl _, fun _ => hnone⟩
  · next b _ =>
    have hprobed := solution?_probed d w rounds m actuals methodPath b
      (if i = choice.branch then choice.solution else 0) ⟨s.env, s.counters, ()⟩
    dsimp only at heq
    split at heq
    · cases heq
      exact absurd rfl (hreply _)
    · next t' hsolution =>
      rw [hsolution] at hprobed
      cases heq
      obtain ⟨hothers, hle⟩ := hprobed
      refine ⟨hnone ▸ ⟨1, ?_, hle⟩, fun _ => hnone⟩
      show t'.counters.branch false = _
      rw [hothers]
      rfl
    · next t' hsolution =>
      rw [hsolution] at hprobed
      cases heq
      obtain ⟨hothers, hle⟩ := hprobed
      refine ⟨⟨0, ?_, hle⟩, fun h => (by cases h)⟩
      show t'.counters.branch true = _
      rw [hothers]
      rfl

theorem scan_counts {path : Path} {count : Nat} {visit : Nat → Action (Option TakenBranch)}
    (hvisit : ∀ i, CountsBranches (visit i)) (rounds : Nat) :
    CountsBranches (scan path count visit rounds) := by
  induction rounds with
  | zero =>
    intro s reply t heq hnone hreply
    unfold scan at heq
    split at heq <;> cases heq
    · exact absurd rfl (hreply _)
    · exact ⟨hnone ▸ .refl _, fun _ => hnone⟩
  | succ rounds ih =>
    intro s reply t heq hnone hreply
    unfold scan at heq
    dsimp only at heq
    split at heq
    · split at heq
      · next t' hvisited =>
        obtain ⟨htried, hmore⟩ := hvisit _ s _ t' hvisited hnone (fun _ h => (by cases h))
        rw [hmore rfl] at htried
        obtain ⟨hrest, hlast⟩ := ih _ reply t heq (hmore rfl) hreply
        exact ⟨htried.trans hrest, hlast⟩
      · exact hvisit _ s reply t heq hnone hreply
    · cases heq
      exact ⟨hnone ▸ .refl _, fun _ => hnone⟩

theorem takeBranch_counts (root : Path) (choice : Choice) :
    CountsBranches (takeBranch d w rounds m actuals root choice) := by
  intro s reply t heq hnone hreply
  unfold takeBranch within at heq
  split at heq
  · generalize root.child (.node m.id) = path at heq
    let s' := s.mapEnv (·.setCursor path choice.branch)
    let r := scan path m.branches.length (tryBranch d w rounds m actuals choice path)
      m.branches.length s'
    cases heq
    exact scan_counts (tryBranch_counts d w rounds m actuals choice path) _ s' r.1 r.2 rfl hnone
      hreply
  · cases heq
    exact ⟨hnone ▸ ⟨0, .cycleBlocked _⟩, fun _ => hnone⟩

end Branches

/-- What has happened on an interpreter so far: the number of runs begun, the plans they found and
the depths that the history has had. -/
structure Past where
  runs : Nat := 0
  plans : List Plan := []
  depths : List Nat := []

/-- The history has had further depths. -/
def Past.reach (past : Past) (depths : List Nat) : Past :=
  { past with depths := past.depths ++ depths }

/-- A run has ended, perhaps with a plan. -/
def Past.conclude (past : Past) (outcome : Except Failure Plan) : Past :=
  { past with plans := past.plans ++ outcome.toOption.toList }

/-- The balance of counters with so many steps still due. -/
structure Balanced (past : Past) (due : Nat) (c : Counters) (a : Agenda) : Prop where
  steps : c.steps + c.branchesFailed + due =
    c.primitives + c.branchesTried + c.restores + past.runs
  branches : c.branchesFailed ≤ c.branchesTried
  snapshots : c.snapshots = c.restores + a.historyDepth
  depth_le : a.historyDepth ≤ c.maxHistory
  deepest : c.maxHistory ∈ past.depths ∧ ∀ n ∈ past.depths, n ≤ c.maxHistory
  probes : c.factMatches ≤ c.factProbes
  found : ∀ plan ∈ past.plans, plan.length ≤ c.primitives
  plans : ∀ q ∈ a.current :: a.history, q.plan.size ≤ c.primitives

/-- A step is due where the search goes onward. -/
def Course.due : Course → Nat
  | .onward => 1
  | .back | .done => 0

namespace Balanced

variable {past : Past} {due : Nat} {c c' : Counters} {a a' : Agenda}

/-- Pending tasks and bindings have no part in the balance. -/
theorem congr (h : Balanced past due c a) (hplan : a'.current.plan = a.current.plan)
    (hhistory : a'.history = a.history) : Balanced past due c a' := by
  have hdepth : a'.historyDepth = a.historyDepth := congrArg List.length hhistory
  have hplans := List.forall_mem_cons.mp h.plans
  rw [← hplan, ← hhistory] at hplans
  exact { h with
    snapshots := hdepth ▸ h.snapshots
    depth_le := hdepth ▸ h.depth_le
    plans := List.forall_mem_cons.mpr hplans }

theorem pop (h : Balanced past due c a) {t : PendingTask} (hpop : a.pop? = some (t, a')) :
    Balanced past due c a' := by
  unfold Agenda.pop? at hpop
  split at hpop
  · cases hpop
  · cases hpop
    exact h.congr rfl rfl

theorem step (h : Balanced past (due + 1) c a) : Balanced past due c.step a := by
  have hsteps := h.steps
  refine { h with steps := ?_ }
  simp only [Counters.step]
  omega

theorem expansion (h : Balanced past due c a) : Balanced past due c.expansion a :=
  { h with }

theorem unresolvedPrimitive (h : Balanced past due c a) :
    Balanced past due c.unresolvedPrimitive a :=
  { h with }

theorem pending (h : Balanced past due c a) (depth : Nat) :
    Balanced past due (c.pending depth) a :=
  { h with }

/-- A branch that was taken calls for a step. -/
theorem tried {taken : Nat} (h : Balanced past due c a) (htried : Tried taken c c') :
    Balanced past (due + taken) c' a := by
  obtain ⟨failed, hothers, hle⟩ := htried
  have hprobes : c'.factMatches ≤ c'.factProbes := by
    have := h.probes
    simp only at hle
    omega
  have hsteps := h.steps
  have hbranches := h.branches
  rw [hothers]
  refine { h with steps := ?_, branches := ?_, probes := hprobes }
  · simp only
    omega
  · simp only
    omega

/-- A primitive task calls for a step and is one more step of the plan. -/
theorem primitive (h : Balanced past due c a) (x : Step) :
    Balanced past (due + 1) c.primitive (a.addStep x) := by
  have hsteps := h.steps
  have hplans := List.forall_mem_cons.mp h.plans
  refine { h with steps := ?_, found := fun plan hplan => Nat.le_succ_of_le (h.found plan hplan),
                  plans := List.forall_mem_cons.mpr ⟨?_, fun q hq => ?_⟩ }
  · simp only [Counters.primitive]
    omega
  · simpa [Agenda.addStep, Counters.primitive] using hplans.1
  · exact Nat.le_succ_of_le (hplans.2 q hq)

theorem snapshot (h : Balanced past due c a) (resume : PendingTask) :
    Balanced (past.reach [(a.remember resume).historyDepth]) due
      (c.snapshot (a.remember resume).historyDepth) (a.remember resume) := by
  have hplans := List.forall_mem_cons.mp h.plans
  have hdeepest : max c.maxHistory (a.remember resume).historyDepth ∈
      past.depths ++ [(a.remember resume).historyDepth] := by
    rcases Nat.le_total c.maxHistory (a.remember resume).historyDepth with hdeeper | hdeeper
    · rw [Nat.max_eq_right hdeeper]
      exact List.mem_append_right _ (List.mem_singleton_self _)
    · rw [Nat.max_eq_left hdeeper]
      exact List.mem_append_left _ h.deepest.1
  refine { h with
    snapshots := congrArg (· + 1) h.snapshots
    depth_le := Nat.le_max_right _ _
    deepest := ⟨hdeepest, fun n hn => ?_⟩
    plans := List.forall_mem_cons.mpr ⟨hplans.1, List.forall_mem_cons.mpr hplans⟩ }
  rcases List.mem_append.mp hn with hn | hn
  · exact Nat.le_trans (h.deepest.2 n hn) (Nat.le_max_left _ _)
  · exact List.mem_singleton.mp hn ▸ Nat.le_max_right _ _

/-- A point that is restored calls for a step. -/
theorem restore (h : Balanced past due c a) (hback : a.goBack? = some a') :
    Balanced past (due + 1) c.restore a' := by
  unfold Agenda.goBack? at hback
  split at hback
  · cases hback
  · next point rest hhistory =>
    cases hback
    have hsteps := h.steps
    have hsnapshots := h.snapshots
    have hdepth := h.depth_le
    have hplans := List.forall_mem_cons.mp h.plans
    simp only [Agenda.historyDepth, hhistory, List.length_cons] at hsnapshots hdepth
    refine { h with steps := ?_, snapshots := ?_, depth_le := ?_, plans := hhistory ▸ hplans.2 }
    · simp only [Counters.restore]
      omega
    · simp only [Counters.restore, Agenda.historyDepth]
      omega
    · simp only [Counters.restore, Agenda.historyDepth]
      omega

/-- A depth that was reached before is no deeper one. -/
theorem noted (h : Balanced past due c a) :
    Balanced (past.reach [a.historyDepth]) due c a := by
  refine { h with deepest := ⟨List.mem_append_left _ h.deepest.1, fun n hn => ?_⟩ }
  rcases List.mem_append.mp hn with hn | hn
  · exact h.deepest.2 n hn
  · rw [List.mem_singleton.mp hn]
    exact h.depth_le

theorem conclude (h : Balanced past due c a) {outcome : Except Failure Plan}
    (hplan : ∀ plan, outcome = .ok plan → plan.length ≤ c.primitives) :
    Balanced (past.conclude outcome) due c a := by
  refine { h with found := fun plan hmem => ?_ }
  rcases List.mem_append.mp hmem with hmem | hmem
  · exact h.found plan hmem
  · cases outcome with
    | error e => cases hmem
    | ok p =>
      obtain rfl := List.mem_singleton.mp hmem
      exact hplan _ rfl

end Balanced

section Rounds

variable {d : Domain} {w : World} {past : Past} {rounds due : Nat} {s s' : Search}
  {t : PendingTask} {m : Method} {course course' : Course}

/-- What is known of the counters and the agenda of a search. -/
abbrev Search.Balanced (past : Past) (due : Nat) (s : Search) : Prop :=
  Decomposition.Balanced past due s.counters s.agenda

theorem takePrimitive_balanced (h : s.Balanced past 0) :
    (Search.takePrimitive d t s).2.Balanced past (Search.takePrimitive d t s).1.due := by
  unfold Search.takePrimitive
  split
  · split
    · exact h.primitive _
    · exact h.unresolvedPrimitive
  · exact h.unresolvedPrimitive

theorem choose_balanced {actuals : List Value} {result : Option TakenBranch}
    (h : s.Balanced past 0) (heq : Search.choose d w rounds t m actuals s = (.ok result, s')) :
    s'.Balanced past result.toList.length := by
  unfold Search.choose at heq
  cases htaken : takeBranch d w rounds m actuals (Path.ofTask t.scope) t.choice
      ⟨s.agenda.environment, s.counters, none⟩ with
  | mk reply r =>
    have hcounts := takeBranch_counts d w rounds m actuals (Path.ofTask t.scope) t.choice
      ⟨s.agenda.environment, s.counters, none⟩ reply r htaken rfl
    rw [htaken] at heq
    dsimp only at heq
    split at heq
    · cases heq
    all_goals
      cases heq
      obtain ⟨htried, -⟩ := hcounts fun _ h => (by cases h)
      have hbalanced := h.tried htried
      rw [Nat.zero_add] at hbalanced
      exact hbalanced.congr rfl rfl

theorem pushAll_balanced {c : Counters} {a : Agenda} (h : Balanced past due c a)
    (calls : List Task) (bindings : Frame) :
    Balanced past due (c.pending (a.pushAll calls bindings).pendingDepth)
      (a.pushAll calls bindings) := by
  obtain ⟨fresh, nextScope, -, heq⟩ := pushAll_eq a calls bindings
  rw [heq]
  refine Balanced.pending ?_ _
  exact h.congr rfl rfl

theorem replace_balanced (b : TakenBranch) (h : s.Balanced past due) :
    (Search.replace t m b s).Balanced
      (past.reach [(Search.replace t m b s).agenda.historyDepth]) due := by
  have hdepth (a : Agenda) :
      (a.pushAll b.branch.tasks b.solution.bindings).historyDepth = a.historyDepth := by
    obtain ⟨fresh, nextScope, -, heq⟩ := pushAll_eq a b.branch.tasks b.solution.bindings
    rw [heq]
    rfl
  have hpush {c : Counters} {a : Agenda} (h : Balanced (past.reach [a.historyDepth]) due c a) :
      Search.Balanced (past.reach [(a.pushAll b.branch.tasks b.solution.bindings).historyDepth]) due
        ⟨a.pushAll b.branch.tasks b.solution.bindings, c.pending
          (a.pushAll b.branch.tasks b.solution.bindings).pendingDepth⟩ := by
    rw [hdepth]
    exact pushAll_balanced h _ _
  unfold Search.replace
  split
  · exact hpush (h.snapshot _)
  · exact hpush h.noted

theorem expand_balanced (h : s.Balanced past 0)
    (heq : Search.expand d w rounds t m s = (.ok course, s')) :
    s'.Balanced (past.reach [s'.agenda.historyDepth]) course.due := by
  unfold Search.expand at heq
  split at heq
  · cases heq
    exact h.noted
  · next actuals _ =>
    have hexpansion : (s.count .expansion).Balanced past 0 := h.expansion
    split at heq
    · cases heq
    · next hchoose =>
      cases heq
      exact (choose_balanced hexpansion hchoose).noted
    · next hchoose =>
      cases heq
      exact replace_balanced _ (choose_balanced hexpansion hchoose)

theorem step_balanced (h : s.Balanced past 1)
    (heq : Search.step d w rounds s = (.ok course, s')) :
    s'.Balanced (past.reach [s'.agenda.historyDepth]) course.due := by
  have hstep : (s.count .step).Balanced past 0 := h.step
  unfold Search.step at heq
  dsimp only at heq
  split at heq
  · cases heq
    exact hstep.noted
  · next t agenda hpop =>
    have hpopped : Search.Balanced past 0 ⟨agenda, s.counters.step⟩ := hstep.pop hpop
    split at heq
    · exact expand_balanced hpopped heq
    · cases heq
      exact (takePrimitive_balanced hpopped).noted

theorem round_balanced (h : s.Balanced past course.due) :
    match s.round d w rounds course with
    | .next course' s' => s'.Balanced (past.reach [s'.agenda.historyDepth]) course'.due
    | .ended outcome s' => (∀ e, outcome ≠ .error (.error e)) →
      s'.Balanced ((past.reach [s'.agenda.historyDepth]).conclude outcome) 0 ∧
        (outcome = .error .exhausted → s'.agenda.history = []) := by
  cases course with
  | onward =>
    rw [Search.round]
    cases hstep : Search.step d w rounds s with
    | mk result s' =>
      cases result with
      | error e => exact fun hreturns => absurd rfl (hreturns e)
      | ok course' => exact step_balanced h hstep
  | back =>
    rw [Search.round]
    cases hback : s.agenda.goBack? with
    | none =>
      refine fun _ => ⟨h.noted.conclude fun _ h => (by cases h), fun _ => ?_⟩
      unfold Agenda.goBack? at hback
      split at hback
      · assumption
      · cases hback
    | some agenda =>
      have hrestored : Balanced past 1 s.counters.restore agenda.passOver := by
        refine (h.restore hback).congr ?_ ?_
        · unfold Agenda.passOver
          split <;> rfl
        · unfold Agenda.passOver
          split <;> rfl
      exact hrestored.noted
  | done =>
    rw [Search.round]
    have hplans := List.forall_mem_cons.mp h.plans
    have htaken : Balanced past 0 s.counters s.agenda.takePlan.2 :=
      { h with plans := List.forall_mem_cons.mpr ⟨Nat.zero_le _, hplans.2⟩ }
    refine fun _ => ⟨htaken.noted.conclude fun plan h => ?_, fun h => (by cases h)⟩
    cases h
    exact hplans.1

end Rounds

namespace Search

variable (d : Domain) (w : World) (rounds : Nat)

/-- The searches that a loop comes to, one after each round. -/
def visits : Nat → Course → Search → List Search
  | 0, _, _ => []
  | left + 1, course, s =>
    match round d w rounds course s with
    | .next course s => s :: visits left course s
    | .ended _ s => [s]

/-- The searches that runs on one interpreter come to, one root after the other. -/
def visitsAll : List Task → Search → List Search
  | [], s => [s]
  | root :: roots, s =>
    s :: visits d w rounds rounds .onward (s.enter root) ++
      visitsAll roots (run d w rounds root s).2

/-- The search after runs on one interpreter. -/
def afterAll (roots : List Task) (s : Search) : Search :=
  roots.foldl (fun s root => (run d w rounds root s).2) s

end Search

section Runs

variable {d : Domain} {w : World} {rounds : Nat} {past : Past} {s s' : Search}

/-- The depths that the histories of some searches have. -/
def historyDepths (visited : List Search) : List Nat := visited.map (·.agenda.historyDepth)

theorem loop_balanced (left : Nat) {course : Course} (h : s.Balanced past course.due)
    {outcome : Except Failure Plan} (heq : Search.loop d w rounds left course s = (outcome, s'))
    (hreturns : ∀ e, outcome ≠ .error (.error e)) :
    s'.Balanced ((past.reach (historyDepths (Search.visits d w rounds left course s))).conclude outcome) 0 ∧
      (outcome = .error .exhausted → s'.agenda.history = []) := by
  induction left generalizing past course s with
  | zero =>
    cases heq
    exact absurd rfl (hreturns _)
  | succ left ih =>
    rw [Search.loop] at heq
    rw [Search.visits]
    have hround := @round_balanced d w past rounds s course h
    cases hprogress : s.round d w rounds course with
    | next course' t =>
      rw [hprogress] at heq hround
      have hrest := ih hround heq
      rw [Past.reach, Past.reach, List.append_assoc] at hrest
      exact hrest
    | ended outcome' t =>
      rw [hprogress] at heq hround
      cases heq
      exact hround hreturns

theorem enter_balanced (h : s.Balanced past 0) (root : Task) :
    (s.enter root).Balanced { past with runs := past.runs + 1 } 1 := by
  have hentered : Balanced { past with runs := past.runs + 1 } 1 s.counters s.agenda :=
    { h with steps := congrArg (· + 1) h.steps }
  exact hentered.congr rfl rfl

/-- What runs on one interpreter add to the past. -/
def Past.runAll (d : Domain) (w : World) (rounds : Nat) (roots : List Task) (s : Search)
    (past : Past) : Past where
  runs := past.runs + roots.length
  plans := past.plans ++ (Search.outcomes d w rounds roots s).filterMap (·.toOption)
  depths := past.depths ++ historyDepths (Search.visitsAll d w rounds roots s)

theorem runs_balanced (roots : List Task) (h : s.Balanced past 0)
    (hreturns : ∀ outcome ∈ Search.outcomes d w rounds roots s, ∀ e, outcome ≠ .error (.error e)) :
    (Search.afterAll d w rounds roots s).Balanced (past.runAll d w rounds roots s) 0 ∧
      ((Search.outcomes d w rounds roots s).getLast? = some (.error .exhausted) →
        (Search.afterAll d w rounds roots s).agenda.history = []) := by
  induction roots generalizing past s with
  | nil =>
    have hpast : past.runAll d w rounds [] s = past.reach [s.agenda.historyDepth] := by
      simp [Past.runAll, Past.reach, Search.outcomes, Search.visitsAll, historyDepths]
    rw [hpast]
    exact ⟨h.noted, fun h => (by cases h)⟩
  | cons root roots ih =>
    cases hrun : Search.run d w rounds root s with
    | mk outcome t =>
      have houtcomes : Search.outcomes d w rounds (root :: roots) s =
          outcome :: Search.outcomes d w rounds roots t := by
        rw [Search.outcomes, hrun]
      rw [houtcomes, List.forall_mem_cons] at hreturns
      obtain ⟨hbalanced, hexhausted⟩ :=
        loop_balanced rounds (enter_balanced h.noted root) hrun hreturns.1
      obtain ⟨hrest, hlast⟩ := ih hbalanced hreturns.2
      have hafter : Search.afterAll d w rounds (root :: roots) s =
          Search.afterAll d w rounds roots t := by
        rw [Search.afterAll, List.foldl_cons, hrun, Search.afterAll]
      rw [hafter, houtcomes]
      constructor
      · have hpast : past.runAll d w rounds (root :: roots) s = Past.runAll d w rounds roots t
            (Past.conclude (Past.reach ⟨past.runs + 1, past.plans,
              past.depths ++ [s.agenda.historyDepth]⟩
              (historyDepths (Search.visits d w rounds rounds .onward (s.enter root)))) outcome) := by
          cases outcome <;> simp [Past.runAll, Past.reach, Past.conclude, houtcomes,
            Search.visitsAll, historyDepths, hrun, Except.toOption, Nat.add_assoc, Nat.add_comm 1]
        rw [hpast]
        exact hrest
      · intro hexhausted'
        cases roots with
        | nil => exact hexhausted (Option.some.inj hexhausted')
        | cons next roots =>
          rw [Search.outcomes, List.getLast?_cons_cons] at hexhausted'
          exact hlast hexhausted'

end Runs

/-- After runs on one fresh interpreter that all ended with a plan or without one, each step was
called for by a run, a primitive task, a branch that was taken or a point that was restored; each
point that was noted was restored or is noted still; the greatest depth counted is the greatest one
that the history had; and no plan is longer than the number of primitive tasks that were done. -/
theorem runs_counters_balance (d : Domain) (w : World) (rounds : Nat) (roots : List Task)
    (hreturns : ∀ outcome ∈ Search.outcomes d w rounds roots {},
      ∀ e, outcome ≠ .error (.error e)) :
    let s := Search.afterAll d w rounds roots {}
    let c := s.counters
    c.steps = c.primitives + (c.branchesTried - c.branchesFailed) + c.restores + roots.length ∧
      c.snapshots = c.restores + s.agenda.historyDepth ∧
      ((Search.outcomes d w rounds roots {}).getLast? = some (.error .exhausted) →
        c.snapshots = c.restores) ∧
      ((Search.visitsAll d w rounds roots {}).map (·.agenda.historyDepth)).max? =
        some c.maxHistory ∧
      c.branchesFailed ≤ c.branchesTried ∧
      c.factMatches ≤ c.factProbes ∧
      ∀ plan, .ok plan ∈ Search.outcomes d w rounds roots {} → plan.length ≤ c.primitives := by
  have hstart : Search.Balanced ⟨0, [], [0]⟩ 0 {} :=
    ⟨rfl, Nat.le_refl 0, rfl, Nat.le_refl 0, by simp, Nat.le_refl 0, by simp, by simp⟩
  obtain ⟨h, hexhausted⟩ := runs_balanced roots hstart hreturns
  intro s c
  have hsteps : c.steps + c.branchesFailed + 0 =
      c.primitives + c.branchesTried + c.restores + (0 + roots.length) := h.steps
  have hbranches : c.branchesFailed ≤ c.branchesTried := h.branches
  have hsnapshots : c.snapshots = c.restores + s.agenda.historyDepth := h.snapshots
  refine ⟨by omega, hsnapshots, fun hlast => ?_, List.max?_eq_some_iff.mpr ⟨?_, fun n hn => ?_⟩,
    hbranches, h.probes, fun plan hplan => ?_⟩
  · rw [hsnapshots, Agenda.historyDepth, hexhausted hlast]
    rfl
  · rcases List.mem_cons.mp h.deepest.1 with hfresh | hdeepest
    · -- No depth above that of the fresh search, which comes first.
      rw [hfresh]
      cases roots <;> exact List.mem_cons_self
    · exact hdeepest
  · exact h.deepest.2 n (List.mem_cons_of_mem _ hn)
  · exact h.found plan (List.mem_filterMap.mpr ⟨_, hplan, rfl⟩)

/-! Two plans, and twice no further one: what was noted on the way has been restored. -/

namespace Again

open Roads

def roots : List Task := ⟨⟨4⟩, []⟩ :: List.replicate 3 ⟨⟨5⟩, [var 11]⟩

def counted : Counters where
  steps := 9
  expansions := 2
  primitives := 2
  unresolvedPrimitives := 3
  branchesTried := 3
  branchesFailed := 1
  snapshots := 1
  restores := 1
  factProbes := 16
  factMatches := 8
  axiomCalls := 4
  cyclesBlocked := 2
  maxPending := 1
  maxHistory := 1

theorem outcomes_roots : Search.outcomes domain world 20 roots {} =
    [.ok [⟨⟨5⟩, [place 2]⟩], .ok [⟨⟨6⟩, []⟩], .error .exhausted, .error .exhausted] := by cbv

theorem counters_roots : (Search.afterAll domain world 20 roots {}).counters = counted := by cbv

end Again

open Again Roads in
theorem runs_counters_balance_roads :
    Search.outcomes domain world 20 roots {} =
        [.ok [⟨⟨5⟩, [place 2]⟩], .ok [⟨⟨6⟩, []⟩], .error .exhausted, .error .exhausted] ∧
      (Search.afterAll domain world 20 roots {}).counters = counted ∧
      counted.steps = counted.primitives + (counted.branchesTried - counted.branchesFailed) +
        counted.restores + roots.length ∧
      counted.snapshots = counted.restores ∧
      ((Search.visitsAll domain world 20 roots {}).map (·.agenda.historyDepth)).max? =
        some counted.maxHistory ∧
      counted.branchesFailed ≤ counted.branchesTried ∧
      counted.factMatches ≤ counted.factProbes ∧
      ∀ plan, .ok plan ∈ Search.outcomes domain world 20 roots {} →
        plan.length ≤ counted.primitives := by
  have hbalance := runs_counters_balance domain world 20 roots (by rw [outcomes_roots]; simp)
  simp only [counters_roots] at hbalance
  obtain ⟨hsteps, -, hrestored, hrest⟩ := hbalance
  have hexhausted := hrestored (by rw [outcomes_roots, List.getLast?_cons_cons]; rfl)
  exact ⟨outcomes_roots, counters_roots, hsteps, hexhausted, hrest⟩

end TaskNetwork.Decomposition
