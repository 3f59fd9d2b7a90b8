import TaskNetwork.Planner
import TaskNetwork.Proofs.Domain.Built
import TaskNetwork.Proofs.Solver.Steadiness

/-! No binding, cursor or change outlives a task. Between two tasks no node is active, and when the
node of a method is left, what the search of its branches has kept goes with it. -/

namespace TaskNetwork.Decomposition

open Solver Environment

section Branches

theorem select_env (path : Path) (s : State Selection) : (select path s).2.env = s.env := by
  unfold select
  split <;> rfl

variable (d : Domain) (w : World) (rounds : Nat) (m : Method) (actuals : List Value)

theorem steady_branchSearch {top path : Path} (hin : path.isWithin top) (b : Branch) :
    Steady top (branchSearch d w rounds m b actuals path) := by
  intro active s hs
  have henter := hs.binds hin (binds_enterParams d path m.params actuals s.env)
  have hselect : Steady top (select path) := steady_of_env_eq (select_env path)
  unfold branchSearch
  split
  · next heq =>
    rw [heq] at henter
    exact steady_solveGuard d w rounds b.condition hin hselect active _ henter
  · next heq =>
    rw [heq] at henter
    exact henter

theorem held_solution? {top methodPath : Path} (hin : methodPath.isWithin top) (b : Branch)
    (skip : Nat) {active : Path → Prop} (s : State Unit) (hs : Held top active s.env) :
    Held top active (solution? d w rounds methodPath m b actuals skip s).2.env := by
  have hpath : (methodPath.child (.node b.id)).isWithin top :=
    Path.isWithin_trans (Path.child_isWithin methodPath _) hin
  have hsearch : Steady top (within methodPath (.node b.id) (fun s => (.more, s))
      (branchSearch d w rounds m b actuals)) :=
    steady_within (steady_of_env_eq fun _ => rfl)
      fun active s _ hs => steady_branchSearch d w rounds m actuals hpath b active s hs
  have hout := hsearch active ⟨s.env, s.counters, { skip }⟩ hs
  unfold solution?
  dsimp only
  split
  · next heq =>
    rw [heq] at hout
    exact hout
  · next heq =>
    rw [heq] at hout
    exact hout

theorem steady_tryBranch {top methodPath : Path} (hin : methodPath.isWithin top) (choice : Choice)
    (i : Nat) : Steady top (tryBranch d w rounds m actuals choice methodPath i) := by
  intro active s hs
  unfold tryBranch
  split
  · exact hs
  · next b _ =>
    have hsolution := held_solution? d w rounds m actuals hin b
      (if i = choice.branch then choice.solution else 0) ⟨s.env, s.counters, ()⟩ hs
    dsimp only
    split
    · next heq =>
      rw [heq] at hsolution
      exact hsolution
    · next heq =>
      rw [heq] at hsolution
      exact hsolution
    · next heq =>
      rw [heq] at hsolution
      exact hsolution

/-- Choosing a branch leaves nothing behind, with a branch or without one or with an error. -/
theorem takeBranch_env (root : Path) (choice : Choice) (s : State (Option TakenBranch))
    (hs : s.env = {}) : (takeBranch d w rounds m actuals root choice s).2.env = {} := by
  have hbody (path : Path) : Held path (· = path)
      (scan path m.branches.length (tryBranch d w rounds m actuals choice path) m.branches.length
        (s.mapEnv (·.setCursor path choice.branch))).2.env := by
    have hstart : Held path (· = path) (s.env.setCursor path choice.branch) := by
      rw [hs]
      exact (Held.empty path (· = path)).setCursor rfl choice.branch
    refine held_scan (steady_tryBranch d w rounds m actuals (Path.isWithin_refl path) choice) ?_ _ _
      hstart
    rfl
  unfold takeBranch within
  split
  · exact (hbody _).leave_eq_empty
  · exact hs

end Branches

/-- The searches that one interpreter comes to: before a round, with its course, and between two
runs. -/
inductive Visited (d : Domain) (w : World) (rounds : Nat) : Option Course → Search → Prop
  | fresh : Visited d w rounds none {}
  | enter {s : Search} (root : Task) : Visited d w rounds none s →
      Visited d w rounds (some .onward) (s.enter root)
  | next {course course' : Course} {s s' : Search} : Visited d w rounds (some course) s →
      s.round d w rounds course = .next course' s' → Visited d w rounds (some course') s'
  | ended {course : Course} {outcome : Except Failure Plan} {s s' : Search} :
      Visited d w rounds (some course) s → s.round d w rounds course = .ended outcome s' →
      Visited d w rounds none s'

/-- The boundaries of tasks. Besides the searches before and after each round these are the ones
within a round: when the next task was taken out, and when its branches were searched, which is when
it is noted to be resumed. -/
inductive Boundary (d : Domain) (w : World) (rounds : Nat) : Search → Prop
  | visited {course : Option Course} {s : Search} : Visited d w rounds course s →
      Boundary d w rounds s
  | taken {s : Search} {t : PendingTask} {agenda : Agenda} :
      Visited d w rounds (some .onward) s → s.agenda.pop? = some (t, agenda) →
      Boundary d w rounds (Search.count { s with agenda } .step)
  | chosen {s : Search} {t : PendingTask} {agenda : Agenda} {m : Method} {actuals : List Value} :
      Visited d w rounds (some .onward) s → s.agenda.pop? = some (t, agenda) →
      d.method? t.call.name t.call.arity = some m →
      evalAll? d t.bindings.value t.call.args = some actuals →
      Boundary d w rounds (Search.choose d w rounds t m actuals
        ((Search.count { s with agenda } .step).count .expansion)).2

/-- The search with which a round ends. -/
def Search.Progress.search : Search.Progress → Search
  | .next _ s | .ended _ s => s

section Rounds

variable {s : Search}

theorem pop?_environment {a agenda : Agenda} {t : PendingTask} (h : a.pop? = some (t, agenda)) :
    agenda.environment = a.environment := by
  unfold Agenda.pop? at h
  split at h
  · cases h
  · cases h
    rfl

theorem goBack?_environment {a agenda : Agenda} (h : a.goBack? = some agenda) :
    agenda.environment = a.environment := by
  unfold Agenda.goBack? at h
  split at h
  · cases h
  · cases h
    rfl

theorem passOver_environment (a : Agenda) : a.passOver.environment = a.environment := by
  unfold Agenda.passOver
  split <;> rfl

theorem pushAll_environment (a : Agenda) (calls : List Task) (bindings : Frame) :
    (a.pushAll calls bindings).environment = a.environment := by
  induction calls with
  | nil => rfl
  | cons call calls ih => exact ih

variable (d : Domain) (w : World) (rounds : Nat)

theorem choose_environment (t : PendingTask) (m : Method) (actuals : List Value)
    (hs : s.agenda.environment = {}) :
    (Search.choose d w rounds t m actuals s).2.agenda.environment = {} := by
  have htaken := takeBranch_env d w rounds m actuals (Path.ofTask t.scope) t.choice
    ⟨s.agenda.environment, s.counters, none⟩ hs
  unfold Search.choose
  dsimp only
  split <;> exact htaken

theorem takePrimitive_environment (t : PendingTask) :
    (Search.takePrimitive d t s).2.agenda.environment = s.agenda.environment := by
  unfold Search.takePrimitive
  split
  · split <;> rfl
  · rfl

theorem replace_environment (t : PendingTask) (m : Method) (b : TakenBranch) :
    (Search.replace t m b s).agenda.environment = s.agenda.environment := by
  unfold Search.replace
  dsimp only
  split <;> exact pushAll_environment _ _ _

theorem expand_environment (t : PendingTask) (m : Method) (hs : s.agenda.environment = {}) :
    (Search.expand d w rounds t m s).2.agenda.environment = {} := by
  unfold Search.expand
  split
  · exact hs
  · next actuals _ =>
    have hchosen := choose_environment (s := s.count .expansion) d w rounds t m actuals hs
    split
    · next heq =>
      rw [heq] at hchosen
      exact hchosen
    · next heq =>
      rw [heq] at hchosen
      exact hchosen
    · next heq =>
      rw [heq] at hchosen
      rw [replace_environment]
      exact hchosen

theorem step_environment (hs : s.agenda.environment = {}) :
    (Search.step d w rounds s).2.agenda.environment = {} := by
  unfold Search.step
  dsimp only
  split
  · exact hs
  · next hpop =>
    have hpopped := (pop?_environment hpop).trans hs
    split
    · exact expand_environment d w rounds _ _ hpopped
    · exact (takePrimitive_environment d _).trans hpopped

theorem round_environment (course : Course) (hs : s.agenda.environment = {}) :
    (s.round d w rounds course).search.agenda.environment = {} := by
  cases course with
  | onward =>
    have hstep := step_environment d w rounds hs
    rw [Search.round]
    split
    · next heq =>
      rw [heq] at hstep
      exact hstep
    · next heq =>
      rw [heq] at hstep
      exact hstep
  | back =>
    rw [Search.round]
    split
    · next hback => exact (passOver_environment _).trans ((goBack?_environment hback).trans hs)
    · exact hs
  | done => exact hs

variable {d w rounds} in
theorem visited_environment {course : Option Course} (h : Visited d w rounds course s) :
    s.agenda.environment = {} := by
  induction h with
  | fresh => rfl
  | enter root _ ih => exact ih
  | @next course course' s s' _ heq ih =>
    have hround := round_environment d w rounds course ih
    rw [heq] at hround
    exact hround
  | @ended course outcome s s' _ heq ih =>
    have hround := round_environment d w rounds course ih
    rw [heq] at hround
    exact hround

theorem run_environment (root : Task) (hs : s.agenda.environment = {}) :
    (Search.run d w rounds root s).2.agenda.environment = {} := by
  have hloop (left : Nat) (course : Course) (s : Search) (hs : s.agenda.environment = {}) :
      (Search.loop d w rounds left course s).2.agenda.environment = {} := by
    induction left generalizing course s with
    | zero => exact hs
    | succ left ih =>
      have hround := round_environment d w rounds course hs
      rw [Search.loop]
      split
      · next heq =>
        rw [heq] at hround
        exact ih _ _ hround
      · next heq =>
        rw [heq] at hround
        exact hround
  exact hloop rounds .onward (s.enter root) hs

end Rounds

/-- No environment entry is there at any boundary of tasks, nor after any runs on one interpreter,
however they ended, nor at the end of a planning call. -/
theorem boundary_environment (d : Domain) (w : World) (rounds : Nat) :
    (∀ s, Boundary d w rounds s → s.agenda.environment = {}) ∧
      (∀ roots : List Task, (roots.foldl (fun s root => (Search.run d w rounds root s).2)
        ({} : Search)).agenda.environment = {}) ∧
      (∀ m goal, (Planner.planMethod d w rounds m goal).report.residualEntries = 0) ∧
      ∀ names goal, (Planner.plan d w names rounds goal).report.residualEntries = 0 := by
  have hruns (roots : List Task) (s : Search) (hs : s.agenda.environment = {}) :
      (roots.foldl (fun s root => (Search.run d w rounds root s).2) s).agenda.environment = {} := by
    induction roots generalizing s with
    | nil => exact hs
    | cons root roots ih => exact ih _ (run_environment d w rounds root hs)
  have hmethod (m : Method) (goal : String) :
      (Planner.planMethod d w rounds m goal).report.residualEntries = 0 := by
    have hrun : (Search.run d w rounds ⟨m.name, []⟩ {}).2.agenda.environment = {} :=
      run_environment d w rounds _ rfl
    show (Search.run d w rounds ⟨m.name, []⟩ {}).2.agenda.environment.size = 0
    rw [hrun]
    rfl
  refine ⟨fun s h => ?_, fun roots => hruns roots {} rfl, hmethod, fun names goal => ?_⟩
  · cases h with
    | visited h => exact visited_environment h
    | taken h hpop => exact (pop?_environment hpop).trans (visited_environment h)
    | chosen h hpop hmethod hactuals =>
      exact choose_environment d w rounds _ _ _ ((pop?_environment hpop).trans (visited_environment h))
  · unfold Planner.plan
    split
    · exact hmethod _ _
    · rfl

open Roads in
theorem boundary_environment_roads :
    (Search.choose domain world 20 ⟨⟨⟨4⟩, []⟩, 0, [], {}⟩ (leave wayCalled) []
      ((Search.count { Search.enter ⟨⟨4⟩, []⟩ {} with agenda := { nextScope := 1 } } .step).count
        .expansion)).2.agenda.environment = {} ∧
      (Planner.planMethod domain world 20 (leave wayCalled) "leave").report.residualEntries = 0 := by
  obtain ⟨hboundary, -, hmethod, -⟩ := boundary_environment domain world 20
  have hvisited : Visited domain world 20 (some .onward) (Search.enter ⟨⟨4⟩, []⟩ {}) :=
    .enter _ .fresh
  have hpop : (Search.enter ⟨⟨4⟩, []⟩ {}).agenda.pop? =
      some (⟨⟨⟨4⟩, []⟩, 0, [], {}⟩, { nextScope := 1 }) := rfl
  have hactuals : evalAll? domain (Frame.value []) [] = some [] := rfl
  exact ⟨hboundary _ (.chosen hvisited hpop rfl hactuals), hmethod _ _⟩

end TaskNetwork.Decomposition
