import TaskNetwork.Decomposition.Agenda
import TaskNetwork.Solver.Condition

/-! Choosing a branch of a method. A choice counts the solutions to pass over, so a branch that is
resumed solves its condition again from the start. -/

namespace TaskNetwork.Decomposition

open Solver

/-- What is kept while the solutions of a branch are passed over: how many are still to be passed,
the bindings of the solution taken, and whether there is another one after it. -/
structure Selection where
  skip : Nat
  taken : Option Frame := none
  more : Bool := false

/-- Passes over solutions, takes the next one, and stops at the one after it. -/
def select (path : Path) : Action Selection := fun s =>
  match s.memory.skip, s.memory.taken with
  | skip + 1, _ => (.more, { s with memory.skip := skip })
  | 0, none => (.more, { s with memory.taken := some (s.env.frame path) })
  | 0, some _ => (.stop, { s with memory.more := true })

/-- The bindings of a solution, and whether the condition has another one after it. -/
structure Solution where
  bindings : Frame
  more : Bool

/-- Binds the parameters of the method and looks for a solution of the branch. -/
def branchSearch (d : Domain) (w : World) (rounds : Nat) (m : Method) (b : Branch)
    (actuals : List Value) (path : Path) : Action Selection := fun s =>
  match enterParams d path m.params actuals s.env with
  | (true, env) => solveGuard d w rounds b.condition path path (select path) { s with env }
  | (false, env) => (.more, { s with env })

/-- The solution of a branch after `skip` others. The branch is active below the path of its
method. -/
def solution? (d : Domain) (w : World) (rounds : Nat) (methodPath : Path) (m : Method)
    (b : Branch) (actuals : List Value) (skip : Nat) (s : State Unit) :
    Except SolveError (Option Solution) × State Unit :=
  let search := within methodPath (.node b.id) (fun s => (.more, s))
    (branchSearch d w rounds m b actuals)
  match search ⟨s.env, s.counters, { skip }⟩ with
  | (.fail e, t) => (.error e, ⟨t.env, t.counters, ()⟩)
  | (_, t) => (.ok (t.memory.taken.map (⟨·, t.memory.more⟩)), ⟨t.env, t.counters, ()⟩)

structure TakenBranch where
  branch : Branch
  choice : Choice
  solution : Solution

/-- One branch of a method as a candidate. Solutions are passed over only in the branch at which
`choice` stands. A branch with a solution to take is kept, and then no other is wanted. -/
def tryBranch (d : Domain) (w : World) (rounds : Nat) (m : Method) (actuals : List Value)
    (choice : Choice) (methodPath : Path) (i : Nat) : Action (Option TakenBranch) := fun s =>
  match m.branches[i]? with
  | none => (.more, s)
  | some b =>
    let skip := if i = choice.branch then choice.solution else 0
    match solution? d w rounds methodPath m b actuals skip ⟨s.env, s.counters, ()⟩ with
    | (.error e, t) => (.fail e, ⟨t.env, t.counters, s.memory⟩)
    | (.ok none, t) => (.more, ⟨t.env, t.counters.branch false, s.memory⟩)
    | (.ok (some solution), t) =>
      (.stop, ⟨t.env, t.counters.branch true, some ⟨b, ⟨i, skip⟩, solution⟩⟩)

/-- The first branch, from `choice` on, that has a solution to take. The method is active below
`root` meanwhile, with its cursor at the branch that is tried. -/
def takeBranch (d : Domain) (w : World) (rounds : Nat) (m : Method) (actuals : List Value)
    (root : Path) (choice : Choice) : Action (Option TakenBranch) :=
  within root (.node m.id) blocked fun path s =>
    scan path m.branches.length (tryBranch d w rounds m actuals choice path) m.branches.length
      (s.mapEnv (·.setCursor path choice.branch))

end TaskNetwork.Decomposition
