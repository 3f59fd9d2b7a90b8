import TaskNetwork.Decomposition.Branch

/-! The decomposition search. Each round takes the next task: a primitive one joins the plan, a
compound one is replaced by the tasks of the first branch whose condition holds. What was left
untried there is noted, and a task that fails goes back to the latest such note. -/

namespace TaskNetwork.Decomposition

open Solver

structure Search where
  agenda : Agenda := {}
  counters : Counters := {}

/-- Where a search goes from a round. -/
inductive Course where
  | onward
  | back
  /-- No task is left. -/
  | done
deriving DecidableEq

/-- Why a search yields no plan. -/
inductive Failure where
  | exhausted
  | error (e : SolveError)
deriving DecidableEq

namespace Search

def count (s : Search) (f : Counters → Counters) : Search := { s with counters := f s.counters }

/-- Adds a primitive task to the plan, if all its arguments are ground. -/
def takePrimitive (d : Domain) (t : PendingTask) (s : Search) : Course × Search :=
  match evalAll? d t.bindings.value t.call.args with
  | some args =>
    if args.all Value.isGround then
      (.onward, { s with agenda := s.agenda.addStep ⟨t.call.name, args⟩ }.count .primitive)
    else (.back, s.count .unresolvedPrimitive)
  | none => (.back, s.count .unresolvedPrimitive)

/-- Replaces a compound task by the tasks of the branch that is taken. If a solution or a branch is
left, the task is noted to be resumed there. -/
def replace (t : PendingTask) (m : Method) (b : TakenBranch) (s : Search) : Search :=
  let s :=
    if b.solution.more || b.choice.branch + 1 < m.branches.length then
      let agenda := s.agenda.remember { t with choice := b.choice }
      { s with agenda }.count (·.snapshot agenda.historyDepth)
    else s
  let agenda := s.agenda.pushAll b.branch.tasks b.solution.bindings
  { s with agenda }.count (·.pending agenda.pendingDepth)

/-- The branch to take for a compound task, if there is one. -/
def choose (d : Domain) (w : World) (rounds : Nat) (t : PendingTask) (m : Method)
    (actuals : List Value) (s : Search) : Except SolveError (Option TakenBranch) × Search :=
  let (reply, r) := takeBranch d w rounds m actuals (Path.ofTask t.scope) t.choice
    ⟨s.agenda.environment, s.counters, none⟩
  let s : Search := ⟨{ s.agenda with environment := r.env }, r.counters⟩
  match reply with
  | .fail e => (.error e, s)
  | .stop | .more => (.ok r.memory, s)

/-- Replaces a compound task, if its arguments can be read and a branch can be taken. -/
def expand (d : Domain) (w : World) (rounds : Nat) (t : PendingTask) (m : Method) (s : Search) :
    Except SolveError Course × Search :=
  match evalAll? d t.bindings.value t.call.args with
  | none => (.ok .back, s)
  | some actuals =>
    match choose d w rounds t m actuals (s.count .expansion) with
    | (.error e, s) => (.error e, s)
    | (.ok none, s) => (.ok .back, s)
    | (.ok (some b), s) => (.ok .onward, replace t m b s)

def step (d : Domain) (w : World) (rounds : Nat) (s : Search) :
    Except SolveError Course × Search :=
  let s := s.count .step
  match s.agenda.pop? with
  | none => (.ok .done, s)
  | some (t, agenda) =>
    let s := { s with agenda }
    match d.method? t.call.name t.call.arity with
    | some m => expand d w rounds t m s
    | none =>
      let (course, s) := takePrimitive d t s
      (.ok course, s)

/-- What a round leads to: another round, or the end of the search. -/
inductive Progress where
  | next (course : Course) (s : Search)
  | ended (outcome : Except Failure Plan) (s : Search)

/-- One round: takes the next task, goes back to the latest point noted, or ends the search. -/
def round (d : Domain) (w : World) (rounds : Nat) : Course → Search → Progress
  | .onward, s =>
    match step d w rounds s with
    | (.ok course, s) => .next course s
    | (.error e, s) => .ended (.error (.error e)) s
  | .back, s =>
    match s.agenda.goBack? with
    | some agenda => .next .onward ({ s with agenda := agenda.passOver }.count .restore)
    | none => .ended (.error .exhausted) s
  | .done, s =>
    let (plan, agenda) := s.agenda.takePlan
    .ended (.ok plan) { s with agenda }

/-- Goes on until there is a plan or nothing left to try, for at most the given number of rounds.
The nodes of conditions have `rounds` rounds each. -/
def loop (d : Domain) (w : World) (rounds : Nat) :
    Nat → Course → Search → Except Failure Plan × Search
  | 0, _, s => (.error (.error .unfinished), s)
  | left + 1, course, s =>
    match round d w rounds course s with
    | .next course s => loop d w rounds left course s
    | .ended outcome s => (outcome, s)

/-- Puts a task before all that earlier runs left pending. -/
def enter (root : Task) (s : Search) : Search :=
  let (scope, agenda) := s.agenda.freshScope
  { s with agenda := agenda.push { call := root, scope } }

/-- Decomposes a task, with at most the given number of rounds for any loop. What earlier runs left
pending or untried comes after it. -/
def run (d : Domain) (w : World) (rounds : Nat) (root : Task) (s : Search) :
    Except Failure Plan × Search :=
  loop d w rounds rounds .onward (s.enter root)

end Search

end TaskNetwork.Decomposition
