import TaskNetwork.Environment
import TaskNetwork.Plan

/-! What a decomposition has still to do and has done, and the points at which it can take another
choice. Such a point keeps no environment, since no node is active between two tasks. -/

namespace TaskNetwork.Decomposition

/-- A place among the choices of a method: a branch, and how many solutions of its condition to
pass over. -/
structure Choice where
  branch : Nat := 0
  solution : Nat := 0
deriving DecidableEq, Inhabited

/-- A task that waits, with the bindings of the branch that called for it. -/
structure PendingTask where
  call : Task
  /-- The number of the task within the planning call. -/
  scope : Nat
  bindings : Frame := []
  /-- Where to go on among the choices of its method. -/
  choice : Choice := {}

/-- One point of a decomposition. -/
structure Point where
  /-- The tasks to do, the next one first. -/
  pending : List PendingTask := []
  plan : Array Step := #[]

/-- The present point, the points to come back to with the latest first, the bindings of active
nodes, and the next free number of a task. -/
structure Agenda where
  current : Point := {}
  history : List Point := []
  environment : Environment := {}
  nextScope : Nat := 0

namespace Agenda

def pendingDepth (a : Agenda) : Nat := a.current.pending.length

def historyDepth (a : Agenda) : Nat := a.history.length

def push (a : Agenda) (t : PendingTask) : Agenda :=
  { a with current.pending := t :: a.current.pending }

def pop? (a : Agenda) : Option (PendingTask × Agenda) :=
  match a.current.pending with
  | [] => none
  | t :: rest => some (t, { a with current.pending := rest })

/-- Notes the present point, with `resume` as its next task. -/
def remember (a : Agenda) (resume : PendingTask) : Agenda :=
  { a with history := { a.current with pending := resume :: a.current.pending } :: a.history }

def goBack? (a : Agenda) : Option Agenda :=
  match a.history with
  | [] => none
  | point :: rest => some { a with current := point, history := rest }

/-- Passes over one more solution in the next task. -/
def passOver (a : Agenda) : Agenda :=
  match a.current.pending with
  | [] => a
  | t :: rest =>
    let t := { t with choice.solution := t.choice.solution + 1 }
    { a with current.pending := t :: rest }

def addStep (a : Agenda) (s : Step) : Agenda :=
  { a with current.plan := a.current.plan.push s }

def plan (a : Agenda) : Plan := a.current.plan.toList

/-- Takes the plan, which is empty afterwards. -/
def takePlan (a : Agenda) : Plan × Agenda := (a.plan, { a with current.plan := #[] })

/-- How many numbers there are for tasks, which have 32 bits. -/
def scopeCount : Nat := 4294967296

/-- The next number of a task. Behind the last one they begin again. -/
def freshScope (a : Agenda) : Nat × Agenda :=
  (a.nextScope, { a with nextScope := (a.nextScope + 1) % scopeCount })

/-- Puts the tasks of a branch before all that are pending, so that the first is the next. The last
task takes the first number. -/
def pushAll (a : Agenda) (calls : List Task) (bindings : Frame) : Agenda :=
  calls.foldr (fun call a =>
    let (scope, a) := a.freshScope
    a.push { call, scope, bindings }) a

end Agenda

end TaskNetwork.Decomposition
