import TaskNetwork.Decomposition.Search

/-! Planning a goal: the decomposition of a method without parameters, with its counters. -/

namespace TaskNetwork

open Decomposition

/-- Why there is no plan. -/
inductive NoPlan where
  /-- No such method without parameters. -/
  | unknownEntryPoint (name : String)
  | exhausted (goal : String)
  /-- A fact query is wider than facts are. -/
  | arityOutOfRange (fact : Symbol) (arity : Nat)
  | unfinished
deriving DecidableEq

namespace NoPlan

def message (names : SymbolTable) : NoPlan → String
  | unknownEntryPoint name => s!"no parameterless method `{name}` to plan from"
  | exhausted goal => s!"no plan found for `{goal}`"
  | arityOutOfRange fact arity =>
    s!"fact query `{names.name fact}` has arity {arity}, outside 0..={maxArity}"
  | unfinished => "the search was cut off"

def ofFailure (goal : String) : Failure → NoPlan
  | .exhausted => .exhausted goal
  | .error (.arityOutOfRange fact arity) => .arityOutOfRange fact arity
  | .error .unfinished => .unfinished

end NoPlan

namespace Planner

/-- A plan or why there is none, and the counters of the search for it. -/
structure Outcome where
  plan : Except NoPlan Plan
  report : Counters.Report

/-- Decomposes a method without parameters, with at most the given number of rounds for any loop. -/
def planMethod (d : Domain) (w : World) (rounds : Nat) (m : Method) (goal : String) : Outcome :=
  let (plan, s) := Search.run d w rounds ⟨m.name, []⟩ {}
  { plan := plan.mapError (.ofFailure goal)
    report := { s.counters with residualEntries := s.agenda.environment.size } }

/-- Plans from the method without parameters that is named `goal`. -/
def plan (d : Domain) (w : World) (names : SymbolTable) (rounds : Nat) (goal : String) : Outcome :=
  match (names.find? goal).bind (d.method? · 0) with
  | some m => planMethod d w rounds m goal
  | none => ⟨.error (.unknownEntryPoint goal), {}⟩

def planTop (d : Domain) (w : World) (names : SymbolTable) (rounds : Nat) : Except NoPlan Plan :=
  match d.top with
  | some m => (planMethod d w rounds m (names.name m.name)).plan
  | none => .error (.unknownEntryPoint "<top-level>")

end Planner

end TaskNetwork
