import TaskNetwork.Solver.Action
import TaskNetwork.Solver.Term

/-! Solving conditions. Solutions come in a fixed order: rows as they were inserted, clauses as they
were declared, alternatives from left to right, and for each solution of one conjunct all solutions
of the next. A node is never active twice on one path, so chains of axiom calls end. A conjunct that
has the identity of an earlier one shares its cursor and resets it, so the earlier one may try a
candidate again and again; the number of rounds of each node is therefore limited. -/

namespace TaskNetwork.Solver

variable {σ : Type}

def tryRow (w : World) (name : Symbol) (args : List Term) (query : List Value) (frame : Path)
    (k : Action σ) (i : Nat) : Action σ := fun s =>
  match w.matchRow? name args.length i query with
  | none => (.more, s.count (·.factProbe false))
  | some values => binding (bindRow frame args values) k (s.count (·.factProbe true))

/-- A query of a fact. Its arguments are read once, before the first row. -/
def queryFact (d : Domain) (w : World) (rounds : Nat) (name : Symbol) (args : List Term)
    (path frame : Path) (k : Action σ) : Action σ := fun s =>
  if maxArity < args.length then (.fail (.arityOutOfRange name args.length), s)
  else
    match evalAll? d (s.env.value frame) args with
    | none => (.more, s)
    | some query =>
      scan path (w.numRows name args.length) (tryRow w name args query frame k) rounds s

/-- A call of one clause. Its condition is solved in a frame of its own, from which the parameters
are handed back for each solution. -/
def callClause (d : Domain) (solveBody : Condition → Path → Path → Action σ → Action σ)
    (c : Clause) (actuals : List Value) (args : List Term) (frame : Path) (k : Action σ)
    (callee : Path) : Action σ := fun s =>
  match enterParams d callee c.params actuals s.env with
  | (true, env) =>
    solveBody c.condition callee callee (binding (handBackAll d callee frame c.params args) k)
      { s with env }
  | (false, env) => (.more, { s with env })

def callAxiom (d : Domain) (rounds : Nat)
    (solveBody : Condition → Path → Path → Action σ → Action σ) (name : Symbol) (args : List Term)
    (path frame : Path) (k : Action σ) : Action σ := fun s =>
  match evalAll? d (s.env.value frame) args with
  | none => (.more, s)
  | some actuals =>
    let places := d.clausePlaces name args.length
    let call (i : Nat) : Action σ :=
      match places[i]?.bind (d.clauses[·]?) with
      | none => fun s => (.more, s)
      | some c =>
        within path (.node c.id) blocked (callClause d solveBody c actuals args frame k)
    scan path places.length call rounds (s.count .axiomCall)

/-- A negation: one solution without bindings if the inner search finds none. -/
def refute (search : Action σ → Action σ) (k : Action σ) : Action σ := fun s =>
  let mark := s.env.mark
  match search (fun s => (.stop, s)) s with
  | (.stop, t) => (.more, t.mapEnv (·.rollback mark))
  | (.more, t) => k (t.mapEnv (·.rollback mark))
  | (.fail e, t) => (.fail e, t)

/-- Hands each solution of a condition to `k`. The condition becomes active below `parent` and binds
its variables in `frame`. Nodes may be nested less than `depth` deep, and each tries candidates for
at most `rounds` rounds. -/
def solveWithin (d : Domain) (w : World) (rounds : Nat) :
    Nat → Condition → Path → Path → Action σ → Action σ
  | 0, _, _, _, _ => fun s => (.fail .unfinished, s)
  | depth + 1, c, parent, frame, k =>
    within parent (.node c.id) blocked fun path =>
      match c with
      | .fact _ name args => queryFact d w rounds name args path frame k
      | .derived _ name args =>
        callAxiom d rounds (solveWithin d w rounds depth) name args path frame k
      | .all _ children =>
        children.foldr (fun child k => solveWithin d w rounds depth child path frame k) k
      | .any _ children =>
        let alternative (i : Nat) : Action σ :=
          match children[i]? with
          | none => fun s => (.more, s)
          | some child => solveWithin d w rounds depth child path frame k
        scan path children.length alternative rounds
      | .not _ child => refute (solveWithin d w rounds depth child path frame) k

/-- More than the number of nodes that can be active below one another while `c` is solved: nodes on
a path differ, and all of them belong to `c` or to a clause. -/
def nestingBound (d : Domain) (c : Condition) : Nat :=
  d.clauses.foldl (fun n clause => n + clause.condition.size) c.size + 1

def solve (d : Domain) (w : World) (rounds : Nat) (c : Condition) (parent frame : Path)
    (k : Action σ) : Action σ :=
  solveWithin d w rounds (nestingBound d c) c parent frame k

/-- Hands each solution of the condition of a branch to `k`; a missing one has one solution. -/
def solveGuard (d : Domain) (w : World) (rounds : Nat) (c : Option Condition)
    (parent frame : Path) (k : Action σ) : Action σ :=
  match c with
  | some c => solve d w rounds c parent frame k
  | none => k

end TaskNetwork.Solver
