import TaskNetwork.Environment
import TaskNetwork.Counters

/-! The control of a search for solutions. A search hands each solution to an action, whose reply
says whether to go on. The state holds the bindings of the solution, the counters and whatever the
action itself keeps. -/

namespace TaskNetwork.Solver

/-- Why a search ends without an answer. -/
inductive SolveError where
  | arityOutOfRange (fact : Symbol) (arity : Nat)
  /-- The search went deeper or longer than it was allowed to. -/
  | unfinished
deriving DecidableEq

/-- What is to be done after a solution, and the outcome of a search. -/
inductive Reply where
  | stop
  /-- The next solution is wanted, or there was none. -/
  | more
  | fail (e : SolveError)
deriving DecidableEq

/-- The state of a search whose action keeps a `σ`. -/
structure State (σ : Type) where
  env : Environment
  counters : Counters
  memory : σ

abbrev Action (σ : Type) := State σ → Reply × State σ

variable {σ : Type}

def State.mapEnv (s : State σ) (f : Environment → Environment) : State σ :=
  { s with env := f s.env }

def State.count (s : State σ) (f : Counters → Counters) : State σ :=
  { s with counters := f s.counters }

/-- A node that is active already holds of nothing. -/
def blocked : Action σ := fun s => (.more, s.count .cycleBlocked)

/-- Makes a node active below `parent` for the time of `body`, and drops afterwards whatever was
bound at or below its path. If the node is active already, `refused` is done in place of it. -/
def within (parent : Path) (segment : Segment) (refused : Action σ) (body : Path → Action σ) :
    Action σ := fun s =>
  if Environment.admits parent segment then
    let path := parent.child segment
    let (reply, s) := body path s
    (reply, s.mapEnv (·.leave path))
  else refused s

/-- Makes bindings, goes on with `k` if they can be made, and takes them back. After an error they
stay. -/
def binding (make : Environment → Bool × Environment) (k : Action σ) : Action σ := fun s =>
  let mark := s.env.mark
  let (made, env) := make s.env
  match if made then k { s with env } else (.more, { s with env }) with
  | (.fail e, t) => (.fail e, t)
  | (reply, t) => (reply, t.mapEnv (·.rollback mark))

/-- Tries the candidates from the cursor at `path` up to `count`, at most `rounds` of them, until a
reply is not to go on. -/
def scan (path : Path) (count : Nat) (visit : Nat → Action σ) : Nat → Action σ
  | 0 => fun s => if s.env.cursor path < count then (.fail .unfinished, s) else (.more, s)
  | rounds + 1 => fun s =>
    let i := s.env.cursor path
    if i < count then
      match visit i s with
      | (.more, s) => scan path count visit rounds (s.mapEnv (·.advance path))
      | ended => ended
    else (.more, s)

end TaskNetwork.Solver
