import TaskNetwork.Environment

/-! Reading terms and binding variables. A binding that fails may leave earlier ones behind, which
the caller takes back. -/

namespace TaskNetwork

/-- The value of a term. An input variable has to be bound, a constant has to exist, and other
unbound variables read as `unbound`. -/
def Term.eval? (d : Domain) (lookup : Symbol → Value) : Term → Option Value
  | .literal v => some v
  | .constant group name => d.constant? group name
  | .var .wildcard _ => some .unbound
  | .var .input name =>
    let v := lookup name
    if v.isBound then some v else none
  | .var .inOut name | .var .output name => some (lookup name)

/-- The value of a term without the variables around it. -/
def Term.fixed? (d : Domain) (t : Term) : Option Value := t.eval? d fun _ => .unbound

def evalAll? (d : Domain) (lookup : Symbol → Value) (ts : List Term) : Option (List Value) :=
  ts.mapM (·.eval? d lookup)

namespace Solver

/-- Binds a variable, or compares its value if it is bound. -/
def unify (frame : Path) (name : Symbol) (v : Value) (env : Environment) : Bool × Environment :=
  let known := env.value frame name
  if known.isBound then (known == v, env) else (true, env.bind frame name v)

/-- Treats the pairs of two lists from left to right up to the first failure. -/
def eachPair (treat : α → β → Environment → Bool × Environment) :
    List α → List β → Environment → Bool × Environment
  | a :: as, b :: bs, env =>
    match treat a b env with
    | (true, env) => eachPair treat as bs env
    | (false, env) => (false, env)
  | _, _, env => (true, env)

/-- Binds the variable of a query to the value that was found for it. -/
def bindColumn (frame : Path) (t : Term) (v : Value) (env : Environment) : Bool × Environment :=
  match t with
  | .literal _ | .constant .. | .var .wildcard _ => (true, env)
  | .var _ name => unify frame name v env

def bindRow (frame : Path) : List Term → List Value → Environment → Bool × Environment :=
  eachPair (bindColumn frame)

/-- Binds a parameter to the caller's value. A parameter that is no variable has to agree with it;
an input needs a value, and an output ignores it. -/
def enterParam (d : Domain) (frame : Path) (param : Term) (actual : Value) (env : Environment) :
    Bool × Environment :=
  match param with
  | .var .wildcard _ | .var .output _ => (true, env)
  | .var .input name => if actual.isBound then unify frame name actual env else (false, env)
  | .var .inOut name => if actual.isBound then unify frame name actual env else (true, env)
  | .literal _ | .constant .. =>
    match param.fixed? d with
    | some expected => (!actual.isBound || expected == actual, env)
    | none => (false, env)

def enterParams (d : Domain) (frame : Path) :
    List Term → List Value → Environment → Bool × Environment :=
  eachPair (enterParam d frame)

/-- Hands the value of a parameter back to the caller's variable. Inputs and wildcards hand nothing
back. -/
def handBack (d : Domain) (callee caller : Path) (param arg : Term) (env : Environment) :
    Bool × Environment :=
  let deliver (target : Symbol) (v : Value) : Bool × Environment :=
    if v.isBound then unify caller target v env else (true, env)
  match arg with
  | .literal _ | .constant .. | .var .wildcard _ => (true, env)
  | .var _ target =>
    match param with
    | .var .inOut name | .var .output name => deliver target (env.value callee name)
    | .var .input _ | .var .wildcard _ => (true, env)
    | .literal _ | .constant .. =>
      match param.fixed? d with
      | some v => deliver target v
      | none => (false, env)

def handBackAll (d : Domain) (callee caller : Path) :
    List Term → List Term → Environment → Bool × Environment :=
  eachPair (handBack d callee caller)

end Solver

end TaskNetwork
