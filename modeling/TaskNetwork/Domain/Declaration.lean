import TaskNetwork.Domain.Basic

/-! Declarations, and the calls in them. Fact queries that name an axiom become calls of it,
wherever the axiom is declared. -/

namespace TaskNetwork

inductive Declaration where
  | constant (c : Constant)
  | clause (c : Clause)
  /-- A method; a marked one is to be planned from if no goal is given. -/
  | method (m : Method) (marked : Bool)

/-- Why declarations make no domain. -/
inductive DeclarationError where
  | duplicateMethod (name : Symbol) (arity : Nat)
  | emptyMethod (name : Symbol)
  | emptyBranch (method branch : Symbol)
  | factArity (name : Symbol) (arity : Nat)
  | duplicateConstant (group name : Symbol)
  | unknownTopLevel (name : Symbol)
  | multipleTopLevel
deriving DecidableEq

def DeclarationError.message (names : SymbolTable) : DeclarationError → String
  | duplicateMethod name arity => s!"method `{names.name name}/{arity}` is defined more than once"
  | emptyMethod name => s!"method `{names.name name}` has no branches"
  | emptyBranch method branch =>
    s!"branch `{names.name branch}` of method `{names.name method}` has no tasks"
  | factArity name arity =>
    s!"fact query `{names.name name}` has arity {arity}, at most {maxArity} is supported"
  | duplicateConstant group name =>
    s!"constant `{names.name group}.{names.name name}` is defined more than once"
  | unknownTopLevel name =>
    s!"top-level method `{names.name name}` with no parameters is not defined"
  | multipleTopLevel => "more than one method is marked top-level"

namespace Declaration

def constant? : Declaration → Option Constant
  | constant c => some c
  | _ => none

def clause? : Declaration → Option Clause
  | clause c => some c
  | _ => none

def method? : Declaration → Option Method
  | method m _ => some m
  | _ => none

def mark? : Declaration → Option Symbol
  | method m true => some m.name
  | _ => none

end Declaration

mutual

/-- The condition with its fact queries told apart from axiom calls. What stays a query is no wider
than facts are. -/
def Condition.resolve (isAxiom : Symbol → Nat → Bool) :
    Condition → Except DeclarationError Condition
  | .fact id name args =>
    if isAxiom name args.length then .ok (.derived id name args)
    else if maxArity < args.length then .error (.factArity name args.length)
    else .ok (.fact id name args)
  | .derived id name args => .ok (.derived id name args)
  | .all id children => return .all id (← Condition.resolveAll isAxiom children)
  | .any id children => return .any id (← Condition.resolveAll isAxiom children)
  | .not id child => return .not id (← child.resolve isAxiom)

def Condition.resolveAll (isAxiom : Symbol → Nat → Bool) :
    List Condition → Except DeclarationError (List Condition)
  | [] => .ok []
  | c :: cs => do
    let c ← c.resolve isAxiom
    return c :: (← Condition.resolveAll isAxiom cs)

end

def Clause.resolve (isAxiom : Symbol → Nat → Bool) (c : Clause) : Except DeclarationError Clause :=
  return { c with condition := ← c.condition.resolve isAxiom }

/-- A branch has a task. -/
def Branch.resolve (isAxiom : Symbol → Nat → Bool) (method : Symbol) (b : Branch) :
    Except DeclarationError Branch :=
  if b.tasks.isEmpty then .error (.emptyBranch method b.name)
  else match b.condition with
    | none => .ok b
    | some condition => return { b with condition := some (← condition.resolve isAxiom) }

/-- A method has a branch. -/
def Method.resolve (isAxiom : Symbol → Nat → Bool) (m : Method) : Except DeclarationError Method :=
  if m.branches.isEmpty then .error (.emptyMethod m.name)
  else return { m with branches := ← m.branches.mapM (·.resolve isAxiom m.name) }

end TaskNetwork
