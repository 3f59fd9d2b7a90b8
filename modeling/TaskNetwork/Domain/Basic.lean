import TaskNetwork.World

/-! Planning domains: named constants, clauses that derive facts from other facts, and methods that
replace a task by the tasks of one of their branches. Every node that a search can enter (methods,
branches, clauses and conditions) has an identity of its own. -/

namespace TaskNetwork

abbrev NodeId := Nat

/-- How a variable takes part in a call. -/
inductive Role where
  /-- Has to be bound when it is read. -/
  | input
  /-- As a parameter it starts unbound and only flows out. -/
  | output
  /-- Binds when unbound and constrains when bound. -/
  | inOut
  /-- Matches anything and never binds. -/
  | wildcard
deriving DecidableEq

inductive Term where
  | literal (value : Value)
  | var (role : Role) (name : Symbol)
  /-- A named constant of a group. -/
  | constant (group name : Symbol)
deriving Inhabited

/-- A task with its arguments. It is compound if a method of its name and arity exists, and
primitive otherwise. -/
structure Task where
  name : Symbol
  args : List Term

def Task.arity (c : Task) : Nat := c.args.length

inductive Condition where
  /-- Some row of a fact matches. -/
  | fact (id : NodeId) (name : Symbol) (args : List Term)
  /-- Some clause of that name and arity holds. -/
  | derived (id : NodeId) (name : Symbol) (args : List Term)
  | all (id : NodeId) (children : List Condition)
  | any (id : NodeId) (children : List Condition)
  | not (id : NodeId) (child : Condition)

def Condition.id : Condition → NodeId
  | fact id .. | derived id .. | all id _ | any id _ | not id _ => id

mutual

def Condition.size : Condition → Nat
  | .fact .. | .derived .. => 1
  | .all _ children | .any _ children => Condition.sizeAll children + 1
  | .not _ child => child.size + 1

def Condition.sizeAll : List Condition → Nat
  | [] => 0
  | c :: cs => c.size + Condition.sizeAll cs

end

/-- One way to carry out a task: a condition that has to hold, and the tasks to do then. -/
structure Branch where
  id : NodeId
  name : Symbol
  condition : Option Condition
  tasks : List Task

/-- The ways to carry out a compound task, the preferred ones first. -/
structure Method where
  id : NodeId
  name : Symbol
  params : List Term
  branches : List Branch

def Method.arity (m : Method) : Nat := m.params.length

/-- One clause of an axiom: its name holds of its parameters where its condition holds. -/
structure Clause where
  id : NodeId
  name : Symbol
  params : List Term
  condition : Condition

def Clause.arity (c : Clause) : Nat := c.params.length

structure Constant where
  group : Symbol
  name : Symbol
  value : Value

/-- A name and a number of parameters, by which methods and clauses are called. -/
abbrev Signature := Symbol × Nat

/-- What a domain is made of: constants by their group and name, clauses and methods in the order of
their declaration, and where those of each signature stand. -/
structure Domain.Parts where
  constants : Assignment (Symbol × Symbol) Value := []
  clauses : Array Clause := #[]
  methods : List Method := []
  methodIndex : Assignment Signature Nat := []
  clauseIndex : Assignment Signature (List Nat) := []
  /-- The place of the method to plan from if no goal is given. -/
  start : Option Nat := none

/-- Each signature leads to the first method that has it and to all clauses that have it. -/
structure Domain.Parts.Indexed (p : Domain.Parts) : Prop where
  methods : ∀ name arity, p.methodIndex.get? (name, arity) =
    p.methods.findIdx? fun m => m.name == name && m.arity == arity
  clauses : ∀ name arity, (p.clauseIndex.get? (name, arity)).getD [] =
    (p.clauses.toList.zipIdx.filter fun (c, _) => c.name == name && c.arity == arity).map (·.2)

/-- Everything that planning needs to know apart from the world. -/
structure Domain extends Domain.Parts where
  indexed : toParts.Indexed

namespace Domain

theorem toParts_inj {d d' : Domain} : d.toParts = d'.toParts ↔ d = d' := by
  refine ⟨fun h => ?_, fun h => congrArg toParts h⟩
  cases d
  cases d'
  cases h
  rfl

def empty : Domain := ⟨{}, fun _ _ => rfl, fun _ _ => rfl⟩

instance : Inhabited Domain := ⟨empty⟩

/-- The method that a task of this name and arity is replaced by. -/
def method? (d : Domain) (name : Symbol) (arity : Nat) : Option Method :=
  (d.methodIndex.get? (name, arity)).bind (d.methods[·]?)

/-- The places of an axiom's clauses among all clauses, in the order of declaration. -/
def clausePlaces (d : Domain) (name : Symbol) (arity : Nat) : List Nat :=
  (d.clauseIndex.get? (name, arity)).getD []

def constant? (d : Domain) (group name : Symbol) : Option Value := d.constants.get? (group, name)

/-- The method to plan from if no goal is given. -/
def top (d : Domain) : Option Method := d.start.bind (d.methods[·]?)

end Domain

end TaskNetwork
