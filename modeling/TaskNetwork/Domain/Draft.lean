import TaskNetwork.Domain.Basic

/-! Drafting a domain. The parts of a domain are made one after another; each takes the symbols of
its names and, if it is a node, the next free identity, so inner nodes come before outer ones. -/

namespace TaskNetwork

/-- The names interned so far and the next free identity. -/
structure Draft where
  symbols : SymbolTable := SymbolTable.empty
  nextNode : NodeId := 0

/-- A step that may intern names and use up identities. -/
abbrev Builder := StateM Draft

namespace Builder

def intern (name : String) : Builder Symbol := fun draft =>
  let (s, symbols) := draft.symbols.intern name
  (s, { draft with symbols })

def freshNode : Builder NodeId := fun draft =>
  (draft.nextNode, { draft with nextNode := draft.nextNode + 1 })

/-- A variable, named without the mark of its role. -/
def variableOf (role : Role) (name : String) : Builder Term := return .var role (← intern name)

/-- A variable from its spelling: `?x`, `+x` and `!x` are in-out, input and output variables; a
leading `_`, which belongs to the name, makes a wildcard; any other text names an in-out
variable. -/
def spelledVariable (spelling : String) : Builder Term :=
  match spelling.toList with
  | '?' :: name => variableOf .inOut (String.ofList name)
  | '+' :: name => variableOf .input (String.ofList name)
  | '!' :: name => variableOf .output (String.ofList name)
  | '_' :: _ => variableOf .wildcard spelling
  | _ => variableOf .inOut spelling

def symbolLiteral (name : String) : Builder Value := return .symbol (← intern name)

def constantTerm (group name : String) : Builder Term := do
  let group ← intern group
  return .constant group (← intern name)

/-- A query of a fact, or a call of the axiom that has this name and arity. -/
def fact (name : String) (args : List Term) : Builder Condition := do
  let name ← intern name
  return .fact (← freshNode) name args

def derived (name : String) (args : List Term) : Builder Condition := do
  let name ← intern name
  return .derived (← freshNode) name args

def all (children : List Condition) : Builder Condition := return .all (← freshNode) children

def any (children : List Condition) : Builder Condition := return .any (← freshNode) children

def not (child : Condition) : Builder Condition := return .not (← freshNode) child

def task (name : String) (args : List Term) : Builder Task := return ⟨← intern name, args⟩

def branch (name : String) (condition : Option Condition) (tasks : List Task) :
    Builder Branch := do
  let id ← freshNode
  return ⟨id, ← intern name, condition, tasks⟩

def method (name : String) (params : List Term) (branches : List Branch) : Builder Method := do
  let id ← freshNode
  return ⟨id, ← intern name, params, branches⟩

def clause (name : String) (params : List Term) (condition : Condition) : Builder Clause := do
  let id ← freshNode
  return ⟨id, ← intern name, params, condition⟩

def constant (group name : String) (value : Value) : Builder Constant := do
  let group ← intern group
  return ⟨group, ← intern name, value⟩

end Builder

end TaskNetwork
