import TaskNetwork.Value.Format

/-! Plans: primitive tasks in order, with the values of their arguments. -/

namespace TaskNetwork

/-- A primitive task with its arguments. -/
structure Step where
  task : Symbol
  args : List Value

abbrev Plan := List Step

/-- A step as `task(arg, ...)`. -/
def Step.text (names : SymbolTable) (s : Step) : String :=
  names.name s.task ++ "(" ++ String.intercalate ", " (s.args.map (·.format names)) ++ ")"

/-- A step as a JSON object, with its keys in alphabetical order. -/
def Step.json (names : SymbolTable) (s : Step) : String :=
  Text.Json.object [
    ("args", Text.Json.array (s.args.map (·.json names))),
    ("task", Text.Json.string (names.name s.task))]

namespace Plan

def lines (names : SymbolTable) (p : Plan) : List String := p.map (·.text names)

def text (names : SymbolTable) (p : Plan) : String := String.join ((p.lines names).map (· ++ "\n"))

def json (names : SymbolTable) (p : Plan) : String := Text.Json.array (p.map (·.json names))

def taskName? (names : SymbolTable) (p : Plan) (i : Nat) : Option String :=
  p[i]?.map fun s => names.name s.task

end Plan

end TaskNetwork
