import TaskNetwork.Domain.Build
import TaskNetwork.Source.Lexer
import TaskNetwork.Source.Reader

/-! Domain text: groups of constants, axiom clauses and methods in any order. Conditions are joined
by commas and by `and`, `or` and `not`. -/

namespace TaskNetwork

namespace Source.Reader

/-- One condition stands for itself; several make a conjunction. -/
def joined : List Condition → Reader Condition
  | [single] => return single
  | items => draft (Builder.all items)

/-- A condition nested less than `depth` deep. The words `and`, `or` and `not` are connectives only
before a parenthesis. -/
def conditionWithin : Nat → Reader Condition
  | 0 => throw .stuck
  | depth + 1 => do
    let name ← word .condition
    if ← eat .openParen then
      if name = "and" then
        draft (Builder.all (← listUntil .closeParen (conditionWithin depth)))
      else if name = "or" then
        draft (Builder.any (← listUntil .closeParen (conditionWithin depth)))
      else if name = "not" then
        let child ← joined (← bounded (commaList (conditionWithin depth)))
        expect .closeParen
        draft (Builder.not child)
      else draft (Builder.fact name (← terms))
    else draft (Builder.fact name [])

def condition : Reader Condition := bounded conditionWithin

def conjunction : Reader Condition := do joined (← bounded (commaList condition))

/-- A task: a name with terms in parentheses. -/
def task : Reader Task := do
  let name ← word .taskName
  expect .openParen
  draft (Builder.task name (← terms))

/-- A branch: a label, conditions if there are any, and tasks after an arrow. -/
def branch : Reader Branch := do
  let label ← word .branchLabel
  expect .colon
  let condition ← match (← current).token with
    | .mark .arrow => pure none
    | _ => some <$> conjunction
  expect .arrow
  let tasks ← bounded (commaList task)
  let _ ← eat .semicolon
  draft (Builder.branch label condition tasks)

def constant (group : String) : Reader Declaration := do
  let name ← word .constantName
  expect .equals
  let value ← literal
  let _ ← eat .semicolon
  return .constant (← draft (Builder.constant group name value))

def constants : Reader (List Declaration) := do
  let group ← word .groupName
  expect .openBrace
  bounded (itemsUntil .closeBrace (constant group))

def clause : Reader (List Declaration) := do
  let name ← word .axiomName
  expect .openParen
  let params ← terms
  expect .openBrace
  let condition ← conjunction
  expect .closeBrace
  return [.clause (← draft (Builder.clause name params condition))]

def method (marked : Bool) : Reader (List Declaration) := do
  let name ← word .methodName
  expect .openParen
  let params ← terms
  expect .openBrace
  let branches ← bounded (itemsUntil .closeBrace branch)
  return [.method (← draft (Builder.method name params branches)) marked]

/-- One declaration; a group of constants makes several. -/
def declaration : Reader (List Declaration) := do
  let start ← current
  let name ← word .declaration
  if name = "constants" then constants
  else if name = "axiom" then clause
  else if name = "method" then method false
  else if name = "top" then
    keyword "method"
    method true
  else refuseAt start.place (.unexpected .declarationKeyword (.word name))

def declarations : Nat → Reader (List Declaration)
  | 0 => throw .stuck
  | rounds + 1 => do
    match (← current).token with
    | .finish => return []
    | _ => return (← declaration) ++ (← declarations rounds)

end Source.Reader

open Source

/-- Why a text describes no domain. -/
inductive DomainTextError where
  | unreadable (e : ReadError)
  | invalid (e : DeclarationError)

def DomainTextError.message (names : SymbolTable) : DomainTextError → String
  | unreadable e => e.message
  | invalid e => "invalid domain: " ++ e.message names

/-- The domain that a text describes. Its names are interned in `names` as they are read, also if an
error follows. -/
def Domain.read (text : String) (names : SymbolTable) :
    Except DomainTextError Domain × SymbolTable :=
  match tokens text with
  | .error e => (.error (.unreadable (.refused e)), names)
  | .ok tokens =>
    match (Reader.bounded Reader.declarations).run (.start tokens names) with
    | .ok declarations s =>
      ((Domain.ofDeclarations declarations).mapError .invalid, s.draft.symbols)
    | .error e s => (.error (.unreadable e), s.draft.symbols)

end TaskNetwork
