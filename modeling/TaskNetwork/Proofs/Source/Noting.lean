import TaskNetwork.Source.Domain
import TaskNetwork.Source.World

/-! Readers that take notes. They read as the readers without notes do, and note each state before a
step and each stage as it begins. -/

namespace TaskNetwork.Source

/-- The kinds of phrases that have a reader of their own. -/
inductive Kind where
  | declaration
  | constants
  | constant
  | clause
  | method
  | branch
  | conjunction
  | condition
  | task
  | terms
  | term
  | literal
  | fact
deriving DecidableEq

/-- The reader of a phrase begins, or a round of a repetition of such phrases. -/
inductive Stage where
  | phrase (k : Kind)
  | round (k : Kind)
deriving DecidableEq

/-- How many tokens have been taken. -/
def Reading.cursor (s : Reading) : Nat := s.size - s.tokens.length

/-- What has been noted, the latest first. -/
structure Notes where
  states : List Reading := []
  /-- Each stage with the cursor at which it began. -/
  stages : List (Stage × Nat) := []

namespace Notes

def see (notes : Notes) (s : Reading) : Notes := { notes with states := s :: notes.states }

def enter (notes : Notes) (stage : Stage) (s : Reading) : Notes :=
  { notes with stages := (stage, s.cursor) :: notes.stages }

end Notes

abbrev NotingReader := EStateM ReadError (Reading × Notes)

namespace Noting

variable {α : Type}

/-- One step of a reader, with the state before it noted. -/
def step (r : Reader α) : NotingReader α := fun (s, notes) =>
  match r s with
  | .ok a s' => .ok a (s', notes.see s)
  | .error e s' => .error e (s', notes.see s)

def enter (stage : Stage) : NotingReader Unit := fun (s, notes) => .ok () (s, notes.enter stage s)

def bounded (body : Nat → NotingReader α) : NotingReader α :=
  fun (s, notes) => body s.size (s, notes)

def unexpected (wanted : Wanted) : NotingReader α := do
  let t ← step Reader.current
  step (Reader.refuseAt t.place (.unexpected wanted t.token))

def eat (p : Punctuation) : NotingReader Bool := do
  match (← step Reader.current).token with
  | .mark q =>
    if q = p then
      let _ ← step Reader.advance
      return true
    else return false
  | _ => return false

def expect (p : Punctuation) : NotingReader Unit := do
  unless ← eat p do unexpected (.mark p)

def word (wanted : Wanted) : NotingReader String := do
  match (← step Reader.current).token with
  | .word name =>
    let _ ← step Reader.advance
    return name
  | _ => unexpected wanted

def keyword (name : String) : NotingReader Unit := do
  match (← step Reader.current).token with
  | .word found =>
    if found = name then
      let _ ← step Reader.advance
    else unexpected (.keyword name)
  | _ => unexpected (.keyword name)

def commaList (kind : Kind) (item : NotingReader α) : Nat → NotingReader (List α)
  | 0 => step (throw .stuck)
  | rounds + 1 => do
    enter (.round kind)
    let first ← item
    if ← eat .comma then return first :: (← commaList kind item rounds)
    return [first]

def itemsUntil (close : Punctuation) (kind : Kind) (item : NotingReader α) :
    Nat → NotingReader (List α)
  | 0 => step (throw .stuck)
  | rounds + 1 => do
    enter (.round kind)
    if ← eat close then return []
    let first ← item
    return first :: (← itemsUntil close kind item rounds)

def listUntil (close : Punctuation) (kind : Kind) (item : NotingReader α) :
    NotingReader (List α) := do
  if ← eat close then return []
  let items ← bounded (commaList kind item)
  expect close
  return items

def literalWithin : Nat → NotingReader Value
  | 0 => step (throw .stuck)
  | depth + 1 => do
    enter (.phrase .literal)
    let t ← step Reader.advance
    match t.token with
    | .number x => return .number x
    | .text s => return .text s
    | .word "true" => return .bool true
    | .word "false" => return .bool false
    | .word name =>
      if Reader.isWildcard name then step (Reader.refuseAt t.place (.wildcardLiteral name))
      else step (Reader.draft (Builder.symbolLiteral name))
    | .mark .openBracket =>
      return .list (← listUntil .closeBracket .literal (literalWithin depth))
    | found => step (Reader.refuseAt t.place (.unexpected .literal found))

def literal : NotingReader Value := bounded literalWithin

def term : NotingReader Term := do
  enter (.phrase .term)
  match (← step Reader.current).token with
  | .inputVar name => takeVariable .input name
  | .outputVar name => takeVariable .output name
  | .inOutVar name => takeVariable .inOut name
  | .word name =>
    if Reader.isWildcard name then takeVariable .wildcard name
    else if ← step (Reader.nextIs .dot) then
      let group ← word .group
      let _ ← step Reader.advance
      let name ← word .constantName
      step (Reader.draft (Builder.constantTerm group name))
    else return .literal (← literal)
  | _ => return .literal (← literal)
where
  takeVariable (role : Role) (name : String) : NotingReader Term := do
    let t ← step (Reader.draft (Builder.variableOf role name))
    let _ ← step Reader.advance
    return t

def terms : NotingReader (List Term) := do
  enter (.phrase .terms)
  listUntil .closeParen .term term

def conditionWithin : Nat → NotingReader Condition
  | 0 => step (throw .stuck)
  | depth + 1 => do
    enter (.phrase .condition)
    let name ← word .condition
    if ← eat .openParen then
      if name = "and" then
        step (Reader.draft (Builder.all
          (← listUntil .closeParen .condition (conditionWithin depth))))
      else if name = "or" then
        step (Reader.draft (Builder.any
          (← listUntil .closeParen .condition (conditionWithin depth))))
      else if name = "not" then
        enter (.phrase .conjunction)
        let child ← step (Reader.joined
          (← bounded (commaList .condition (conditionWithin depth))))
        expect .closeParen
        step (Reader.draft (Builder.not child))
      else step (Reader.draft (Builder.fact name (← terms)))
    else step (Reader.draft (Builder.fact name []))

def condition : NotingReader Condition := bounded conditionWithin

def conjunction : NotingReader Condition := do
  enter (.phrase .conjunction)
  step (Reader.joined (← bounded (commaList .condition condition)))

def task : NotingReader Task := do
  enter (.phrase .task)
  let name ← word .taskName
  expect .openParen
  step (Reader.draft (Builder.task name (← terms)))

def branch : NotingReader Branch := do
  enter (.phrase .branch)
  let label ← word .branchLabel
  expect .colon
  let condition ← match (← step Reader.current).token with
    | .mark .arrow => pure none
    | _ => some <$> conjunction
  expect .arrow
  let tasks ← bounded (commaList .task task)
  let _ ← eat .semicolon
  step (Reader.draft (Builder.branch label condition tasks))

def constant (group : String) : NotingReader Declaration := do
  enter (.phrase .constant)
  let name ← word .constantName
  expect .equals
  let value ← literal
  let _ ← eat .semicolon
  return .constant (← step (Reader.draft (Builder.constant group name value)))

def constants : NotingReader (List Declaration) := do
  enter (.phrase .constants)
  let group ← word .groupName
  expect .openBrace
  bounded (itemsUntil .closeBrace .constant (constant group))

def clause : NotingReader (List Declaration) := do
  enter (.phrase .clause)
  let name ← word .axiomName
  expect .openParen
  let params ← terms
  expect .openBrace
  let condition ← conjunction
  expect .closeBrace
  return [.clause (← step (Reader.draft (Builder.clause name params condition)))]

def method (marked : Bool) : NotingReader (List Declaration) := do
  enter (.phrase .method)
  let name ← word .methodName
  expect .openParen
  let params ← terms
  expect .openBrace
  let branches ← bounded (itemsUntil .closeBrace .branch branch)
  return [.method (← step (Reader.draft (Builder.method name params branches))) marked]

def declaration : NotingReader (List Declaration) := do
  enter (.phrase .declaration)
  let start ← step Reader.current
  let name ← word .declaration
  if name = "constants" then constants
  else if name = "axiom" then clause
  else if name = "method" then method false
  else if name = "top" then
    keyword "method"
    method true
  else step (Reader.refuseAt start.place (.unexpected .declarationKeyword (.word name)))

def declarations : Nat → NotingReader (List Declaration)
  | 0 => step (throw .stuck)
  | rounds + 1 => do
    enter (.round .declaration)
    match (← step Reader.current).token with
    | .finish => return []
    | _ => return (← declaration) ++ (← declarations rounds)

def fact (world : World) : NotingReader World := do
  enter (.phrase .fact)
  let start ← step Reader.current
  let name ← word .factName
  let args ← if ← eat .openParen then listUntil .closeParen .literal literal else pure []
  let _ ← eat .semicolon
  let symbol ← step (Reader.draft (Builder.intern name))
  match world.insert symbol args with
  | .ok world => return world
  | .error cause => step (Reader.refuseAt start.place (.refusedFact name cause))

def facts (world : World) : Nat → NotingReader World
  | 0 => step (throw .stuck)
  | rounds + 1 => do
    enter (.round .fact)
    match (← step Reader.current).token with
    | .finish => return world
    | _ => facts (← fact world) rounds

end Noting

end TaskNetwork.Source
