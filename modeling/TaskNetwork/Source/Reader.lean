import TaskNetwork.Domain.Draft
import TaskNetwork.Source.Error

/-! Reading tokens. A reader takes tokens from the front of a list that ends with `finish` and
drafts what they describe; `finish` itself is never taken. Repetitions are bounded by the number of
tokens of the text, since each round takes a token or ends. -/

namespace TaskNetwork.Source

/-- The tokens left, the number of tokens of the text and what has been drafted. -/
structure Reading where
  tokens : List Placed
  size : Nat
  draft : Draft

def Reading.start (tokens : List Placed) (names : SymbolTable) : Reading :=
  ⟨tokens, tokens.length, { symbols := names }⟩

inductive ReadError where
  | refused (e : SourceError)
  /-- The tokens ended without `finish`, or a repetition took none. -/
  | stuck

def ReadError.message : ReadError → String
  | refused e => e.message
  | stuck => "the reading did not come to an end"

abbrev Reader := EStateM ReadError Reading

namespace Reader

/-- Drafts a part of a domain. -/
def draft (part : Builder α) : Reader α := fun s =>
  let (a, draft) := part s.draft
  .ok a { s with draft }

def current : Reader Placed := fun s =>
  match s.tokens with
  | [] => .error .stuck s
  | t :: _ => .ok t s

def nextIs (p : Punctuation) : Reader Bool := fun s =>
  match s.tokens with
  | _ :: ⟨.mark q, _⟩ :: _ => .ok (q == p) s
  | _ => .ok false s

def advance : Reader Placed := fun s =>
  match s.tokens with
  | [] => .error .stuck s
  | t :: rest =>
    match t.token with
    | .finish => .ok t s
    | _ => .ok t { s with tokens := rest }

/-- A repetition that may go on for as many rounds as the text has tokens. -/
def bounded (body : Nat → Reader α) : Reader α := fun s => body s.size s

def refuseAt (place : Position) (fault : GrammarFault) : Reader α :=
  throw (.refused ⟨.grammatical fault, place⟩)

def unexpected (wanted : Wanted) : Reader α := do
  let t ← current
  refuseAt t.place (.unexpected wanted t.token)

def eat (p : Punctuation) : Reader Bool := do
  match (← current).token with
  | .mark q =>
    if q = p then
      let _ ← advance
      return true
    else return false
  | _ => return false

def expect (p : Punctuation) : Reader Unit := do
  unless ← eat p do unexpected (.mark p)

def word (wanted : Wanted) : Reader String := do
  match (← current).token with
  | .word name =>
    let _ ← advance
    return name
  | _ => unexpected wanted

def keyword (name : String) : Reader Unit := do
  match (← current).token with
  | .word found =>
    if found = name then
      let _ ← advance
    else unexpected (.keyword name)
  | _ => unexpected (.keyword name)

/-- One item, and one more after each comma. -/
def commaList (item : Reader α) : Nat → Reader (List α)
  | 0 => throw .stuck
  | rounds + 1 => do
    let first ← item
    if ← eat .comma then return first :: (← commaList item rounds)
    return [first]

/-- Items up to and including `close`. -/
def itemsUntil (close : Punctuation) (item : Reader α) : Nat → Reader (List α)
  | 0 => throw .stuck
  | rounds + 1 => do
    if ← eat close then return []
    let first ← item
    return first :: (← itemsUntil close item rounds)

/-- A comma list up to and including `close`; it may be empty. -/
def listUntil (close : Punctuation) (item : Reader α) : Reader (List α) := do
  if ← eat close then return []
  let items ← bounded (commaList item)
  expect close
  return items

/-- Wildcards are the words that start with `_`. -/
def isWildcard (name : String) : Bool := name.toList.head? == some '_'

/-- A literal whose lists are nested less than `depth` deep. -/
def literalWithin : Nat → Reader Value
  | 0 => throw .stuck
  | depth + 1 => do
    let t ← advance
    match t.token with
    | .number x => return .number x
    | .text s => return .text s
    | .word "true" => return .bool true
    | .word "false" => return .bool false
    | .word name =>
      if isWildcard name then refuseAt t.place (.wildcardLiteral name)
      else draft (Builder.symbolLiteral name)
    | .mark .openBracket => return .list (← listUntil .closeBracket (literalWithin depth))
    | found => refuseAt t.place (.unexpected .literal found)

def literal : Reader Value := bounded literalWithin

def term : Reader Term := do
  match (← current).token with
  | .inputVar name => takeVariable .input name
  | .outputVar name => takeVariable .output name
  | .inOutVar name => takeVariable .inOut name
  | .word name =>
    if isWildcard name then takeVariable .wildcard name
    else if ← nextIs .dot then
      let group ← word .group
      let _ ← advance
      let name ← word .constantName
      draft (Builder.constantTerm group name)
    else return .literal (← literal)
  | _ => return .literal (← literal)
where
  takeVariable (role : Role) (name : String) : Reader Term := do
    let t ← draft (Builder.variableOf role name)
    let _ ← advance
    return t

def terms : Reader (List Term) := listUntil .closeParen term

end Reader

end TaskNetwork.Source
