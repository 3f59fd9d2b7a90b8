import TaskNetwork.Source.Lexer
import TaskNetwork.Source.Reader

/-! World text: one fact per declaration, a name with literals in parentheses, each optionally
followed by a semicolon. -/

namespace TaskNetwork

namespace Source.Reader

def fact (world : World) : Reader World := do
  let start ← current
  let name ← word .factName
  let args ← if ← eat .openParen then listUntil .closeParen literal else pure []
  let _ ← eat .semicolon
  let symbol ← draft (Builder.intern name)
  match world.insert symbol args with
  | .ok world => return world
  | .error cause => refuseAt start.place (.refusedFact name cause)

def facts (world : World) : Nat → Reader World
  | 0 => throw .stuck
  | rounds + 1 => do
    match (← current).token with
    | .finish => return world
    | _ => facts (← fact world) rounds

end Source.Reader

open Source

/-- The world that a text describes. Its names are interned in `names` as they are read, also if an
error follows. -/
def World.read (text : String) (names : SymbolTable) : Except ReadError World × SymbolTable :=
  match tokens text with
  | .error e => (.error (.refused e), names)
  | .ok tokens =>
    match (Reader.bounded (Reader.facts .empty)).run (.start tokens names) with
    | .ok world s => (.ok world, s.draft.symbols)
    | .error e s => (.error e, s.draft.symbols)

end TaskNetwork
