import TaskNetwork.Assignment
import TaskNetwork.Value

/-! The world: facts in the order in which they were inserted. Each fact has one table per arity,
and a table is a list of rows without a uniqueness check, so a fact may hold of many rows and of one
row twice. -/

namespace TaskNetwork

/-- The largest arity of a fact. -/
def maxArity : Nat := 10

abbrev Row := List Value

inductive InsertError where
  | arityOutOfRange (arity : Nat)
  | unboundArgument (position : Nat)
deriving DecidableEq

def InsertError.message : InsertError → String
  | arityOutOfRange arity => s!"fact arity {arity} is outside 0..={maxArity}"
  | unboundArgument position => s!"fact argument {position} is not a ground value"

namespace Row

/-- Bound positions of the query equal those of the row. -/
def fits (stored : Row) (query : List Value) : Bool :=
  (query.zip stored).all fun (q, v) => !q.isBound || q == v

/-- Writes the row into the unbound positions of the query. -/
def fill : Row → List Value → List Value
  | v :: stored, q :: query => (if q.isBound then q else v) :: fill stored query
  | _, query => query

end Row

/-- The rows of one fact, apart for each arity. -/
structure FactTables where
  rows : Vector (Array Row) (maxArity + 1)
  wide : ∀ (arity : Nat) (h : arity < maxArity + 1), ∀ row ∈ rows[arity], row.length = arity

namespace FactTables

def empty : FactTables := ⟨.replicate _ #[], by simp⟩

@[simp] theorem getElem_rows_empty {arity : Nat} (h : arity < maxArity + 1) :
    empty.rows[arity] = #[] := Vector.getElem_replicate h

def push (t : FactTables) (row : Row) : FactTables where
  rows := ⟨t.rows.toArray.modify row.length (·.push row), by simp⟩
  wide := by
    intro arity h row' hrow'
    rw [Vector.getElem_mk, Array.getElem_modify] at hrow'
    split at hrow'
    next hlength =>
      rcases Array.mem_push.mp hrow' with hrow' | rfl
      · exact t.wide arity h row' hrow'
      · exact hlength
    next => exact t.wide arity h row' hrow'

end FactTables

/-- The tables of each fact that has a row, and the number of all rows, which is kept with them. -/
structure World where
  tables : Assignment Symbol FactTables := []
  size : Nat := 0

namespace World

def empty : World := {}

instance : Inhabited World := ⟨empty⟩

/-- Puts a row at the end of its table. The fact has at most `maxArity` arguments and all of them
are ground; otherwise it is refused. -/
def append (fact : Symbol) (args : Row) : EStateM InsertError World Unit := do
  if maxArity < args.length then throw (.arityOutOfRange args.length)
  if let some position := args.findIdx? (!·.isGround) then throw (.unboundArgument position)
  modify fun w => { w with tables := w.tables.update fact fun t => (t.getD .empty).push args }
  modify fun w => { w with size := w.size + 1 }

/-- The world with one more fact. -/
def insert (w : World) (fact : Symbol) (args : Row) : Except InsertError World :=
  match append fact args w with
  | .ok () w => .ok w
  | .error e _ => .error e

/-- The table of a fact for an arity that facts may have, if the fact has a row at all. -/
def table? (w : World) (fact : Symbol) (arity : Nat) : Option (Array Row) :=
  if h : arity ≤ maxArity then (w.tables.get? fact).map (·.rows[arity]) else none

def rows (w : World) (fact : Symbol) (arity : Nat) : Array Row := (w.table? fact arity).getD #[]

def numRows (w : World) (fact : Symbol) (arity : Nat) : Nat :=
  ((w.table? fact arity).map (·.size)).getD 0

/-- Matches a row against the query in the buffer. Unbound positions receive the values of the row,
but nothing is written before all bound ones were found equal. -/
def matchRow (w : World) (fact : Symbol) (arity row : Nat) : StateM (List Value) Bool := do
  if maxArity < arity ∨ (← get).length ≠ arity then return false
  let some stored := (w.table? fact arity).bind (·[row]?) | return false
  unless stored.fits (← get) do return false
  modify stored.fill
  return true

/-- What the buffer holds after a match. -/
def matchRow? (w : World) (fact : Symbol) (arity row : Nat) (query : List Value) :
    Option (List Value) :=
  match (w.matchRow fact arity row).run query with
  | (true, filled) => some filled
  | (false, _) => none

/-- The number of arities above 0 at which `fact` has a row. -/
def tableCount (w : World) (fact : Symbol) : Nat :=
  match w.tables.get? fact with
  | some t => (t.rows.toList.drop 1).countP (!·.isEmpty)
  | none => 0

def isEmpty (w : World) : Bool := w.size == 0

/-- The facts that have a row, in the order of their first rows. -/
def facts (w : World) : List Symbol := w.tables.map (·.1)

end World

end TaskNetwork
