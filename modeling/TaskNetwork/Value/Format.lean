import TaskNetwork.Decimal.Layout
import TaskNetwork.Text.Json
import TaskNetwork.Text.Quoted
import TaskNetwork.Value

/-! The two written forms of a value: the spelling it has in domain text and its JSON. -/

namespace TaskNetwork.Value

open Decimal

/-- Numbers in domain text have no exponent, and zero has no sign. -/
def numberLayout : Layout := ⟨.up, false, none, false⟩

/-- Numbers in JSON show a point or an exponent. Four zeros at most follow the point of a number
below one, and sixteen digits at most stand before the point. Of two equally near decimals the even
one is written. -/
def jsonLayout : Layout := ⟨.even, true, some (-5, 16), true⟩

mutual

/-- The spelling of a value in domain text. -/
def format (names : SymbolTable) : Value → String
  | unbound => "_"
  | bool b => if b then "true" else "false"
  | number x => numberLayout.write x
  | text s => Text.quoted s
  | symbol s => names.name s
  | list items => "[" ++ String.intercalate ", " (formatAll names items) ++ "]"

def formatAll (names : SymbolTable) : List Value → List String
  | [] => []
  | v :: vs => format names v :: formatAll names vs

end

theorem formatAll_eq_map (names : SymbolTable) (vs : List Value) :
    formatAll names vs = vs.map (format names) := by
  induction vs with
  | nil => rfl
  | cons v vs ih => simp [formatAll, ih]

/-- A number in JSON; what is not finite becomes `null`. -/
def jsonNumber (x : Float) : String :=
  match Exact.ofFloat x with
  | .finite .. => jsonLayout.write x
  | _ => "null"

mutual

/-- A value as compact JSON text. Symbols become their names. -/
def json (names : SymbolTable) : Value → String
  | unbound => "null"
  | bool b => if b then "true" else "false"
  | number x => jsonNumber x
  | text s => Text.Json.string s
  | symbol s => Text.Json.string (names.name s)
  | list items => Text.Json.array (jsonAll names items)

def jsonAll (names : SymbolTable) : List Value → List String
  | [] => []
  | v :: vs => json names v :: jsonAll names vs

end

theorem jsonAll_eq_map (names : SymbolTable) (vs : List Value) :
    jsonAll names vs = vs.map (json names) := by
  induction vs with
  | nil => rfl
  | cons v vs ih => simp [jsonAll, ih]

end TaskNetwork.Value
