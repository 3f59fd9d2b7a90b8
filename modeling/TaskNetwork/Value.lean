import TaskNetwork.Symbol

/-! The values that facts, variables and plan steps hold, and when two of them agree. -/

namespace TaskNetwork

/-- A value. `unbound` stands where nothing is known yet. -/
inductive Value where
  | unbound
  | bool (b : Bool)
  | number (x : Float)
  | text (s : String)
  | symbol (s : Symbol)
  | list (items : List Value)
deriving Inhabited

namespace Value

/-- Everything but `unbound` is bound, also a list with unbound items. -/
def isBound : Value → Bool
  | unbound => false
  | _ => true

mutual

/-- Bound all the way down. -/
def isGround : Value → Bool
  | unbound => false
  | list items => allGround items
  | _ => true

def allGround : List Value → Bool
  | [] => true
  | v :: vs => isGround v && allGround vs

end

theorem allGround_eq_all (vs : List Value) : allGround vs = vs.all isGround := by
  induction vs with
  | nil => rfl
  | cons v vs ih => simp [allGround, ih]

mutual

/-- Equality of values. Unbound values equal nothing, numbers compare as floats do, and lists
compare item by item. -/
def beq : Value → Value → Bool
  | bool a, bool b => a == b
  | number a, number b => a == b
  | text a, text b => a == b
  | symbol a, symbol b => a == b
  | list as, list bs => beqList as bs
  | _, _ => false

def beqList : List Value → List Value → Bool
  | [], [] => true
  | a :: as, b :: bs => beq a b && beqList as bs
  | _, _ => false

end

instance : BEq Value := ⟨beq⟩

end Value

end TaskNetwork
