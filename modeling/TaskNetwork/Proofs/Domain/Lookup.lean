import TaskNetwork.Domain.Build

/-! Looking things up in a domain. The places that are noted for a signature are those that a search
from the first method or clause to the last one finds. -/

namespace TaskNetwork

section Places

variable {α : Type} (p : α → Bool) (as : List α)

theorem zipIdx_filter_map_fst : (as.zipIdx.filter (p ·.1)).map (·.1) = as.filter p :=
  calc (as.zipIdx.filter (p ·.1)).map (·.1)
    _ = (as.zipIdx.map Prod.fst).filter p := List.filter_map.symm
    _ = as.filter p := by rw [List.zipIdx_map_fst]

/-- The places of those that pass lead to those that pass. -/
theorem getElem?_zipIdx_filter (i : Nat) :
    ((as.zipIdx.filter (p ·.1)).map (·.2))[i]?.bind (as[·]?) = (as.filter p)[i]? := by
  rw [← zipIdx_filter_map_fst p as, List.getElem?_map, List.getElem?_map]
  cases h : (as.zipIdx.filter (p ·.1))[i]? with
  | none => rfl
  | some a =>
    exact List.mem_zipIdx_iff_getElem?.mp (List.mem_filter.mp (List.mem_of_getElem? h)).1

end Places

namespace Domain

section Searches

variable {d : Domain} {name : Symbol} {arity : Nat} {m : Method}

theorem method?_eq_find? (d : Domain) (name : Symbol) (arity : Nat) :
    d.method? name arity = d.methods.find? fun m => m.name == name && m.arity == arity := by
  rw [method?, d.indexed.methods]
  exact List.find?_eq_bind_findIdx?_getElem?.symm

theorem of_method?_eq_some (h : d.method? name arity = some m) :
    m ∈ d.methods ∧ m.name = name ∧ m.arity = arity := by
  rw [method?_eq_find?] at h
  have hfits := List.find?_some h
  rw [Bool.and_eq_true, beq_iff_eq, beq_iff_eq] at hfits
  exact ⟨List.mem_of_find?_eq_some h, hfits⟩

/-- The clauses of an axiom in the order of declaration. -/
def clausesOf (d : Domain) (name : Symbol) (arity : Nat) : Array Clause :=
  d.clauses.filter fun c => c.name == name && c.arity == arity

theorem mem_of_mem_clausesOf {c : Clause} (h : c ∈ d.clausesOf name arity) : c ∈ d.clauses :=
  (Array.mem_filter.mp h).1

theorem size_clausesOf_le (d : Domain) (name : Symbol) (arity : Nat) :
    (d.clausesOf name arity).size ≤ d.clauses.size := Array.size_filter_le ..

theorem clausePlaces_eq (d : Domain) (name : Symbol) (arity : Nat) :
    d.clausePlaces name arity =
      (d.clauses.toList.zipIdx.filter fun (c, _) => c.name == name && c.arity == arity).map (·.2) :=
  d.indexed.clauses name arity

theorem length_clausePlaces (d : Domain) (name : Symbol) (arity : Nat) :
    (d.clausePlaces name arity).length = (d.clausesOf name arity).size := by
  have hclauses := zipIdx_filter_map_fst (fun c => c.name == name && c.arity == arity)
    d.clauses.toList
  rw [clausePlaces_eq, clausesOf, ← Array.length_toList, Array.toList_filter, ← hclauses,
    List.length_map, List.length_map]

/-- The places lead to the clauses. -/
theorem getElem?_clausePlaces (d : Domain) (name : Symbol) (arity i : Nat) :
    (d.clausePlaces name arity)[i]?.bind (d.clauses[·]?) = (d.clausesOf name arity)[i]? := by
  have hclauses := getElem?_zipIdx_filter (fun c => c.name == name && c.arity == arity)
    d.clauses.toList i
  rw [clausePlaces_eq, clausesOf, ← Array.getElem?_toList, Array.toList_filter, ← hclauses]
  simp only [Array.getElem?_toList]

theorem mem_clausesOf_of_place {c : Clause} {i : Nat}
    (h : (d.clausePlaces name arity)[i]?.bind (d.clauses[·]?) = some c) :
    c ∈ d.clausesOf name arity :=
  Array.mem_of_getElem? ((d.getElem?_clausePlaces name arity i).symm.trans h)

end Searches

section Lists

/-- The place of each method by its signature, if the first one stands at `place`. -/
def indexMethods (place : Nat) (ms : List Method) : Assignment Signature Nat :=
  (ms.zipIdx place).map fun (m, place) => ((m.name, m.arity), place)

theorem indexMethods_cons (place : Nat) (m : Method) (ms : List Method) :
    indexMethods place (m :: ms) = ((m.name, m.arity), place) :: indexMethods (place + 1) ms := rfl

theorem get?_indexMethods (name : Symbol) (arity place : Nat) (ms : List Method) :
    (indexMethods place ms).get? (name, arity) =
      (ms.findIdx? fun m => m.name == name && m.arity == arity).map (· + place) := by
  induction ms generalizing place with
  | nil => rfl
  | cons m ms ih =>
    rw [indexMethods_cons, Assignment.get?, ih, List.findIdx?_cons]
    by_cases hkey : (m.name, m.arity) = (name, arity)
    · obtain ⟨rfl, rfl⟩ := Prod.mk.inj hkey
      simp
    · have hfalse : (m.name == name && m.arity == arity) = false := beq_false_of_ne hkey
      simp [hkey, hfalse, Function.comp_def, Nat.add_assoc, Nat.add_comm 1]

theorem indexMethods_map {f : Method → Method}
    (hf : ∀ m, (f m).name = m.name ∧ (f m).arity = m.arity) (place : Nat) (ms : List Method) :
    indexMethods place (ms.map f) = indexMethods place ms := by
  induction ms generalizing place with
  | nil => rfl
  | cons m ms ih => rw [List.map_cons, indexMethods_cons, indexMethods_cons, (hf m).1, (hf m).2, ih]

/-- The domain that has these, each noted at its place. -/
def ofLists (constants : List Constant) (clauses : List Clause) (methods : List Method)
    (start : Option Nat) : Domain where
  constants := constants.map fun c => ((c.group, c.name), c.value)
  clauses := clauses.toArray
  methods
  methodIndex := indexMethods 0 methods
  clauseIndex := indexClauses [] 0 clauses
  start
  indexed := by
    constructor
    · intro name arity
      simp [get?_indexMethods]
    · intro name arity
      rw [get?_indexClauses]
      rfl

end Lists

end Domain

end TaskNetwork
