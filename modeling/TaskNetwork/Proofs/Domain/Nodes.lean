import TaskNetwork.Solver.Condition
import Mathlib.Data.List.Nodup
import Mathlib.Data.List.Pairwise

/-! The nodes of a domain and their identities: methods, branches, clauses and the conditions in
them, inner conditions included. -/

namespace TaskNetwork

mutual

/-- A condition and the conditions in it. -/
def Condition.nodes : Condition → List Condition
  | .fact id name args => [.fact id name args]
  | .derived id name args => [.derived id name args]
  | .all id children => .all id children :: Condition.nodesAll children
  | .any id children => .any id children :: Condition.nodesAll children
  | .not id child => .not id child :: child.nodes

def Condition.nodesAll : List Condition → List Condition
  | [] => []
  | c :: cs => c.nodes ++ Condition.nodesAll cs

end

namespace Condition

def nodeIds (c : Condition) : List NodeId := c.nodes.map (·.id)

theorem self_mem_nodes (c : Condition) : c ∈ c.nodes := by
  cases c <;> simp [nodes]

theorem nodesAll_eq_flatMap (cs : List Condition) : nodesAll cs = cs.flatMap nodes := by
  induction cs with
  | nil => rfl
  | cons c cs ih => rw [nodesAll, ih, List.flatMap_cons]

mutual

theorem length_nodes : (c : Condition) → c.nodes.length = c.size
  | .fact .. | .derived .. => rfl
  | .all _ children | .any _ children => by simp [nodes, size, length_nodesAll children]
  | .not _ child => by simp [nodes, size, length_nodes child]

theorem length_nodesAll : (cs : List Condition) → (nodesAll cs).length = sizeAll cs
  | [] => rfl
  | c :: cs => by simp [nodesAll, sizeAll, length_nodes c, length_nodesAll cs]

end

theorem nodes_sublist_nodesAll {c : Condition} {cs : List Condition} (h : c ∈ cs) :
    c.nodes.Sublist (nodesAll cs) := by
  rw [nodesAll_eq_flatMap]
  exact List.sublist_flatten_of_mem (List.mem_map_of_mem h)

mutual

theorem nodes_sublist : (c : Condition) → {x : Condition} → x ∈ c.nodes → x.nodes.Sublist c.nodes
  | .fact .., x, h | .derived .., x, h => by
    rw [nodes, List.mem_singleton] at h
    rw [h]
  | .all id children, x, h | .any id children, x, h => by
    rw [nodes, List.mem_cons] at h
    rcases h with rfl | h
    · exact List.Sublist.refl _
    · exact (nodes_sublist_all children h).cons _
  | .not id child, x, h => by
    rw [nodes, List.mem_cons] at h
    rcases h with rfl | h
    · exact List.Sublist.refl _
    · exact (nodes_sublist child h).cons _

theorem nodes_sublist_all : (cs : List Condition) → {x : Condition} → x ∈ nodesAll cs →
    x.nodes.Sublist (nodesAll cs)
  | [], _, h => nomatch h
  | c :: cs, x, h => by
    rw [nodesAll, List.mem_append] at h
    rw [nodesAll]
    rcases h with h | h
    · exact (nodes_sublist c h).trans (List.sublist_append_left _ _)
    · exact (nodes_sublist_all cs h).trans (List.sublist_append_right _ _)

end

theorem nodes_trans {c x y : Condition} (hx : x ∈ c.nodes) (hy : y ∈ x.nodes) : y ∈ c.nodes :=
  (nodes_sublist c hx).subset hy

theorem mem_nodes_of_mem_all {id : NodeId} {children : List Condition} {c : Condition}
    (h : c ∈ children) : c ∈ (Condition.all id children).nodes :=
  List.mem_cons_of_mem _ ((nodes_sublist_nodesAll h).subset c.self_mem_nodes)

theorem mem_nodes_of_mem_any {id : NodeId} {children : List Condition} {c : Condition}
    (h : c ∈ children) : c ∈ (Condition.any id children).nodes :=
  List.mem_cons_of_mem _ ((nodes_sublist_nodesAll h).subset c.self_mem_nodes)

theorem mem_nodes_not (id : NodeId) (child : Condition) : child ∈ (Condition.not id child).nodes :=
  List.mem_cons_of_mem _ child.self_mem_nodes

theorem ids_sublist_nodesAll (cs : List Condition) :
    (cs.map (·.id)).Sublist ((nodesAll cs).map (·.id)) := by
  induction cs with
  | nil => exact List.Sublist.refl _
  | cons c cs ih =>
    rw [nodesAll, List.map_append, List.map_cons, ← List.singleton_append]
    exact (List.singleton_sublist.mpr (List.mem_map_of_mem c.self_mem_nodes)).append ih

/-- Conjuncts of one conjunction differ, if the nodes of the condition do. -/
theorem siblings_nodup {c : Condition} (h : c.nodeIds.Nodup) {id : NodeId} {children : List Condition}
    (hx : .all id children ∈ c.nodes) : (children.map (·.id)).Nodup := by
  have hsub : ((Condition.all id children).nodes.map (·.id)).Sublist c.nodeIds :=
    (nodes_sublist c hx).map _
  have hnodup := hsub.nodup h
  simp only [nodes, List.map_cons, List.nodup_cons] at hnodup
  exact (ids_sublist_nodesAll children).nodup hnodup.2

theorem length_le_size_any {c : Condition} {id : NodeId} {children : List Condition}
    (hx : .any id children ∈ c.nodes) : children.length ≤ c.size := by
  have hle := (nodes_sublist c hx).length_le
  have hids := (ids_sublist_nodesAll children).length_le
  rw [length_nodes, length_nodes, size] at hle
  rw [List.length_map, List.length_map, length_nodesAll] at hids
  omega

end Condition

def Branch.nodeIds (b : Branch) : List NodeId :=
  b.id :: match b.condition with
    | none => []
    | some c => c.nodeIds

def Method.nodeIds (m : Method) : List NodeId := m.id :: m.branches.flatMap (·.nodeIds)

def Clause.nodeIds (c : Clause) : List NodeId := c.id :: c.condition.nodeIds

namespace Domain

def nodeIds (d : Domain) : List NodeId :=
  d.methods.flatMap (·.nodeIds) ++ d.clauses.toList.flatMap (·.nodeIds)

/-- The conditions of branches and clauses, inner ones included. -/
def conditions (d : Domain) : List Condition :=
  d.methods.flatMap (fun m => m.branches.flatMap fun b =>
    match b.condition with
    | none => []
    | some c => c.nodes) ++
  d.clauses.toList.flatMap (·.condition.nodes)

section Distinct

variable {d : Domain} {m : Method} {b : Branch} {c c' : Clause}

theorem clause_nodeIds_nodup (hd : d.nodeIds.Nodup) (hc : c ∈ d.clauses) : c.nodeIds.Nodup := by
  have h := (List.nodup_append.mp hd).2.1
  exact (List.nodup_flatMap.mp h).1 c (by simpa using hc)

theorem clauses_disjoint (hd : d.nodeIds.Nodup) (hc : c ∈ d.clauses) (hc' : c' ∈ d.clauses)
    (hne : c.id ≠ c'.id) : c.nodeIds.Disjoint c'.nodeIds := by
  have h := (List.nodup_flatMap.mp (List.nodup_append.mp hd).2.1).2
  have hne' : c ≠ c' := fun heq => hne (congrArg Clause.id heq)
  have : Std.Symm (Function.onFun List.Disjoint Clause.nodeIds) := ⟨fun _ _ h _ ha hb => h hb ha⟩
  exact h.forall (by simpa using hc) (by simpa using hc') hne'

theorem method_clause_disjoint (hd : d.nodeIds.Nodup) (hm : m ∈ d.methods) (hc : c ∈ d.clauses) :
    m.nodeIds.Disjoint c.nodeIds := by
  have h := (List.nodup_append.mp hd).2.2
  intro id hid hid'
  exact h id (List.mem_flatMap.mpr ⟨m, hm, hid⟩) id
    (List.mem_flatMap.mpr ⟨c, by simpa using hc, hid'⟩) rfl

theorem method_nodeIds_nodup (hd : d.nodeIds.Nodup) (hm : m ∈ d.methods) : m.nodeIds.Nodup :=
  (List.nodup_flatMap.mp (List.nodup_append.mp hd).1).1 m hm

theorem branch_nodeIds_subset (hb : b ∈ m.branches) : b.nodeIds ⊆ m.nodeIds :=
  fun _ hid => List.mem_cons_of_mem _ (List.mem_flatMap.mpr ⟨b, hb, hid⟩)

theorem branch_nodeIds_nodup (hd : d.nodeIds.Nodup) (hm : m ∈ d.methods) (hb : b ∈ m.branches) :
    b.nodeIds.Nodup :=
  (List.nodup_flatMap.mp (List.nodup_cons.mp (method_nodeIds_nodup hd hm)).2).1 b hb

/-- A method is no node of its branches. -/
theorem method_not_mem_branch (hd : d.nodeIds.Nodup) (hm : m ∈ d.methods) (hb : b ∈ m.branches) :
    m.id ∉ b.nodeIds := fun hid =>
  (List.nodup_cons.mp (method_nodeIds_nodup hd hm)).1 (List.mem_flatMap.mpr ⟨b, hb, hid⟩)

theorem condition_nodeIds_nodup (hd : d.nodeIds.Nodup) {x : Condition} (hx : x ∈ d.conditions) :
    x.nodeIds.Nodup := by
  have hsub {y : Condition} (hy : x ∈ y.nodes) (h : y.nodeIds.Nodup) : x.nodeIds.Nodup :=
    ((Condition.nodes_sublist y hy).map _).nodup h
  rcases List.mem_append.mp hx with h | h
  · obtain ⟨m, hm, h⟩ := List.mem_flatMap.mp h
    obtain ⟨b, hb, h⟩ := List.mem_flatMap.mp h
    have hnodup := branch_nodeIds_nodup hd hm hb
    cases hcond : b.condition with
    | none => simp [hcond] at h
    | some y =>
      rw [Branch.nodeIds, hcond] at hnodup
      rw [hcond] at h
      exact hsub h (List.nodup_cons.mp hnodup).2
  · obtain ⟨c, hc, h⟩ := List.mem_flatMap.mp h
    exact hsub h (List.nodup_cons.mp (clause_nodeIds_nodup hd (by simpa using hc))).2

end Distinct

end Domain

end TaskNetwork
