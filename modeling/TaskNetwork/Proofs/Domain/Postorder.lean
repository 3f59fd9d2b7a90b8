import TaskNetwork.Proofs.Domain.Identities
import TaskNetwork.Proofs.Domain.Validity
import Mathlib.Data.List.Perm.Basic

/-! The identities of nodes with inner nodes before outer ones. Where they increase in this order,
each node has a greater identity than the nodes in it. -/

namespace TaskNetwork

mutual

/-- The identities of a condition and the conditions in it, inner ones first. -/
def Condition.postIds : Condition → List NodeId
  | .fact id .. | .derived id .. => [id]
  | .all id children | .any id children => Condition.postIdsAll children ++ [id]
  | .not id child => child.postIds ++ [id]

def Condition.postIdsAll : List Condition → List NodeId
  | [] => []
  | c :: cs => c.postIds ++ Condition.postIdsAll cs

end

def Branch.postIds (b : Branch) : List NodeId :=
  (b.condition.map (·.postIds)).getD [] ++ [b.id]

def Method.postIds (m : Method) : List NodeId := m.branches.flatMap (·.postIds) ++ [m.id]

def Clause.postIds (c : Clause) : List NodeId := c.condition.postIds ++ [c.id]

def Declaration.postIds : Declaration → List NodeId
  | .constant _ => []
  | .clause c => c.postIds
  | .method m _ => m.postIds

section Reordered

theorem Condition.postIdsAll_eq_flatMap (cs : List Condition) :
    postIdsAll cs = cs.flatMap (·.postIds) := by
  induction cs with
  | nil => rfl
  | cons c cs ih => rw [postIdsAll, ih, List.flatMap_cons]

mutual

theorem Condition.postIds_perm : (c : Condition) → c.postIds.Perm c.nodeIds
  | .fact .. | .derived .. => .refl _
  | .all id children | .any id children =>
    (List.perm_append_singleton id _).trans ((Condition.postIdsAll_perm children).cons id)
  | .not id child =>
    (List.perm_append_singleton id _).trans ((Condition.postIds_perm child).cons id)

theorem Condition.postIdsAll_perm : (cs : List Condition) →
    (Condition.postIdsAll cs).Perm ((Condition.nodesAll cs).map (·.id))
  | [] => .refl _
  | c :: cs => by
    rw [Condition.nodesAll, List.map_append]
    exact (Condition.postIds_perm c).append (Condition.postIdsAll_perm cs)

end

theorem Branch.postIds_perm (b : Branch) : b.postIds.Perm b.nodeIds := by
  refine (List.perm_append_singleton b.id _).trans (List.Perm.cons b.id ?_)
  cases b.condition with
  | none => exact .refl _
  | some c => exact c.postIds_perm

theorem Method.postIds_perm (m : Method) : m.postIds.Perm m.nodeIds :=
  (List.perm_append_singleton m.id _).trans
    ((List.Perm.flatMap_left m.branches fun b _ => b.postIds_perm).cons m.id)

theorem Clause.postIds_perm (c : Clause) : c.postIds.Perm c.nodeIds :=
  (List.perm_append_singleton c.id _).trans (c.condition.postIds_perm.cons c.id)

theorem Declaration.postIds_perm : (d : Declaration) → d.postIds.Perm d.nodeIds
  | .constant _ => .refl _
  | .clause c => c.postIds_perm
  | .method m _ => m.postIds_perm

end Reordered

section Queries

variable {f : NodeId → Symbol → List Term → Condition}

mutual

/-- A query that is replaced leaves its identity to what comes in its place. -/
theorem Condition.postIds_mapQueries (hf : ∀ id name args, (f id name args).postIds = [id]) :
    (c : Condition) → (c.mapQueries f).postIds = c.postIds
  | .fact id name args => hf id name args
  | .derived .. => rfl
  | .all id children | .any id children =>
    congrArg (· ++ [id]) (Condition.postIdsAll_mapQueries hf children)
  | .not id child => congrArg (· ++ [id]) (Condition.postIds_mapQueries hf child)

theorem Condition.postIdsAll_mapQueries (hf : ∀ id name args, (f id name args).postIds = [id]) :
    (cs : List Condition) → Condition.postIdsAll (Condition.mapQueriesAll f cs) =
      Condition.postIdsAll cs
  | [] => rfl
  | c :: cs => by
    rw [Condition.mapQueriesAll, Condition.postIdsAll, Condition.postIdsAll,
      Condition.postIds_mapQueries hf c, Condition.postIdsAll_mapQueries hf cs]

end

theorem Branch.postIds_mapQueries (hf : ∀ id name args, (f id name args).postIds = [id])
    (b : Branch) : (b.mapQueries f).postIds = b.postIds := by
  unfold Branch.postIds Branch.mapQueries
  cases b.condition with
  | none => rfl
  | some c => exact congrArg (· ++ [b.id]) (c.postIds_mapQueries hf)

theorem Method.postIds_mapQueries (hf : ∀ id name args, (f id name args).postIds = [id])
    (m : Method) : (m.mapQueries f).postIds = m.postIds := by
  refine congrArg (· ++ [m.id]) ?_
  rw [Method.mapQueries, List.flatMap_map]
  exact List.flatMap_congr fun b _ => b.postIds_mapQueries hf

theorem Clause.postIds_mapQueries (hf : ∀ id name args, (f id name args).postIds = [id])
    (c : Clause) : (c.mapQueries f).postIds = c.postIds :=
  congrArg (· ++ [c.id]) (c.condition.postIds_mapQueries hf)

end Queries

section Inner

mutual

theorem Condition.postIds_sublist : (c : Condition) → {x : Condition} → x ∈ c.nodes →
    x.postIds.Sublist c.postIds
  | .fact .., x, h | .derived .., x, h => by
    rw [Condition.nodes, List.mem_singleton] at h
    rw [h]
  | .all id children, x, h | .any id children, x, h => by
    rw [Condition.nodes, List.mem_cons] at h
    rcases h with rfl | h
    · exact List.Sublist.refl _
    · exact (Condition.postIdsAll_sublist children h).trans (List.sublist_append_left _ _)
  | .not id child, x, h => by
    rw [Condition.nodes, List.mem_cons] at h
    rcases h with rfl | h
    · exact List.Sublist.refl _
    · exact (Condition.postIds_sublist child h).trans (List.sublist_append_left _ _)

theorem Condition.postIdsAll_sublist : (cs : List Condition) → {x : Condition} →
    x ∈ Condition.nodesAll cs → x.postIds.Sublist (Condition.postIdsAll cs)
  | [], _, h => nomatch h
  | c :: cs, x, h => by
    rw [Condition.nodesAll, List.mem_append] at h
    rw [Condition.postIdsAll]
    rcases h with h | h
    · exact (Condition.postIds_sublist c h).trans (List.sublist_append_left _ _)
    · exact (Condition.postIdsAll_sublist cs h).trans (List.sublist_append_right _ _)

end

end Inner

/-- Each node has a greater identity than the nodes in it. -/
structure Domain.BottomUp (d : Domain) : Prop where
  conditions : ∀ c ∈ d.conditions, ∀ id ∈ c.nodeIds.tail, id < c.id
  branches : ∀ m ∈ d.methods, ∀ b ∈ m.branches, ∀ id ∈ b.nodeIds.tail, id < b.id
  methods : ∀ m ∈ d.methods, ∀ id ∈ m.nodeIds.tail, id < m.id
  clauses : ∀ c ∈ d.clauses, ∀ id ∈ c.nodeIds.tail, id < c.id

section Increasing

variable {all : List NodeId}

/-- The identity of a node stands first with the outer nodes before the inner ones, and last the
other way round. -/
theorem lt_of_increasing (hall : all.Pairwise (· < ·)) {inner rest : List NodeId} {id : NodeId}
    (hsub : (inner ++ [id]).Sublist all) (hperm : (inner ++ [id]).Perm (id :: rest)) :
    ∀ i ∈ rest, i < id := by
  have hrest : inner.Perm rest := ((List.perm_append_singleton id inner).symm.trans hperm).cons_inv
  have hlast := (List.pairwise_append.mp (hall.sublist hsub)).2.2
  exact fun i hi => hlast i (hrest.mem_iff.mpr hi) id List.mem_cons_self

theorem Condition.lt_of_mem_nodeIds (hall : all.Pairwise (· < ·)) {c : Condition}
    (hsub : c.postIds.Sublist all) : ∀ id ∈ c.nodeIds.tail, id < c.id := by
  have hperm := c.postIds_perm
  cases c with
  | fact | derived => simp [Condition.nodeIds, Condition.nodes]
  | all | any | not => exact lt_of_increasing hall hsub hperm

theorem Domain.bottomUp_of_increasing {d : Domain} (hall : all.Pairwise (· < ·))
    (hmethods : ∀ m ∈ d.methods, m.postIds.Sublist all)
    (hclauses : ∀ c ∈ d.clauses, c.postIds.Sublist all) : d.BottomUp := by
  have hbranches : ∀ m ∈ d.methods, ∀ b ∈ m.branches, b.postIds.Sublist all := fun m hm b hb =>
    ((List.sublist_flatten_of_mem (List.mem_map_of_mem hb)).trans
      (List.sublist_append_left _ _)).trans (hmethods m hm)
  refine ⟨fun c hc => ?_, fun m hm b hb => ?_, fun m hm => ?_, fun c hc => ?_⟩
  · refine Condition.lt_of_mem_nodeIds hall ?_
    rcases List.mem_append.mp hc with h | h
    · obtain ⟨m, hm, h⟩ := List.mem_flatMap.mp h
      obtain ⟨b, hb, h⟩ := List.mem_flatMap.mp h
      have hbranch := hbranches m hm b hb
      unfold Branch.postIds at hbranch
      cases hcondition : b.condition with
      | none => simp [hcondition] at h
      | some x =>
        rw [hcondition] at h hbranch
        exact (x.postIds_sublist h).trans ((List.sublist_append_left _ _).trans hbranch)
    · obtain ⟨x, hx, h⟩ := List.mem_flatMap.mp h
      exact (x.condition.postIds_sublist h).trans
        ((List.sublist_append_left _ _).trans (hclauses x (by simpa using hx)))
  · exact lt_of_increasing hall (hbranches m hm b hb) b.postIds_perm
  · exact lt_of_increasing hall (hmethods m hm) m.postIds_perm
  · exact lt_of_increasing hall (hclauses c hc) c.postIds_perm

end Increasing

section Declared

variable {declarations : List Declaration} {d : Domain}

/-- A domain whose declarations are numbered upwards, inner nodes first, is numbered bottom-up. -/
theorem Domain.bottomUp_of_declarations (h : Domain.ofDeclarations declarations = .ok d)
    (hall : (declarations.flatMap (·.postIds)).Pairwise (· < ·)) : d.BottomUp := by
  have hcall (id : NodeId) (name : Symbol) (args : List Term) :
      (Declaration.call declarations id name args).postIds = [id] := by
    unfold Declaration.call callOrQuery
    split <;> rfl
  have hmem {x : Declaration} (hx : x ∈ declarations) :
      x.postIds.Sublist (declarations.flatMap (·.postIds)) :=
    List.sublist_flatten_of_mem (List.mem_map_of_mem hx)
  obtain ⟨-, start, -, rfl⟩ := (Declaration.ofDeclarations_eq_ok_iff_start declarations d).mp h
  refine bottomUp_of_increasing hall (fun m hm => ?_) fun c hc => ?_
  · obtain ⟨m₀, hm₀, rfl⟩ := List.mem_map.mp hm
    obtain ⟨x, hx, hmethod⟩ := List.mem_filterMap.mp hm₀
    rw [m₀.postIds_mapQueries hcall]
    cases x with
    | method m' marked =>
      obtain rfl := Option.some.inj hmethod
      exact hmem hx
    | constant _ | clause _ => cases hmethod
  · obtain ⟨c₀, hc₀, rfl⟩ := List.mem_map.mp (List.mem_toArray.mp hc)
    obtain ⟨x, hx, hclause⟩ := List.mem_filterMap.mp hc₀
    rw [c₀.postIds_mapQueries hcall]
    cases x with
    | clause c' =>
      obtain rfl := Option.some.inj hclause
      exact hmem hx
    | constant _ | method _ _ => cases hclause

end Declared

end TaskNetwork
