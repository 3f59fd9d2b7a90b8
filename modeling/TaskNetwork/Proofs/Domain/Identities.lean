import TaskNetwork.Proofs.Domain.Built

/-! Making a domain of declarations keeps the identities of their nodes: those of a domain are those
of its declarations, each as often. -/

namespace TaskNetwork

/-- The identities of the nodes that are declared. -/
def Declaration.nodeIds : Declaration → List NodeId
  | .constant _ => []
  | .clause c => c.nodeIds
  | .method m _ => m.nodeIds

theorem flatMap_of_mapM {ε α β γ : Type} {f : α → Except ε β} {ids : α → List γ} {ids' : β → List γ}
    (hf : ∀ a b, f a = .ok b → ids' b = ids a) {as : List α} {bs : List β}
    (h : as.mapM f = .ok bs) : bs.flatMap ids' = as.flatMap ids := by
  induction as generalizing bs with
  | nil =>
    obtain rfl := return_eq_ok.mp h
    rfl
  | cons a as ih =>
    rw [List.mapM_cons, bind_eq_ok] at h
    obtain ⟨b, hfirst, h⟩ := h
    obtain ⟨bs', hrest, h⟩ := bind_eq_ok.mp h
    obtain rfl := return_eq_ok.mp h
    rw [List.flatMap_cons, List.flatMap_cons, hf a b hfirst, ih hrest]

section Resolution

variable {isAxiom : Symbol → Nat → Bool}

mutual

theorem Condition.nodeIds_of_resolve : (c : Condition) → {c' : Condition} →
    c.resolve isAxiom = .ok c' → c'.nodeIds = c.nodeIds
  | .fact id name args, c', h => by
    rw [Condition.resolve] at h
    split at h
    · cases h
      rfl
    · split at h
      · cases h
      · cases h
        rfl
  | .derived id name args, c', h => by
    rw [Condition.resolve] at h
    cases h
    rfl
  | .all id children, c', h | .any id children, c', h => by
    rw [Condition.resolve] at h
    obtain ⟨children', hchildren, h⟩ := bind_eq_ok.mp h
    obtain rfl := return_eq_ok.mp h
    exact congrArg (id :: ·) (Condition.nodeIds_of_resolveAll children hchildren)
  | .not id child, c', h => by
    rw [Condition.resolve] at h
    obtain ⟨child', hchild, h⟩ := bind_eq_ok.mp h
    obtain rfl := return_eq_ok.mp h
    exact congrArg (id :: ·) (Condition.nodeIds_of_resolve child hchild)

theorem Condition.nodeIds_of_resolveAll : (cs : List Condition) → {cs' : List Condition} →
    Condition.resolveAll isAxiom cs = .ok cs' →
      (Condition.nodesAll cs').map (·.id) = (Condition.nodesAll cs).map (·.id)
  | [], cs', h => by
    rw [Condition.resolveAll] at h
    cases h
    rfl
  | c :: cs, cs', h => by
    rw [Condition.resolveAll] at h
    obtain ⟨c', hc, h⟩ := bind_eq_ok.mp h
    obtain ⟨rest', hrest, h⟩ := bind_eq_ok.mp h
    obtain rfl := return_eq_ok.mp h
    rw [Condition.nodesAll, Condition.nodesAll, List.map_append, List.map_append,
      Condition.nodeIds_of_resolveAll cs hrest]
    exact congrArg (· ++ _) (Condition.nodeIds_of_resolve c hc)

end

theorem Clause.nodeIds_of_resolve {c c' : Clause} (h : c.resolve isAxiom = .ok c') :
    c'.nodeIds = c.nodeIds := by
  obtain ⟨condition, hcondition, h⟩ := bind_eq_ok.mp h
  obtain rfl := return_eq_ok.mp h
  exact congrArg (c.id :: ·) (c.condition.nodeIds_of_resolve hcondition)

theorem Branch.nodeIds_of_resolve {method : Symbol} {b b' : Branch}
    (h : b.resolve isAxiom method = .ok b') : b'.nodeIds = b.nodeIds := by
  unfold Branch.resolve at h
  split at h
  · cases h
  · split at h
    · cases h
      rfl
    · next c hc =>
      obtain ⟨condition, hcondition, h⟩ := bind_eq_ok.mp h
      obtain rfl := return_eq_ok.mp h
      rw [Branch.nodeIds, Branch.nodeIds, hc]
      exact congrArg (b.id :: ·) (c.nodeIds_of_resolve hcondition)

theorem Method.nodeIds_of_resolve {m m' : Method} (h : m.resolve isAxiom = .ok m') :
    m'.nodeIds = m.nodeIds := by
  unfold Method.resolve at h
  split at h
  · cases h
  · obtain ⟨branches, hbranches, h⟩ := bind_eq_ok.mp h
    obtain rfl := return_eq_ok.mp h
    exact congrArg (m.id :: ·)
      (flatMap_of_mapM (fun _ _ => Branch.nodeIds_of_resolve) hbranches)

end Resolution

theorem Declaration.nodeIds_perm (declarations : List Declaration) :
    ((declarations.filterMap (·.method?)).flatMap (·.nodeIds) ++
      (declarations.filterMap (·.clause?)).flatMap (·.nodeIds)).Perm
      (declarations.flatMap (·.nodeIds)) := by
  induction declarations with
  | nil => exact .nil
  | cons declaration declarations ih =>
    cases declaration with
    | constant c => exact ih
    | method m marked =>
      rw [List.flatMap_cons]
      show ((m.nodeIds ++ _) ++ _).Perm (m.nodeIds ++ _)
      rw [List.append_assoc]
      exact ih.append_left _
    | clause c =>
      rw [List.flatMap_cons]
      show (_ ++ (c.nodeIds ++ _)).Perm (c.nodeIds ++ _)
      refine List.perm_append_comm_assoc _ _ _ |>.trans ?_
      exact ih.append_left _

theorem Domain.nodeIds_perm_of_declarations {declarations : List Declaration} {d : Domain}
    (h : Domain.ofDeclarations declarations = .ok d) :
    d.nodeIds.Perm (declarations.flatMap (·.nodeIds)) := by
  obtain ⟨isAxiom, hclauses, hmethods⟩ := resolved_of_declarations h
  unfold Domain.nodeIds
  rw [flatMap_of_mapM (fun _ _ => Method.nodeIds_of_resolve) hmethods,
    flatMap_of_mapM (fun _ _ => Clause.nodeIds_of_resolve) hclauses]
  exact Declaration.nodeIds_perm declarations

end TaskNetwork
