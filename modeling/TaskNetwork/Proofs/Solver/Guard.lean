import TaskNetwork.Proofs.Solver.Enumeration

/-! The guard against nodes that are active already. In a domain whose nodes differ it refuses only
clauses that are in use, so the answers found along a path are those that the meaning of a condition
gives. -/

namespace TaskNetwork.Solver

/-- The clauses in `used` are those whose node is on the path, and of the others no part is. -/
structure InUse (d : Domain) (used : List NodeId) (path : Path) : Prop where
  mem_iff : ∀ c ∈ d.clauses, path.contains (.node c.id) = true ↔ c.id ∈ used
  fresh : ∀ c ∈ d.clauses, c.id ∉ used → ∀ id ∈ c.condition.nodeIds,
    path.contains (.node id) = false

/-- No node of the condition is on the path, none is a clause, and none belongs to a clause that is
not in use. -/
structure Foreign (d : Domain) (used : List NodeId) (path : Path) (ids : List NodeId) : Prop where
  nodup : ids.Nodup
  fresh : ∀ id ∈ ids, path.contains (.node id) = false
  not_clause : ∀ c ∈ d.clauses, c.id ∉ ids
  disjoint : ∀ c ∈ d.clauses, c.id ∉ used → ids.Disjoint c.condition.nodeIds

section Descent

variable {d : Domain} {used : List NodeId} {path : Path} {id : NodeId} {ids ids' : List NodeId}

theorem InUse.child (h : InUse d used path) (hf : Foreign d used path (id :: ids)) :
    InUse d used (path.child (.node id)) where
  mem_iff c hc := by
    have hne : c.id ≠ id := fun heq => hf.not_clause c hc (heq ▸ List.mem_cons_self)
    simpa [contains_child, hne] using h.mem_iff c hc
  fresh c hc hout i hi := by
    have hne : i ≠ id := fun heq => hf.disjoint c hc hout List.mem_cons_self (heq ▸ hi)
    simpa [contains_child, hne] using h.fresh c hc hout i hi

theorem Foreign.child (hf : Foreign d used path (id :: ids)) (hsub : ids'.Sublist ids) :
    Foreign d used (path.child (.node id)) ids' where
  nodup := hsub.nodup (List.nodup_cons.mp hf.nodup).2
  fresh i hi := by
    have hmem := hsub.subset hi
    have hne : i ≠ id := fun heq => (List.nodup_cons.mp hf.nodup).1 (heq ▸ hmem)
    simpa [contains_child, hne] using hf.fresh i (List.mem_cons_of_mem _ hmem)
  not_clause c hc hmem := hf.not_clause c hc (List.mem_cons_of_mem _ (hsub.subset hmem))
  disjoint c hc hout _ hi hi' :=
    hf.disjoint c hc hout (List.mem_cons_of_mem _ (hsub.subset hi)) hi'

variable {c : Clause}

theorem InUse.clause (hd : d.nodeIds.Nodup) (h : InUse d used path) (hc : c ∈ d.clauses) :
    InUse d (c.id :: used) (path.child (.node c.id)) where
  mem_iff c' hc' := by simp [contains_child, h.mem_iff c' hc']
  fresh c' hc' hout i hi := by
    rw [List.mem_cons, not_or] at hout
    have hne : i ≠ c.id := by
      rintro rfl
      exact Domain.clauses_disjoint hd hc hc' (Ne.symm hout.1) List.mem_cons_self
        (List.mem_cons_of_mem _ hi)
    simpa [contains_child, hne] using h.fresh c' hc' hout.2 i hi

theorem Foreign.clause (hd : d.nodeIds.Nodup) (h : InUse d used path) (hc : c ∈ d.clauses)
    (hout : c.id ∉ used) :
    Foreign d (c.id :: used) (path.child (.node c.id)) c.condition.nodeIds where
  nodup := (List.nodup_cons.mp (Domain.clause_nodeIds_nodup hd hc)).2
  fresh i hi := by
    have hne : i ≠ c.id := by
      rintro rfl
      exact (List.nodup_cons.mp (Domain.clause_nodeIds_nodup hd hc)).1 hi
    simpa [contains_child, hne] using h.fresh c hc hout i hi
  not_clause c' hc' hmem := by
    by_cases heq : c.id = c'.id
    · exact (List.nodup_cons.mp (Domain.clause_nodeIds_nodup hd hc)).1 (heq ▸ hmem)
    · exact Domain.clauses_disjoint hd hc hc' heq (List.mem_cons_of_mem _ hmem) List.mem_cons_self
  disjoint c' hc' hout' _ hi hi' := by
    rw [List.mem_cons, not_or] at hout'
    exact Domain.clauses_disjoint hd hc hc' (Ne.symm hout'.1) (List.mem_cons_of_mem _ hi)
      (List.mem_cons_of_mem _ hi')

end Descent

section Congruence

variable {d : Domain} {w : World} {name : Symbol} {args : List Term} {f : Frame}

theorem callAnswers_congr {body body' : Clause → Frame → List Frame}
    (h : ∀ c ∈ d.clausesOf name args.length, body c = body' c) :
    callAnswers d body name args f = callAnswers d body' name args f := by
  unfold callAnswers
  split
  · rfl
  · refine List.flatMap_congr fun c hc => ?_
    rw [Clause.answers, Clause.answers, h c (by simpa using hc)]

theorem callAnswers_eq_nil {body : Clause → Frame → List Frame}
    (h : ∀ c ∈ d.clausesOf name args.length, ∀ f, body c f = []) :
    callAnswers d body name args f = [] := by
  unfold callAnswers
  split
  · rfl
  · refine List.flatMap_eq_nil_iff.mpr fun c hc => ?_
    unfold Clause.answers
    split
    · rfl
    · rw [h c (by simpa using hc), List.filterMap_nil]

theorem foldr_eq_answersAll {call : Symbol → List Term → Frame → List Frame}
    {answers : Condition → Frame → List Frame} (children : List Condition)
    (h : ∀ c ∈ children, ∀ f, answers c f = c.answersWith d w call f) (f : Frame) :
    children.foldr (fun c rest f => (answers c f).flatMap rest) (fun f => [f]) f =
      Condition.answersAll d w call children f := by
  induction children generalizing f with
  | nil => rfl
  | cons c cs ih =>
    rw [List.foldr_cons, Condition.answersAll, h c List.mem_cons_self]
    exact List.flatMap_congr fun g _ => ih (fun c hc => h c (List.mem_cons_of_mem _ hc)) g

theorem flatMap_eq_answersAny {call : Symbol → List Term → Frame → List Frame}
    {answers : Condition → List Frame} (children : List Condition)
    (h : ∀ c ∈ children, answers c = c.answersWith d w call f) :
    children.flatMap answers = Condition.answersAny d w call children f := by
  induction children with
  | nil => rfl
  | cons c cs ih =>
    rw [List.flatMap_cons, Condition.answersAny, h c List.mem_cons_self,
      ih fun c hc => h c (List.mem_cons_of_mem _ hc)]

end Congruence

/-- The guard refuses what the meaning of the condition leaves out, and nothing else. -/
theorem pathAnswers_eq_answersWith {d : Domain} (hd : d.nodeIds.Nodup) (w : World) {ids : List NodeId}
    (hids : ∀ c ∈ d.clauses, c.condition.nodeIds ⊆ ids) (depth : Nat) :
    ∀ (c : Condition) (parent : Path) (used : List NodeId) (spare : Nat) (f : Frame),
      c.nodeIds ⊆ ids → unused ids parent < depth → InUse d used parent →
      Foreign d used parent c.nodeIds → unused (d.clauses.toList.map (·.id)) parent ≤ spare →
      pathAnswers d w depth c parent f = c.answersWith d w (axiomAnswers d w spare used) f := by
  induction depth with
  | zero => exact fun _ _ _ _ _ _ h => absurd h (Nat.not_lt_zero _)
  | succ depth ih =>
    intro c parent used spare f hsub hdepth huse hforeign hspare
    have hmem : c.id ∈ c.nodeIds := List.mem_map_of_mem c.self_mem_nodes
    have hactive : parent.contains (.node c.id) = false := hforeign.fresh _ hmem
    have hinner : unused ids (parent.child (.node c.id)) < depth := by
      have := unused_child_lt (hsub hmem) hactive
      omega
    have hspare' : unused (d.clauses.toList.map (·.id)) (parent.child (.node c.id)) ≤ spare :=
      Nat.le_trans (unused_child_le _ _ _) hspare
    obtain ⟨below, hbelow⟩ : ∃ below, c.nodeIds = c.id :: below := by
      cases c <;> exact ⟨_, rfl⟩
    rw [hbelow] at hforeign hsub
    have huse' := huse.child hforeign
    -- A condition directly inside `c`, whose nodes are among those of `c`.
    have hchild (x : Condition) (hx : x.nodeIds.Sublist below) (g : Frame) :
        pathAnswers d w depth x (parent.child (.node c.id)) g =
          x.answersWith d w (axiomAnswers d w spare used) g :=
      ih x _ used spare g (fun i hi => hsub (List.mem_cons_of_mem _ (hx.subset hi))) hinner huse'
        (hforeign.child hx) hspare'
    unfold pathAnswers
    rw [hactive]
    generalize parent.child (.node c.id) = path at *
    simp only [Bool.false_eq_true, ↓reduceIte]
    cases c with
    | fact id name args => rfl
    | derived id name args =>
      rw [Condition.answersWith]
      cases spare with
      | zero =>
        -- Every clause is in use, so the guard refuses each of them.
        rw [axiomAnswers]
        refine callAnswers_eq_nil fun c hc g => ?_
        have hcount : unused (d.clauses.toList.map (·.id)) path = 0 := by omega
        have hin : path.contains (.node c.id) = true := by
          have hid : c.id ∈ d.clauses.toList.map (·.id) :=
            List.mem_map_of_mem (by simpa using Domain.mem_of_mem_clausesOf hc)
          simpa using List.countP_eq_zero.mp hcount c.id hid
        simp [hin]
      | succ spare =>
        rw [axiomAnswers]
        refine callAnswers_congr fun c hc => funext fun g => ?_
        have hc' : c ∈ d.clauses := Domain.mem_of_mem_clausesOf hc
        by_cases hin : c.id ∈ used
        · simp [hin, (huse'.mem_iff c hc').mpr hin]
        · have hout : path.contains (.node c.id) = false := by
            rw [← Bool.not_eq_true, huse'.mem_iff c hc']
            exact hin
          have hless : unused ids (path.child (.node c.id)) < depth := by
            have := unused_child_le ids path (.node c.id)
            omega
          have hfewer : unused (d.clauses.toList.map (·.id)) (path.child (.node c.id)) ≤ spare := by
            have hid : c.id ∈ d.clauses.toList.map (·.id) := List.mem_map_of_mem (by simpa using hc')
            have := unused_child_lt hid hout
            omega
          simp only [hout, hin, Bool.false_eq_true, ↓reduceIte]
          exact ih c.condition _ _ spare g (hids c hc') hless (huse'.clause hd hc')
            (.clause hd huse' hc' hin) hfewer
    | all id children =>
      refine foldr_eq_answersAll children (fun x hx g => hchild x ?_ g) f
      have heq : (Condition.nodesAll children).map (·.id) = below := (List.cons.inj hbelow).2
      exact heq ▸ (Condition.nodes_sublist_nodesAll hx).map _
    | any id children =>
      refine flatMap_eq_answersAny children fun x hx => hchild x ?_ f
      have heq : (Condition.nodesAll children).map (·.id) = below := (List.cons.inj hbelow).2
      exact heq ▸ (Condition.nodes_sublist_nodesAll hx).map _
    | not id child =>
      have heq : child.nodeIds = below := (List.cons.inj hbelow).2
      have hsame := hchild child (heq ▸ List.Sublist.refl _) f
      rw [Condition.answersWith, ← hsame]

/-- The path at which a branch of a method is active for a task. -/
def branchPath (scope : Nat) (m : Method) (b : Branch) : Path :=
  ((Path.ofTask scope).child (.node m.id)).child (.node b.id)

section Entry

variable {d : Domain} {m : Method} {b : Branch}

theorem contains_branchPath (scope : Nat) (id : NodeId) :
    (branchPath scope m b).contains (.node id) = true ↔ id = b.id ∨ id = m.id := by
  have hroot : (Path.ofTask scope).contains (.node id) = false := rfl
  simp [branchPath, contains_child, hroot]

theorem inUse_branchPath (hd : d.nodeIds.Nodup) (hm : m ∈ d.methods) (hb : b ∈ m.branches)
    (scope : Nat) : InUse d [] (branchPath scope m b) := by
  have hother (c : Clause) (hc : c ∈ d.clauses) (id : NodeId) (hid : id ∈ c.nodeIds) :
      (branchPath scope m b).contains (.node id) ≠ true := by
    rw [Ne, contains_branchPath]
    have hdisjoint := Domain.method_clause_disjoint hd hm hc
    rintro (rfl | rfl)
    · exact hdisjoint (Domain.branch_nodeIds_subset hb List.mem_cons_self) hid
    · exact hdisjoint List.mem_cons_self hid
  constructor
  · intro c hc
    simpa using hother c hc c.id List.mem_cons_self
  · intro c hc _ id hid
    simpa using hother c hc id (List.mem_cons_of_mem _ hid)

theorem foreign_branchPath (hd : d.nodeIds.Nodup) (hm : m ∈ d.methods) (hb : b ∈ m.branches)
    {c : Condition} (hc : b.condition = some c) (scope : Nat) :
    Foreign d [] (branchPath scope m b) c.nodeIds := by
  have hids : b.nodeIds = b.id :: c.nodeIds := by rw [Branch.nodeIds, hc]
  have hnodup := Domain.branch_nodeIds_nodup hd hm hb
  have hmethod := Domain.method_not_mem_branch hd hm hb
  rw [hids] at hnodup hmethod
  have hsub : c.nodeIds ⊆ m.nodeIds := fun id hid =>
    Domain.branch_nodeIds_subset hb (hids ▸ List.mem_cons_of_mem _ hid)
  have hdisjoint (clause : Clause) (hclause : clause ∈ d.clauses) :=
    Domain.method_clause_disjoint hd hm hclause
  constructor
  · exact (List.nodup_cons.mp hnodup).2
  · intro id hid
    rw [← Bool.not_eq_true, contains_branchPath]
    rintro (rfl | rfl)
    · exact (List.nodup_cons.mp hnodup).1 hid
    · exact hmethod (List.mem_cons_of_mem _ hid)
  · exact fun clause hclause hid => hdisjoint clause hclause (hsub hid) List.mem_cons_self
  · exact fun clause hclause _ id hid hid' =>
      hdisjoint clause hclause (hsub hid) (List.mem_cons_of_mem _ hid')

/-- For the condition of a branch, the guard never comes into play but at clauses in use. -/
theorem pathAnswers_eq_answers (hd : d.nodeIds.Nodup) (w : World) (hm : m ∈ d.methods)
    (hb : b ∈ m.branches) {c : Condition} (hc : b.condition = some c) (scope : Nat) (f : Frame) :
    pathAnswers d w (nestingBound d c) c (branchPath scope m b) f = c.answers d w f := by
  have hclauses (clause : Clause) (hclause : clause ∈ d.clauses) :
      clause.condition.nodeIds ⊆ conditionIds d c := fun id hid =>
    List.mem_append_right _ (List.mem_flatMap.mpr ⟨clause, by simpa using hclause, hid⟩)
  refine pathAnswers_eq_answersWith hd w hclauses _ c _ [] d.clauses.size f
    (List.subset_append_left _ _) ?_ (inUse_branchPath hd hm hb scope)
    (foreign_branchPath hd hm hb hc scope) ?_
  · rw [nestingBound_eq]
    exact Nat.lt_succ_of_le (unused_le_length _ _)
  · exact Nat.le_trans (unused_le_length _ _) (by simp)

end Entry

end TaskNetwork.Solver
