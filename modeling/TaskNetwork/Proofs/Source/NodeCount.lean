import TaskNetwork.Proofs.Source.Declarations
import TaskNetwork.Proofs.Source.Numbering
import TaskNetwork.Proofs.Source.Spelling

/-! The nodes that a text describes and their identities. Each condition, branch, clause and method
of a text is one node of its domain. With `n` of them the identities are those below `n`, each once,
and a node has a greater one than the nodes in it. -/

namespace TaskNetwork

namespace Tree

mutual

/-- The number of conditions in a condition, itself included. -/
def Condition.nodeCount : Condition → Nat
  | .fact .. | .derived .. => 1
  | .all children | .any children => Condition.nodeCountAll children + 1
  | .not child => child.nodeCount + 1

def Condition.nodeCountAll : List Condition → Nat
  | [] => 0
  | c :: cs => c.nodeCount + Condition.nodeCountAll cs

end

def Branch.nodeCount (b : Branch) : Nat := (b.condition.map (·.nodeCount)).getD 0 + 1

/-- The number of nodes in a declaration. Constants are none. -/
def Declaration.nodeCount : Declaration → Nat
  | .constant .. => 0
  | .clause _ _ condition => condition.nodeCount + 1
  | .method _ _ branches _ => (branches.map (·.nodeCount)).sum + 1

end Tree

section Counts

variable {names : SymbolTable}

/-- A list shows as many nodes as there are in it, if each of its items does. -/
theorem sum_of_mapM {α β : Type} {view : α → Option β} {count : β → Nat} {ids : α → List NodeId}
    (hview : ∀ a b, view a = some b → count b = (ids a).length) {as : List α} {bs : List β}
    (h : as.mapM view = some bs) : (bs.map count).sum = (as.flatMap ids).length := by
  induction as generalizing bs with
  | nil =>
    cases h
    rfl
  | cons a as ih =>
    rw [List.mapM_cons] at h
    obtain ⟨b, hb, h⟩ := Option.bind_eq_some_iff.mp h
    obtain ⟨bs', hbs, h⟩ := Option.bind_eq_some_iff.mp h
    obtain rfl := Option.some.inj h
    rw [List.map_cons, List.sum_cons, List.flatMap_cons, List.length_append, hview a b hb, ih hbs]

mutual

theorem Condition.nodeCount_of_tree? : (c : Condition) → {t : Tree.Condition} →
    c.tree? names = some t → t.nodeCount = c.postIds.length
  | .fact id name args, t, h | .derived id name args, t, h => by
    obtain ⟨_, -, h⟩ := Option.bind_eq_some_iff.mp h
    obtain ⟨_, -, h⟩ := Option.bind_eq_some_iff.mp h
    obtain rfl := Option.some.inj h
    rfl
  | .all id children, t, h | .any id children, t, h => by
    obtain ⟨ts, hts, h⟩ := Option.bind_eq_some_iff.mp h
    obtain rfl := Option.some.inj h
    rw [Tree.Condition.nodeCount, Condition.postIds, List.length_append,
      Condition.nodeCount_of_treeAll? children hts]
    rfl
  | .not id child, t, h => by
    obtain ⟨t', ht', h⟩ := Option.bind_eq_some_iff.mp h
    obtain rfl := Option.some.inj h
    rw [Tree.Condition.nodeCount, Condition.postIds, List.length_append,
      Condition.nodeCount_of_tree? child ht']
    rfl

theorem Condition.nodeCount_of_treeAll? : (cs : List Condition) → {ts : List Tree.Condition} →
    Condition.treeAll? names cs = some ts →
      Tree.Condition.nodeCountAll ts = (Condition.postIdsAll cs).length
  | [], ts, h => by
    obtain rfl := Option.some.inj h
    rfl
  | c :: cs, ts, h => by
    obtain ⟨t, ht, h⟩ := Option.bind_eq_some_iff.mp h
    obtain ⟨ts', hts, h⟩ := Option.bind_eq_some_iff.mp h
    obtain rfl := Option.some.inj h
    rw [Tree.Condition.nodeCountAll, Condition.postIdsAll, List.length_append,
      Condition.nodeCount_of_tree? c ht, Condition.nodeCount_of_treeAll? cs hts]

end

theorem Branch.nodeCount_of_tree? (b : Branch) {t : Tree.Branch} (h : b.tree? names = some t) :
    t.nodeCount = b.postIds.length := by
  obtain ⟨name, -, h⟩ := Option.bind_eq_some_iff.mp h
  obtain ⟨condition, hcondition, h⟩ := Option.bind_eq_some_iff.mp h
  obtain ⟨tasks, -, h⟩ := Option.bind_eq_some_iff.mp h
  obtain rfl := Option.some.inj h
  unfold Tree.Branch.nodeCount Branch.postIds
  cases hb : b.condition with
  | none =>
    rw [hb] at hcondition
    obtain rfl := Option.some.inj hcondition
    rfl
  | some c =>
    rw [hb] at hcondition
    obtain ⟨t, ht, rfl⟩ := Option.map_eq_some_iff.mp hcondition
    simp [c.nodeCount_of_tree? ht]

theorem Declaration.nodeCount_of_tree? (d : Declaration) {t : Tree.Declaration}
    (h : d.tree? names = some t) : t.nodeCount = d.postIds.length := by
  cases d with
  | constant c =>
    obtain ⟨_, -, h⟩ := Option.bind_eq_some_iff.mp h
    obtain ⟨_, -, h⟩ := Option.bind_eq_some_iff.mp h
    obtain ⟨_, -, h⟩ := Option.bind_eq_some_iff.mp h
    obtain rfl := Option.some.inj h
    rfl
  | clause c =>
    obtain ⟨_, -, h⟩ := Option.bind_eq_some_iff.mp h
    obtain ⟨_, -, h⟩ := Option.bind_eq_some_iff.mp h
    obtain ⟨t, ht, h⟩ := Option.bind_eq_some_iff.mp h
    obtain rfl := Option.some.inj h
    rw [Tree.Declaration.nodeCount, c.condition.nodeCount_of_tree? ht, postIds, Clause.postIds,
      List.length_append]
    rfl
  | method m marked =>
    obtain ⟨_, -, h⟩ := Option.bind_eq_some_iff.mp h
    obtain ⟨_, -, h⟩ := Option.bind_eq_some_iff.mp h
    obtain ⟨ts, hts, h⟩ := Option.bind_eq_some_iff.mp h
    obtain rfl := Option.some.inj h
    rw [Tree.Declaration.nodeCount, sum_of_mapM (fun b _ => b.nodeCount_of_tree?) hts, postIds,
      Method.postIds, List.length_append]
    rfl

end Counts

open Source

/-- An accepted text describes as many nodes as its domain has. Their identities are the numbers
from 0 on, each once, and a node has a greater one than the nodes in it. -/
theorem Domain.nodes_of_read {text : String} {names names' : SymbolTable} {d : Domain}
    (h : Domain.read text names = (.ok d, names')) :
    ∃ placed ts trees, tokens text = .ok placed ∧ placed.map (·.token) = ts ++ [.finish] ∧
      AreDeclarations ts trees ∧ d.nodeIds.Nodup ∧
      (∀ id, id ∈ d.nodeIds ↔ id < (trees.map (·.nodeCount)).sum) ∧ d.BottomUp := by
  obtain ⟨placed, declarations, s, htext, hread, hmade, hids⟩ := declarations_of_read h
  obtain ⟨ts, hts, hspelled⟩ := isSpelled_of_tokensFrom htext
  have hs := Reading.left_start hts (fun hmem => hspelled _ hmem) names
  have hsound : Ends ((Reader.bounded Reader.declarations).run (.start placed names)) _ :=
    Reader.sound_declarations _ hs hs.bound
  rw [hread] at hsound
  obtain ⟨trees, htrees, hall⟩ := hsound
  have hcount : (trees.map (·.nodeCount)).sum = s.draft.nextNode := by
    rw [sum_of_mapM (fun x _ => x.nodeCount_of_tree?) (hall.shown _ (SymbolTable.le_refl _)), hids,
      List.length_range]
  have hperm := nodeIds_perm_range hmade hids
  refine ⟨placed, ts, trees, htext, hts, htrees, hperm.nodup_iff.mpr List.nodup_range,
    fun id => ?_, bottomUp_of_declarations hmade (hids ▸ List.pairwise_lt_range)⟩
  rw [hperm.mem_iff, List.mem_range, hcount]

/-! An axiom that calls itself below a negation of two conditions, and a method that calls it. -/

namespace Negated

def text : String := "axiom p(?a) \x7b not(q(?a), p(?a)) \x7d method m() \x7b b: p(x) => t(); \x7d"

def recurring : Clause :=
  ⟨4, ⟨2⟩, [Roads.var 0],
    .not 3 (.all 2 [.fact 0 ⟨1⟩ [Roads.var 0], .derived 1 ⟨2⟩ [Roads.var 0]])⟩

def calling : Method :=
  ⟨7, ⟨6⟩, [], [⟨6, ⟨5⟩, some (.derived 5 ⟨2⟩ [.literal (.symbol ⟨3⟩)]), [⟨⟨4⟩, []⟩]⟩]⟩

def domain : Domain := .ofLists [] [recurring] [calling] none

end Negated

open Negated in
theorem Domain.nodes_of_read_negated :
    ∃ names, Domain.read text .empty = (.ok domain, names) ∧ domain.nodeIds.length = 8 ∧
      ∃ placed ts trees, tokens text = .ok placed ∧ placed.map (·.token) = ts ++ [.finish] ∧
        AreDeclarations ts trees ∧ domain.nodeIds.Nodup ∧
        (∀ id, id ∈ domain.nodeIds ↔ id < (trees.map (·.nodeCount)).sum) ∧ domain.BottomUp := by
  have hread : (Domain.read text .empty).1 = .ok domain := by cbv
  have hread' := Prod.fst_eq_iff.mp hread
  exact ⟨_, hread', rfl, nodes_of_read hread'⟩

end TaskNetwork
