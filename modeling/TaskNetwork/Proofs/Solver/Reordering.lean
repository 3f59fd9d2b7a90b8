import TaskNetwork.Proofs.Solver.Demands
import TaskNetwork.Proofs.Solver.Substitution
import Mathlib.Data.Multiset.Bind
import Mathlib.Data.Multiset.ZeroCons

/-! The order of conjuncts. The demands of a conjunction are the sums of those of its conjuncts, so
as collections they do not depend on the order. The answers meet the demands, so in another order
they are the same up to equality of values, each as often. -/

namespace TaskNetwork

/-- The second condition comes from the first when the conjuncts of conjunctions in it are put in
another order. -/
inductive Condition.Reorders : Condition → Condition → Prop
  | refl (c : Condition) : Reorders c c
  | permute (id : NodeId) {children children' : List Condition} (h : children.Perm children') :
      Reorders (.all id children) (.all id children')
  | inAll (id : NodeId) (before after : List Condition) {c c' : Condition} (h : Reorders c c') :
      Reorders (.all id (before ++ c :: after)) (.all id (before ++ c' :: after))
  | inAny (id : NodeId) (before after : List Condition) {c c' : Condition} (h : Reorders c c') :
      Reorders (.any id (before ++ c :: after)) (.any id (before ++ c' :: after))
  | trans {c c' c'' : Condition} (h : Reorders c c') (h' : Reorders c' c'') : Reorders c c''

namespace Condition

variable {c c' : Condition}

theorem Plain.children {id : NodeId} {children : List Condition}
    (h : Plain (.all id children) ∨ Plain (.any id children)) : ∀ c ∈ children, c.Plain := by
  rcases h with h | h <;> cases h <;> assumption

theorem Plain.inner (h : c.Plain) : ∀ x ∈ c.nodes, x.Plain := by
  induction h with
  | fact id name narrow free =>
    intro x hx
    rw [List.mem_singleton.mp hx]
    exact .fact id name narrow free
  | all id inner ih =>
    intro x hx
    rw [nodes, nodesAll_eq_flatMap, List.mem_cons, List.mem_flatMap] at hx
    rcases hx with rfl | ⟨c, hc, hx⟩
    · exact .all id inner
    · exact ih c hc x hx
  | any id inner ih =>
    intro x hx
    rw [nodes, nodesAll_eq_flatMap, List.mem_cons, List.mem_flatMap] at hx
    rcases hx with rfl | ⟨c, hc, hx⟩
    · exact .any id inner
    · exact ih c hc x hx

namespace Reorders

theorem id_eq (h : c.Reorders c') : c'.id = c.id := by
  induction h with
  | refl | permute | inAll | inAny => rfl
  | trans _ _ ih ih' => exact ih'.trans ih

theorem plain (h : c.Reorders c') (hc : c.Plain) : c'.Plain := by
  have hreplace {before after : List Condition} {c c' : Condition} (hnew : c.Plain → c'.Plain)
      (hold : ∀ x ∈ before ++ c :: after, x.Plain) : ∀ x ∈ before ++ c' :: after, x.Plain := by
    simp only [List.mem_append, List.mem_cons] at hold ⊢
    rintro x (hx | rfl | hx)
    · exact hold x (.inl hx)
    · exact hnew (hold c (.inr (.inl rfl)))
    · exact hold x (.inr (.inr hx))
  induction h with
  | refl c => exact hc
  | permute id hperm => exact .all id fun x hx => Plain.children (.inl hc) x (hperm.mem_iff.mpr hx)
  | inAll id before after h ih => exact .all id (hreplace ih (Plain.children (.inl hc)))
  | inAny id before after h ih => exact .any id (hreplace ih (Plain.children (.inr hc)))
  | trans _ _ ih ih' => exact ih' (ih hc)

theorem nodeIds_perm (h : c.Reorders c') : c.nodeIds.Perm c'.nodeIds := by
  have hids (cs : List Condition) : (nodesAll cs).map (·.id) = cs.flatMap nodeIds := by
    rw [nodesAll_eq_flatMap, List.map_flatMap]
    rfl
  have hreplace (before after : List Condition) {c c' : Condition} (h : c.nodeIds.Perm c'.nodeIds) :
      ((before ++ c :: after).flatMap nodeIds).Perm ((before ++ c' :: after).flatMap nodeIds) := by
    simp only [List.flatMap_append, List.flatMap_cons]
    exact (h.append_right _).append_left _
  induction h with
  | refl => exact .refl _
  | permute id hperm =>
    simp only [nodeIds, nodes, List.map_cons, hids]
    exact (hperm.flatMap_right nodeIds).cons id
  | inAll id before after h ih | inAny id before after h ih =>
    simp only [nodeIds, nodes, List.map_cons, hids]
    exact (hreplace before after ih).cons id
  | trans _ _ ih ih' => exact ih.trans ih'

theorem size_eq (h : c.Reorders c') : c'.size = c.size := by
  have hlength := h.nodeIds_perm.length_eq
  rw [nodeIds, nodeIds, List.length_map, List.length_map, length_nodes, length_nodes] at hlength
  exact hlength.symm

end Reorders

end Condition

/-- The domain in which no axiom has a clause. -/
def Domain.withoutClauses (d : Domain) : Domain where
  toParts := { d.toParts with clauses := #[], clauseIndex := [] }
  indexed := ⟨d.indexed.methods, fun _ _ => rfl⟩

namespace Solver

/-- Demands without their order, each as often as it is made. -/
def terms (demands : List (List Demand)) : Multiset (Multiset Demand) :=
  (demands : Multiset (List Demand)).map (↑)

/-- A demand of each of two collections at once, in every way in which they can be chosen. -/
def joint (s t : Multiset (Multiset Demand)) : Multiset (Multiset Demand) :=
  s.bind fun ds => t.map (ds + ·)

theorem joint_left_comm (s t u : Multiset (Multiset Demand)) :
    joint s (joint t u) = joint t (joint s u) := by
  simp only [joint, Multiset.map_bind, Multiset.map_map, Function.comp_apply]
  rw [Multiset.bind_bind]
  simp only [add_left_comm]

theorem terms_append (demands demands' : List (List Demand)) :
    terms (demands ++ demands') = terms demands + terms demands' := by
  rw [terms, ← Multiset.coe_add, Multiset.map_add]
  rfl

theorem terms_product (firsts seconds : List (List Demand)) :
    terms (firsts.flatMap fun ds => seconds.map (ds ++ ·)) =
      joint (terms firsts) (terms seconds) := by
  simp only [terms, joint, Multiset.bind_map, Multiset.map_map]
  rw [← Multiset.coe_bind, Multiset.map_bind]
  simp only [← Multiset.map_coe, Multiset.map_map]
  rfl

section Terms

variable (d : Domain) (w : World)

theorem terms_demandsAll_perm {children children' : List Condition} (h : children.Perm children')
    (path : Path) : terms (Condition.demandsAll d w children path) =
      terms (Condition.demandsAll d w children' path) := by
  induction h with
  | nil => rfl
  | cons c _ ih => simp only [Condition.demandsAll, terms_product, ih]
  | swap c c' cs => simp only [Condition.demandsAll, terms_product, joint_left_comm]
  | trans _ _ ih ih' => exact ih.trans ih'

variable {d w}

theorem terms_demandsAll_replace {c c' : Condition} {path : Path}
    (h : terms (c.demands d w path) = terms (c'.demands d w path)) (before after : List Condition) :
    terms (Condition.demandsAll d w (before ++ c :: after) path) =
      terms (Condition.demandsAll d w (before ++ c' :: after) path) := by
  induction before with
  | nil => simp only [List.nil_append, Condition.demandsAll, terms_product, h]
  | cons x before ih => simp only [List.cons_append, Condition.demandsAll, terms_product, ih]

theorem terms_demandsAny_replace {c c' : Condition} {path : Path}
    (h : terms (c.demands d w path) = terms (c'.demands d w path)) (before after : List Condition) :
    terms (Condition.demandsAny d w (before ++ c :: after) path) =
      terms (Condition.demandsAny d w (before ++ c' :: after) path) := by
  induction before with
  | nil => simp only [List.nil_append, Condition.demandsAny, terms_append, h]
  | cons x before ih => simp only [List.cons_append, Condition.demandsAny, terms_append, ih]

/-- The order of conjuncts changes the order of the demands only. -/
theorem terms_demands_eq {c c' : Condition} (h : c.Reorders c') (parent : Path) :
    terms (c.demands d w parent) = terms (c'.demands d w parent) := by
  induction h generalizing parent with
  | refl => rfl
  | permute id hperm =>
    simp only [Condition.demands]
    split
    · rfl
    · exact terms_demandsAll_perm d w hperm _
  | inAll id before after h ih =>
    simp only [Condition.demands]
    split
    · rfl
    · exact terms_demandsAll_replace (ih _) before after
  | inAny id before after h ih =>
    simp only [Condition.demands]
    split
    · rfl
    · exact terms_demandsAny_replace (ih _) before after
  | trans _ _ ih ih' => exact (ih parent).trans (ih' parent)

end Terms

theorem rel_filterMap {α β γ δ : Type} {R : γ → δ → Prop} {s : Multiset α} {t : Multiset β}
    {f : α → Option γ} {g : β → Option δ}
    (h : Multiset.Rel (fun a b => Option.Rel R (f a) (g b)) s t) :
    Multiset.Rel R (s.filterMap f) (t.filterMap g) := by
  induction h with
  | zero => exact .zero
  | @cons a b s t hab _ ih =>
    generalize hf : f a = fa, hg : g b = gb at hab
    cases hab with
    | none =>
      rw [Multiset.filterMap_cons_none _ _ hf, Multiset.filterMap_cons_none _ _ hg]
      exact ih
    | some hyz =>
      rw [Multiset.filterMap_cons_some _ _ _ hf, Multiset.filterMap_cons_some _ _ _ hg]
      exact .cons hyz ih

/-- The same terms are met by the same frames, each as often. -/
theorem meet?_of_terms_eq {f : Frame} (hf : f.Below f) {demands demands' : List (List Demand)}
    (hdemands : ∀ ds ∈ demands, ∀ p ∈ ds, (p.2 == p.2) = true)
    (h : terms demands = terms demands') :
    Multiset.Rel Frame.Same (demands.filterMap f.meet? : Multiset Frame)
      (demands'.filterMap f.meet? : Multiset Frame) := by
  have hrel : Multiset.Rel (fun ds es : List Demand => (ds : Multiset Demand) = es)
      (demands : Multiset (List Demand)) demands' := Multiset.rel_map.mp (Multiset.rel_eq.mpr h)
  rw [← Multiset.filterMap_coe, ← Multiset.filterMap_coe]
  refine rel_filterMap (hrel.mono fun ds hds es _ heq => ?_)
  exact Frame.meet?_congr hf (hdemands ds hds) fun p => (Multiset.coe_eq_coe.mp heq).mem_iff

section Search

open Environment

variable {σ : Type} {d : Domain} {w : World} {c c' : Condition} {rounds : Nat} {parent own : Path}
  {env : Environment}

/-- The clauses of a domain play no part in the search for a plain condition. -/
theorem solveWithin_without_clauses (rounds : Nat) (hc : c.Plain) (depth : Nat) :
    ∀ (parent frame : Path) (k : Action σ),
      solveWithin d.withoutClauses w rounds depth c parent frame k =
        solveWithin d w rounds depth c parent frame k := by
  induction hc generalizing depth with
  | fact id name narrow free =>
    intro parent frame k
    cases depth <;> rfl
  | @all id children inner ih =>
    intro parent frame k
    cases depth with
    | zero => rfl
    | succ depth =>
      simp only [solveWithin]
      congr 1
      funext path
      exact List.foldr_ext _ _ _ fun c hc k => ih c hc depth path frame k
  | @any id children inner ih =>
    intro parent frame k
    cases depth with
    | zero => rfl
    | succ depth =>
      simp only [solveWithin]
      congr 1
      funext path
      congr 1
      funext i
      split
      · rfl
      · next c hc => exact ih c (List.mem_of_getElem? hc) depth path frame k

/-- A search for a plain condition finds the ways to meet its demands. -/
theorem solve_gathers_of_plain (hw : w.Regular) (hplain : c.Plain) (hc : c.nodeIds.Nodup)
    (hrounds : candidateBound d w c ≤ rounds) (hown : parent.isWithin own) (henv : env.Compact)
    (hclear : Clear (parent.child (.node c.id)) env)
    (hframe : (env.frame own).Below (env.frame own)) :
    let (reply, t) := solve d w rounds c parent own (gather own) ⟨env, {}, []⟩
    reply = .more ∧ t.memory =
      (c.demands d.withoutClauses w parent).filterMap (env.frame own).meet? := by
  have hsize : c.nodeIds.length = c.size := by
    rw [Condition.nodeIds, List.length_map, Condition.length_nodes]
  have hbound : w.rowCount + c.size + 1 ≤ rounds := by
    rw [candidateBound, nestingBound_eq, conditionIds, List.length_append, hsize] at hrounds
    omega
  have hdepth : c.size < nestingBound d c := by
    rw [nestingBound_eq, conditionIds, List.length_append, hsize]
    omega
  have hset : Setting d.withoutClauses w rounds (fun _ => False) c.nodeIds := by
    constructor
    · exact fun clause hclause => absurd hclause (by simp [Domain.withoutClauses])
    · exact fun h => absurd h (Nat.not_lt_zero _)
    · intro name arity h
      have hrows := w.size_rows_le name arity
      omega
  have hnodes : ∀ x ∈ c.nodes, Admissible rounds (fun _ => False) c.nodeIds x := by
    intro x hx
    refine ⟨List.mem_map_of_mem hx, fun id children heq => ?_, fun id name args heq hwide => ?_,
      fun id children heq hmany => ?_⟩
    · exact Condition.siblings_nodup hc (heq ▸ hx)
    · have hfact := hplain.inner x hx
      rw [heq] at hfact
      cases hfact with
      | fact _ _ narrow _ => exact absurd narrow (Nat.not_le.mpr hwide)
    · have hfits := Condition.length_le_size_any (heq ▸ hx : .any id children ∈ c.nodes)
      omega
  have hunused : unused c.nodeIds parent < nestingBound d c := by
    have hle := unused_le_length c.nodeIds parent
    omega
  obtain ⟨-, hdelivered⟩ := solveWithin_serves hset (nestingBound d c) c parent own ⟨env, {}, []⟩
    hnodes hunused hown henv hclear (fun _ => True) (gather own) trivial fun t _ => .of_eq rfl _
  rw [solveWithin_without_clauses rounds hplain, pathAnswers_eq_meet? hw hplain _ hdepth.le hframe]
    at hdelivered
  exact gather_delivered hdelivered

/-- With its conjuncts in another order, a plain condition has the same solutions up to equality of
values, each as often. -/
theorem solve_reorders (hplain : c.Plain) (hc : c.nodeIds.Nodup) (hreorders : c.Reorders c')
    (hw : w.Regular) (hrounds : candidateBound d w c ≤ rounds) (hown : parent.isWithin own)
    (henv : env.Reachable) (hclear : Clear (parent.child (.node c.id)) env)
    (hframe : ∀ x, (env.value own x).isBound → (env.value own x == env.value own x) = true) :
    let found (c : Condition) := solve d w rounds c parent own (gather own) ⟨env, {}, []⟩
    (found c).1 = .more ∧ (found c').1 = .more ∧
      Multiset.Rel Frame.Same ((found c).2.memory : Multiset Frame) (found c').2.memory := by
  intro found
  have hbound : candidateBound d w c' = candidateBound d w c := by
    rw [candidateBound, candidateBound, nestingBound, nestingBound, hreorders.size_eq]
  obtain ⟨hmore, hfound⟩ := solve_gathers_of_plain hw hplain hc hrounds hown henv.compact hclear
    hframe
  obtain ⟨hmore', hfound'⟩ := solve_gathers_of_plain (c := c') hw (hreorders.plain hplain)
    (hreorders.nodeIds_perm.nodup hc) (hbound.le.trans hrounds) hown henv.compact
    (hreorders.id_eq ▸ hclear) hframe
  refine ⟨hmore, hmore', ?_⟩
  have hmemory : (found c).2.memory = _ := hfound
  have hmemory' : (found c').2.memory = _ := hfound'
  rw [hmemory, hmemory']
  exact meet?_of_terms_eq hframe (fun ds hds => demands_regular hw c parent hds)
    (terms_demands_eq hreorders parent)

end Search

/-! Facts that hold of zeros of either sign. The order of the conjuncts decides which zero is bound,
and in which order the solutions come. -/

namespace Zeros

open Roads

def zero : Value := .number (Float.ofBits 0)

def negativeZero : Value := .number (Float.ofBits 0x8000000000000000)

def entries : List World.Entry :=
  [⟨⟨0⟩, [zero]⟩, ⟨⟨0⟩, [place 1]⟩, ⟨⟨1⟩, [place 1, negativeZero]⟩, ⟨⟨1⟩, [negativeZero, place 1]⟩]

def world : World := .attemptAll .empty entries

def single : Condition := .fact 2 ⟨0⟩ [var 10]

def either : Condition := .any 3 [.fact 4 ⟨1⟩ [var 10, var 11], .fact 5 ⟨1⟩ [var 11, var 10]]

theorem single_plain : single.Plain := .fact 2 ⟨0⟩ (by decide) (by simp [var])

theorem either_plain : either.Plain := by
  refine .any 3 fun c hc => ?_
  simp only [List.mem_cons, List.not_mem_nil, or_false] at hc
  rcases hc with rfl | rfl
  · exact .fact 4 ⟨1⟩ (by decide) (by simp [var])
  · exact .fact 5 ⟨1⟩ (by decide) (by simp [var])

theorem world_regular : world.Regular := by
  intro name arity row hrow v hv
  have hlists : world.Lists entries := World.lists_of_insertAll rfl
  have hall : ∀ e ∈ entries, ∀ v ∈ e.args, (v == v) = true := by decide +kernel
  exact hall _ (hlists.exists_mem (Array.mem_toList_iff.mpr hrow)).2 v hv

end Zeros

open Zeros Roads in
theorem solve_reorders_zeros :
    let path := Path.ofTask 0
    let found (c : Condition) := solve domain Zeros.world 20 c path path (gather path) ⟨{}, {}, []⟩
    (found (.all 1 [single, either])).2.memory =
        [[(⟨10⟩, zero), (⟨11⟩, place 1)], [(⟨10⟩, zero), (⟨11⟩, place 1)],
          [(⟨10⟩, place 1), (⟨11⟩, negativeZero)], [(⟨10⟩, place 1), (⟨11⟩, negativeZero)]] ∧
      (found (.all 1 [either, single])).2.memory =
        [[(⟨10⟩, place 1), (⟨11⟩, negativeZero)], [(⟨10⟩, negativeZero), (⟨11⟩, place 1)],
          [(⟨11⟩, place 1), (⟨10⟩, negativeZero)], [(⟨11⟩, negativeZero), (⟨10⟩, place 1)]] ∧
      Multiset.Rel Frame.Same ((found (.all 1 [single, either])).2.memory : Multiset Frame)
        (found (.all 1 [either, single])).2.memory := by
  intro path found
  have hplain : (Condition.all 1 [single, either]).Plain := by
    refine .all 1 fun c hc => ?_
    simp only [List.mem_cons, List.not_mem_nil, or_false] at hc
    rcases hc with rfl | rfl
    · exact single_plain
    · exact either_plain
  have hids : (Condition.all 1 [single, either]).nodeIds.Nodup := by decide
  have hrounds : candidateBound domain Zeros.world (.all 1 [single, either]) ≤ 20 := by decide
  have hreorders : (Condition.all 1 [single, either]).Reorders (.all 1 [either, single]) :=
    .permute 1 (.swap either single [])
  have hclear : Environment.Clear (path.child (.node 1)) {} := Environment.clear_empty _
  obtain ⟨-, -, hsame⟩ := solve_reorders hplain hids hreorders world_regular hrounds
    (Path.isWithin_refl path) .empty hclear fun x hx => (by cases hx)
  beta_reduce at hsame
  simp only [found]
  refine ⟨?_, ?_, hsame⟩
  · simp only [path]
    decide +kernel
  · simp only [path]
    decide +kernel

end Solver

end TaskNetwork
