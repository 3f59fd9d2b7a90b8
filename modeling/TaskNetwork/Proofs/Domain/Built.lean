import TaskNetwork.Proofs.Domain.Lookup
import TaskNetwork.Proofs.Domain.Nodes
import TaskNetwork.Proofs.World.Entries

/-! Domains that are made of declarations. What remains a query of a fact when calls of axioms are
told apart is no wider than facts are, in branches and in clauses alike. -/

namespace TaskNetwork

section Results

variable {ε α β : Type}

/-- What a list of results holds, if all are good, comes from one of them. -/
theorem exists_of_mem_mapM {f : α → Except ε β} {as : List α} {bs : List β} {b : β}
    (h : as.mapM f = .ok bs) (hb : b ∈ bs) : ∃ a ∈ as, f a = .ok b := by
  induction as generalizing bs with
  | nil =>
    obtain rfl := return_eq_ok.mp h
    cases hb
  | cons a as ih =>
    rw [List.mapM_cons, bind_eq_ok] at h
    obtain ⟨b', hfirst, h⟩ := h
    obtain ⟨bs', hrest, h⟩ := bind_eq_ok.mp h
    obtain rfl := return_eq_ok.mp h
    rcases List.mem_cons.mp hb with rfl | hb
    · exact ⟨a, List.mem_cons_self, hfirst⟩
    · obtain ⟨a', ha', heq⟩ := ih hrest hb
      exact ⟨a', List.mem_cons_of_mem _ ha', heq⟩

end Results

theorem mapM_of_resolveMethods {isAxiom : Symbol → Nat → Bool}
    {index : Assignment Signature Nat} {place : Nat} {ms : List Method}
    {resolved : List Method × Assignment Signature Nat}
    (h : resolveMethods isAxiom index place ms = .ok resolved) :
    ms.mapM (·.resolve isAxiom) = .ok resolved.1 := by
  induction ms generalizing index place resolved with
  | nil =>
    cases h
    rfl
  | cons m ms ih =>
    rw [resolveMethods] at h
    split at h
    · cases h
    · obtain ⟨m', hm, h⟩ := bind_eq_ok.mp h
      obtain ⟨rest, hrest, h⟩ := bind_eq_ok.mp h
      obtain rfl := return_eq_ok.mp h
      rw [List.mapM_cons, hm, ih hrest]
      rfl

/-- The clauses and methods of a domain are the resolved declarations. -/
theorem Domain.resolved_of_declarations {declarations : List Declaration} {d : Domain}
    (h : ofDeclarations declarations = .ok d) : ∃ isAxiom,
      (declarations.filterMap (·.clause?)).mapM (·.resolve isAxiom) = .ok d.clauses.toList ∧
        (declarations.filterMap (·.method?)).mapM (·.resolve isAxiom) = .ok d.methods := by
  obtain ⟨_, -, h⟩ := bind_eq_ok.mp (ofDeclarations_eq_ok.mp h)
  obtain ⟨clauses, hclauses, h⟩ := bind_eq_ok.mp h
  obtain ⟨⟨methods, index⟩, hmethods, h⟩ := bind_eq_ok.mp h
  obtain ⟨start, -, h⟩ := bind_eq_ok.mp h
  have hparts := return_eq_ok.mp h
  rw [← hparts]
  exact ⟨_, hclauses, mapM_of_resolveMethods hmethods⟩

/-- The fact queries of a condition are no wider than facts are. -/
def Condition.Narrow (c : Condition) : Prop :=
  ∀ id name args, .fact id name args ∈ c.nodes → args.length ≤ maxArity

mutual

theorem Condition.narrow_of_resolve {isAxiom : Symbol → Nat → Bool} :
    (c : Condition) → {c' : Condition} → c.resolve isAxiom = .ok c' → c'.Narrow
  | .fact id name args, c', h => by
    rw [Condition.resolve] at h
    intro i n as hmem
    split at h
    · cases h
      simp [Condition.nodes] at hmem
    · split at h
      · cases h
      · cases h
        simp only [Condition.nodes, List.mem_singleton, Condition.fact.injEq] at hmem
        obtain ⟨-, -, rfl⟩ := hmem
        omega
  | .derived id name args, c', h => by
    rw [Condition.resolve] at h
    cases h
    intro i n as hmem
    simp [Condition.nodes] at hmem
  | .all id children, c', h | .any id children, c', h => by
    rw [Condition.resolve] at h
    obtain ⟨children', hchildren, h⟩ := bind_eq_ok.mp h
    obtain rfl := return_eq_ok.mp h
    intro i n as hmem
    rw [Condition.nodes, List.mem_cons] at hmem
    rcases hmem with hmem | hmem
    · cases hmem
    · exact Condition.narrow_of_resolveAll children hchildren i n as hmem
  | .not id child, c', h => by
    rw [Condition.resolve] at h
    obtain ⟨child', hchild, h⟩ := bind_eq_ok.mp h
    obtain rfl := return_eq_ok.mp h
    intro i n as hmem
    rw [Condition.nodes, List.mem_cons] at hmem
    rcases hmem with hmem | hmem
    · cases hmem
    · exact Condition.narrow_of_resolve child hchild i n as hmem

theorem Condition.narrow_of_resolveAll {isAxiom : Symbol → Nat → Bool} :
    (cs : List Condition) → {cs' : List Condition} → Condition.resolveAll isAxiom cs = .ok cs' →
      ∀ id name args, .fact id name args ∈ Condition.nodesAll cs' → args.length ≤ maxArity
  | [], cs', h => by
    rw [Condition.resolveAll] at h
    cases h
    intro i n as hmem
    cases hmem
  | c :: cs, cs', h => by
    rw [Condition.resolveAll] at h
    obtain ⟨c', hc, h⟩ := bind_eq_ok.mp h
    obtain ⟨rest', hrest, h⟩ := bind_eq_ok.mp h
    obtain rfl := return_eq_ok.mp h
    intro i n as hmem
    rw [Condition.nodesAll, List.mem_append] at hmem
    rcases hmem with hmem | hmem
    · exact Condition.narrow_of_resolve c hc i n as hmem
    · exact Condition.narrow_of_resolveAll cs hrest i n as hmem

end

theorem Clause.narrow_of_resolve {isAxiom : Symbol → Nat → Bool} {c c' : Clause}
    (h : c.resolve isAxiom = .ok c') : c'.condition.Narrow := by
  obtain ⟨condition, hcondition, h⟩ := bind_eq_ok.mp h
  obtain rfl := return_eq_ok.mp h
  exact c.condition.narrow_of_resolve hcondition

theorem Branch.narrow_of_resolve {isAxiom : Symbol → Nat → Bool} {method : Symbol} {b b' : Branch}
    (h : b.resolve isAxiom method = .ok b') {c : Condition} (hc : b'.condition = some c) :
    c.Narrow := by
  unfold Branch.resolve at h
  split at h
  · cases h
  · split at h
    · cases h
      simp_all
    · obtain ⟨condition, hcondition, h⟩ := bind_eq_ok.mp h
      obtain rfl := return_eq_ok.mp h
      obtain rfl := Option.some.inj hc
      exact Condition.narrow_of_resolve _ hcondition

theorem Method.narrow_of_resolve {isAxiom : Symbol → Nat → Bool} {m m' : Method}
    (h : m.resolve isAxiom = .ok m') {b : Branch} (hb : b ∈ m'.branches) {c : Condition}
    (hc : b.condition = some c) : c.Narrow := by
  unfold Method.resolve at h
  split at h
  · cases h
  · obtain ⟨branches, hbranches, h⟩ := bind_eq_ok.mp h
    obtain rfl := return_eq_ok.mp h
    obtain ⟨b', _, hb'⟩ := exists_of_mem_mapM hbranches hb
    exact Branch.narrow_of_resolve hb' hc

namespace Domain

/-- The conditions of branches and of clauses query facts only as wide as facts are. -/
structure Narrow (d : Domain) : Prop where
  branches : ∀ m ∈ d.methods, ∀ b ∈ m.branches, ∀ c, b.condition = some c → c.Narrow
  clauses : ∀ c ∈ d.clauses, c.condition.Narrow

theorem Narrow.condition {d : Domain} (h : d.Narrow) {c : Condition} (hc : c ∈ d.conditions) :
    c.Narrow := by
  intro id name args hmem
  rcases List.mem_append.mp hc with hbranch | hclause
  · obtain ⟨m, hm, hbranch⟩ := List.mem_flatMap.mp hbranch
    obtain ⟨b, hb, hbranch⟩ := List.mem_flatMap.mp hbranch
    cases hcondition : b.condition with
    | none => simp [hcondition] at hbranch
    | some y =>
      rw [hcondition] at hbranch
      exact h.branches m hm b hb y hcondition id name args (Condition.nodes_trans hbranch hmem)
  · obtain ⟨clause, hin, hclause⟩ := List.mem_flatMap.mp hclause
    exact h.clauses clause (by simpa using hin) id name args (Condition.nodes_trans hclause hmem)

theorem narrow_of_declarations {declarations : List Declaration} {d : Domain}
    (h : ofDeclarations declarations = .ok d) : d.Narrow := by
  obtain ⟨isAxiom, hclauses, hmethods⟩ := resolved_of_declarations h
  constructor
  · intro m hm b hb c hc
    obtain ⟨m', _, hm'⟩ := exists_of_mem_mapM hmethods hm
    exact Method.narrow_of_resolve hm' hb hc
  · intro c hc
    obtain ⟨c', _, hc'⟩ := exists_of_mem_mapM hclauses (by simpa using hc)
    exact Clause.narrow_of_resolve hc'

end Domain

/-! A small domain. There is a way wherever roads lead; to leave place 0, one walks to a place to
which there is a way, unless it is closed, and otherwise one waits. -/

namespace Roads

def place (n : Nat) : Value := .symbol ⟨100 + n⟩

def var (name : Nat) : Term := .var .inOut ⟨name⟩

def road (id : NodeId) (args : List Term) : Condition := .fact id ⟨0⟩ args

def way (id : NodeId) (args : List Term) : Condition := .fact id ⟨1⟩ args

def wayCalled (id : NodeId) (args : List Term) : Condition := .derived id ⟨1⟩ args

def closed (id : NodeId) (args : List Term) : Condition := .fact id ⟨2⟩ args

def onward (way : NodeId → List Term → Condition) : List Clause :=
  [⟨1, ⟨1⟩, [var 10, var 11], road 0 [var 10, var 11]⟩,
    ⟨5, ⟨1⟩, [var 10, var 11], .all 4 [road 2 [var 10, var 12], way 3 [var 12, var 11]]⟩]

def reachable (way : NodeId → List Term → Condition) : Condition :=
  .all 9 [way 6 [.literal (place 0), var 11], .not 8 (closed 7 [var 11])]

def walk (way : NodeId → List Term → Condition) : Branch :=
  ⟨10, ⟨20⟩, some (reachable way), [⟨⟨5⟩, [var 11]⟩]⟩

def wait : Branch := ⟨11, ⟨21⟩, none, [⟨⟨6⟩, []⟩]⟩

def leave (way : NodeId → List Term → Condition) : Method := ⟨12, ⟨4⟩, [], [walk way, wait]⟩

def declarations : List Declaration :=
  (onward way).map .clause ++ [.method (leave way) true]

def domain : Domain := .ofLists [] (onward wayCalled) [leave wayCalled] (some 0)

theorem domain_built : Domain.ofDeclarations declarations = .ok domain := rfl

theorem domain_distinct : domain.nodeIds.Nodup := by decide

/-- Roads from 0 to 1, which is closed, and from 1 to 2. -/
def entries : List World.Entry :=
  [⟨⟨0⟩, [place 0, place 1]⟩, ⟨⟨0⟩, [place 1, place 2]⟩, ⟨⟨2⟩, [place 1]⟩]

def world : World := .attemptAll .empty entries

end Roads

end TaskNetwork
