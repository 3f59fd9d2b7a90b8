import TaskNetwork.Proofs.Domain.Built
import Mathlib.Data.List.Sort

/-! Valid declarations, and the domain that they make. Declarations make a domain exactly if they
are valid. The domain is what was declared, in that order, but that queries which name an axiom,
wherever it is declared, have become calls of it. -/

namespace TaskNetwork

section Results

variable {ε α β : Type}

/-- A result that is made of another one. -/
theorem bind_return_eq_ok_iff {r : Except ε α} {g : α → β} {p : Prop} {a : α}
    (hr : ∀ a', r = .ok a' ↔ p ∧ a' = a) (b : β) :
    (r >>= fun a' => pure (g a')) = .ok b ↔ p ∧ b = g a := by
  simp only [bind_eq_ok, return_eq_ok, hr]
  constructor
  · rintro ⟨_, ⟨hp, rfl⟩, rfl⟩
    exact ⟨hp, rfl⟩
  · rintro ⟨hp, rfl⟩
    exact ⟨_, ⟨hp, rfl⟩, rfl⟩

theorem mapM_eq_ok_iff {f : α → Except ε β} {P : α → Prop} {g : α → β}
    (hf : ∀ a b, f a = .ok b ↔ P a ∧ b = g a) (as : List α) (bs : List β) :
    as.mapM f = .ok bs ↔ (∀ a ∈ as, P a) ∧ bs = as.map g := by
  induction as generalizing bs with
  | nil =>
    rw [List.mapM_nil, return_eq_ok]
    simp [eq_comm]
  | cons a as ih =>
    simp only [List.mapM_cons, bind_eq_ok, return_eq_ok, hf, ih, List.forall_mem_cons,
      List.map_cons]
    constructor
    · rintro ⟨_, ⟨ha, rfl⟩, _, ⟨has, rfl⟩, rfl⟩
      exact ⟨⟨ha, has⟩, rfl⟩
    · rintro ⟨⟨ha, has⟩, rfl⟩
      exact ⟨_, ⟨ha, rfl⟩, _, ⟨has, rfl⟩, rfl⟩

end Results

section Queries

mutual

/-- The condition with another one in place of each query of a fact. -/
def Condition.mapQueries (f : NodeId → Symbol → List Term → Condition) : Condition → Condition
  | .fact id name args => f id name args
  | .derived id name args => .derived id name args
  | .all id children => .all id (Condition.mapQueriesAll f children)
  | .any id children => .any id (Condition.mapQueriesAll f children)
  | .not id child => .not id (child.mapQueries f)

def Condition.mapQueriesAll (f : NodeId → Symbol → List Term → Condition) :
    List Condition → List Condition
  | [] => []
  | c :: cs => c.mapQueries f :: Condition.mapQueriesAll f cs

end

variable (f : NodeId → Symbol → List Term → Condition)

def Clause.mapQueries (c : Clause) : Clause := { c with condition := c.condition.mapQueries f }

def Branch.mapQueries (b : Branch) : Branch :=
  { b with condition := b.condition.map (·.mapQueries f) }

def Method.mapQueries (m : Method) : Method :=
  { m with branches := m.branches.map (·.mapQueries f) }

end Queries

section Resolution

variable (isAxiom : Symbol → Nat → Bool)

/-- What a query becomes: a call of the axiom of its name and arity, if there is one. -/
def callOrQuery (id : NodeId) (name : Symbol) (args : List Term) : Condition :=
  if isAxiom name args.length then .derived id name args else .fact id name args

/-- A query calls an axiom, or it is no wider than facts are. -/
def Condition.Allowed : Condition → Prop
  | .fact _ name args => isAxiom name args.length ∨ args.length ≤ maxArity
  | .derived .. | .all .. | .any .. | .not .. => True

variable {isAxiom}

mutual

theorem Condition.resolve_eq_ok_iff : (c c' : Condition) → (c.resolve isAxiom = .ok c' ↔
    (∀ x ∈ c.nodes, x.Allowed isAxiom) ∧ c' = c.mapQueries (callOrQuery isAxiom))
  | .fact id name args, c' => by
    rw [resolve, nodes, List.forall_mem_singleton, mapQueries, callOrQuery, Allowed]
    by_cases hcalls : isAxiom name args.length
    · simp [hcalls, eq_comm]
    · by_cases hwide : maxArity < args.length
      · simp [hcalls, hwide, Nat.not_le_of_lt hwide]
      · simp [hcalls, hwide, Nat.le_of_not_lt hwide, eq_comm]
  | .derived id name args, c' => by
    rw [resolve, nodes, List.forall_mem_singleton, mapQueries, Allowed, true_and, Except.ok.injEq]
    exact eq_comm
  | .all id children, c' | .any id children, c' => by
    rw [resolve, nodes, List.forall_mem_cons, mapQueries, Allowed, true_and]
    exact bind_return_eq_ok_iff (Condition.resolveAll_eq_ok_iff children) c'
  | .not id child, c' => by
    rw [resolve, nodes, List.forall_mem_cons, mapQueries, Allowed, true_and]
    exact bind_return_eq_ok_iff (Condition.resolve_eq_ok_iff child) c'

theorem Condition.resolveAll_eq_ok_iff : (cs cs' : List Condition) →
    (Condition.resolveAll isAxiom cs = .ok cs' ↔
      (∀ x ∈ Condition.nodesAll cs, x.Allowed isAxiom) ∧
        cs' = Condition.mapQueriesAll (callOrQuery isAxiom) cs)
  | [], cs' => by simp [Condition.resolveAll, Condition.nodesAll, Condition.mapQueriesAll, eq_comm]
  | c :: cs, cs' => by
    rw [Condition.resolveAll, Condition.nodesAll, List.forall_mem_append, Condition.mapQueriesAll]
    simp only [bind_eq_ok, Condition.resolve_eq_ok_iff c,
      bind_return_eq_ok_iff (Condition.resolveAll_eq_ok_iff cs)]
    constructor
    · rintro ⟨_, ⟨hc, rfl⟩, hcs, rfl⟩
      exact ⟨⟨hc, hcs⟩, rfl⟩
    · rintro ⟨⟨hc, hcs⟩, rfl⟩
      exact ⟨_, ⟨hc, rfl⟩, hcs, rfl⟩

end

theorem Clause.resolve_eq_ok_iff (c c' : Clause) : c.resolve isAxiom = .ok c' ↔
    (∀ x ∈ c.condition.nodes, x.Allowed isAxiom) ∧ c' = c.mapQueries (callOrQuery isAxiom) :=
  bind_return_eq_ok_iff c.condition.resolve_eq_ok_iff c'

/-- A branch has a task, and the queries in its condition are allowed. -/
structure Branch.Valid (isAxiom : Symbol → Nat → Bool) (b : Branch) : Prop where
  tasks : b.tasks ≠ []
  queries : ∀ c ∈ b.condition, ∀ x ∈ c.nodes, x.Allowed isAxiom

theorem Branch.resolve_eq_ok_iff (method : Symbol) (b b' : Branch) :
    b.resolve isAxiom method = .ok b' ↔
      b.Valid isAxiom ∧ b' = b.mapQueries (callOrQuery isAxiom) := by
  have hvalid : b.Valid isAxiom ↔
      b.tasks ≠ [] ∧ ∀ c ∈ b.condition, ∀ x ∈ c.nodes, x.Allowed isAxiom :=
    ⟨fun h => ⟨h.tasks, h.queries⟩, fun h => ⟨h.1, h.2⟩⟩
  rw [hvalid]
  unfold Branch.resolve
  split
  · next hempty => simp [List.isEmpty_iff.mp hempty]
  · next hempty =>
    have htasks : b.tasks ≠ [] := fun h => hempty (List.isEmpty_iff.mpr h)
    obtain ⟨id, name, condition, tasks⟩ := b
    cases condition with
    | none => simp [htasks, mapQueries, eq_comm]
    | some c =>
      refine (bind_return_eq_ok_iff c.resolve_eq_ok_iff b').trans ?_
      simp [htasks, mapQueries]

/-- A method has a branch, and each of its branches is valid. -/
structure Method.Valid (isAxiom : Symbol → Nat → Bool) (m : Method) : Prop where
  nonempty : m.branches ≠ []
  branches : ∀ b ∈ m.branches, b.Valid isAxiom

theorem Method.resolve_eq_ok_iff (m m' : Method) : m.resolve isAxiom = .ok m' ↔
    m.Valid isAxiom ∧ m' = m.mapQueries (callOrQuery isAxiom) := by
  have hvalid : m.Valid isAxiom ↔ m.branches ≠ [] ∧ ∀ b ∈ m.branches, b.Valid isAxiom :=
    ⟨fun h => ⟨h.nonempty, h.branches⟩, fun h => ⟨h.1, h.2⟩⟩
  rw [hvalid]
  unfold Method.resolve
  split
  · next hempty => simp [List.isEmpty_iff.mp hempty]
  · next hempty =>
    have hnonempty : m.branches ≠ [] := fun h => hempty (List.isEmpty_iff.mpr h)
    refine (bind_return_eq_ok_iff
      (mapM_eq_ok_iff (Branch.resolve_eq_ok_iff m.name) m.branches) m').trans ?_
    simp [hnonempty, mapQueries]

end Resolution

section Indexes

variable {κ α : Type} [DecidableEq κ] {key : κ} {as : Assignment κ α}

theorem get?_eq_none_iff_not_mem : as.get? key = none ↔ key ∉ as.map (·.1) := by
  rw [Assignment.get?_eq_none_iff, List.mem_map]
  exact ⟨fun h ⟨p, hp, hkey⟩ => h p hp hkey, fun h p hp hkey => h ⟨p, hp, hkey⟩⟩

theorem not_nodup_of_isSome_get? (h : (as.get? key).isSome) (keys : List κ) :
    ¬(key :: keys ++ as.map (·.1)).Nodup := by
  have hmem : key ∈ as.map (·.1) := by
    by_contra hmem
    rw [get?_eq_none_iff_not_mem.mpr hmem] at h
    cases h
  exact fun hnodup => (List.nodup_cons.mp hnodup).1 (List.mem_append_right keys hmem)

theorem nodup_append_put_iff (h : as.get? key = none) (a : α) (keys : List κ) :
    (keys ++ (as.put key a).map (·.1)).Nodup ↔ (key :: keys ++ as.map (·.1)).Nodup := by
  rw [Assignment.put_of_get?_eq_none h, List.map_append, ← List.append_assoc]
  exact (List.perm_append_singleton key (keys ++ as.map (·.1))).nodup_iff

theorem nodup_put (h : as.get? key = none) (a : α) (has : (as.map (·.1)).Nodup) :
    ((as.put key a).map (·.1)).Nodup :=
  (nodup_append_put_iff h a []).mpr (List.nodup_cons.mpr ⟨get?_eq_none_iff_not_mem.mp h, has⟩)

theorem collectConstants_eq_ok_iff (cs : List Constant) {known : Assignment (Symbol × Symbol) Value}
    (hknown : (known.map (·.1)).Nodup) (known' : Assignment (Symbol × Symbol) Value) :
    collectConstants known cs = .ok known' ↔
      ((cs.map fun c => (c.group, c.name)) ++ known.map (·.1)).Nodup ∧
        known' = known ++ cs.map fun c => ((c.group, c.name), c.value) := by
  induction cs generalizing known with
  | nil => simp [collectConstants, hknown, eq_comm]
  | cons c cs ih =>
    rw [collectConstants, List.map_cons, List.map_cons]
    split
    · next htwice => simp only [not_nodup_of_isSome_get? htwice, false_and, reduceCtorEq]
    · next hnew =>
      have hnone : known.get? (c.group, c.name) = none := by simpa using hnew
      rw [ih (nodup_put hnone c.value hknown), nodup_append_put_iff hnone,
        Assignment.put_of_get?_eq_none hnone, List.append_assoc]
      rfl

theorem resolveMethods_eq_ok_iff {isAxiom : Symbol → Nat → Bool} (ms : List Method)
    {index : Assignment Signature Nat} (hindex : (index.map (·.1)).Nodup) (place : Nat)
    (resolved : List Method × Assignment Signature Nat) :
    resolveMethods isAxiom index place ms = .ok resolved ↔
      (((ms.map fun m => (m.name, m.arity)) ++ index.map (·.1)).Nodup ∧
        ∀ m ∈ ms, m.Valid isAxiom) ∧
        resolved = (ms.map (·.mapQueries (callOrQuery isAxiom)),
          index ++ Domain.indexMethods place ms) := by
  induction ms generalizing index place resolved with
  | nil => simp [resolveMethods, Domain.indexMethods, hindex, eq_comm]
  | cons m ms ih =>
    rw [resolveMethods, List.map_cons]
    split
    · next htwice => simp only [not_nodup_of_isSome_get? htwice, false_and, reduceCtorEq]
    · next hnew =>
      have hnone : index.get? (m.name, m.arity) = none := by simpa using hnew
      simp only [bind_eq_ok, return_eq_ok, Method.resolve_eq_ok_iff,
        ih (nodup_put hnone place hindex), nodup_append_put_iff hnone, List.forall_mem_cons]
      rw [Assignment.put_of_get?_eq_none hnone, List.append_assoc]
      constructor
      · rintro ⟨_, ⟨hm, rfl⟩, _, ⟨⟨hnodup, hms⟩, rfl⟩, rfl⟩
        exact ⟨⟨hnodup, hm, hms⟩, rfl⟩
      · rintro ⟨⟨hnodup, hm, hms⟩, rfl⟩
        exact ⟨_, ⟨hm, rfl⟩, _, ⟨⟨hnodup, hms⟩, rfl⟩, rfl⟩

end Indexes

namespace Declaration

section Acceptance

variable (declarations : List Declaration)

def constants : List Constant := declarations.filterMap (·.constant?)

def clauses : List Clause := declarations.filterMap (·.clause?)

def methods : List Method := declarations.filterMap (·.method?)

/-- Some clause of that name and arity is declared, before or after what calls it. -/
def isAxiom (name : Symbol) (arity : Nat) : Bool :=
  (clauses declarations).any fun c => c.name == name && c.arity == arity

/-- No constant and no method is declared twice, no method and no branch is empty, and facts are
queried only as wide as they are. -/
structure Valid : Prop where
  constants : ((constants declarations).map fun c => (c.group, c.name)).Nodup
  clauses : ∀ c ∈ clauses declarations, ∀ x ∈ c.condition.nodes, x.Allowed (isAxiom declarations)
  distinct : ((methods declarations).map fun m => (m.name, m.arity)).Nodup
  methods : ∀ m ∈ methods declarations, m.Valid (isAxiom declarations)

/-- A query, or a call of the axiom that the declarations have for it. -/
def call : NodeId → Symbol → List Term → Condition := callOrQuery (isAxiom declarations)

def marks : List Symbol := declarations.filterMap (·.mark?)

/-- What valid declarations make, if the method at `start` is the one to start from. -/
def assemble (start : Option Nat) : Domain :=
  .ofLists (constants declarations)
    ((clauses declarations).map (·.mapQueries (call declarations)))
    ((methods declarations).map (·.mapQueries (call declarations))) start

/-- The calls are resolved by what is declared, as the index of the clauses has all of it. -/
theorem partsOfDeclarations_eq : Domain.Parts.ofDeclarations declarations = do
    let constants ← collectConstants [] (constants declarations)
    let resolved ← (clauses declarations).mapM (·.resolve (isAxiom declarations))
    let (methods, methodIndex) ←
      resolveMethods (isAxiom declarations) [] 0 (methods declarations)
    let start ← startPlace methodIndex (marks declarations)
    return { constants, clauses := resolved.toArray, methods, methodIndex,
             clauseIndex := indexClauses [] 0 (clauses declarations), start } := by
  have haxiom : (fun name arity =>
      ((indexClauses [] 0 (clauses declarations)).get? (name, arity)).isSome) =
      isAxiom declarations :=
    funext₂ fun name arity => isSome_get?_indexClauses name arity [] 0 (clauses declarations)
  rw [← haxiom]
  rfl

variable {declarations}

theorem assemble_toParts (hvalid : Valid declarations) (start : Option Nat) :
    (assemble declarations start).toParts =
      { constants := (constants declarations).map fun c => ((c.group, c.name), c.value)
        clauses := ((clauses declarations).map (·.mapQueries (call declarations))).toArray
        methods := (methods declarations).map (·.mapQueries (call declarations))
        methodIndex := Domain.indexMethods 0 (methods declarations)
        clauseIndex := indexClauses [] 0 (clauses declarations)
        start } := by
  have hresolve : (clauses declarations).mapM (·.resolve (isAxiom declarations)) =
      .ok ((clauses declarations).map (·.mapQueries (call declarations))) :=
    (mapM_eq_ok_iff Clause.resolve_eq_ok_iff _ _).mpr ⟨hvalid.clauses, rfl⟩
  rw [← indexClauses_of_resolve hresolve,
    ← Domain.indexMethods_map (f := (·.mapQueries (call declarations))) fun m => ⟨rfl, rfl⟩]
  rfl

/-- Declarations make a domain exactly if they are valid and their marks tell from which method to
start. -/
theorem ofDeclarations_eq_ok_iff_start (declarations : List Declaration) (d : Domain) :
    Domain.ofDeclarations declarations = .ok d ↔ Valid declarations ∧
      ∃ start, startPlace (Domain.indexMethods 0 (methods declarations)) (marks declarations) =
        .ok start ∧ d = assemble declarations start := by
  have hconstants := @collectConstants_eq_ok_iff (constants declarations) [] List.nodup_nil
  have hclauses := mapM_eq_ok_iff (@Clause.resolve_eq_ok_iff (isAxiom declarations))
    (clauses declarations)
  have hmethods := @resolveMethods_eq_ok_iff (isAxiom declarations)
    (methods declarations) [] List.nodup_nil 0
  simp only [List.map_nil, List.append_nil, List.nil_append] at hconstants hmethods
  simp only [Domain.ofDeclarations_eq_ok, partsOfDeclarations_eq, bind_eq_ok, return_eq_ok,
    hconstants, hclauses, hmethods]
  constructor
  · rintro ⟨_, ⟨hdifferent, rfl⟩, _, ⟨hallowed, rfl⟩, _, ⟨⟨hdistinct, hmethods⟩, rfl⟩, start,
      hstart, hparts⟩
    have hvalid : Valid declarations := ⟨hdifferent, hallowed, hdistinct, hmethods⟩
    refine ⟨hvalid, start, hstart, Domain.toParts_inj.mp ?_⟩
    rw [assemble_toParts hvalid, ← hparts]
    rfl
  · rintro ⟨hvalid, start, hstart, rfl⟩
    exact ⟨_, ⟨hvalid.constants, rfl⟩, _, ⟨hvalid.clauses, rfl⟩, _,
      ⟨⟨hvalid.distinct, hvalid.methods⟩, rfl⟩, start, hstart, (assemble_toParts hvalid start).symm⟩

theorem ofDeclarations_eq_ok_iff (hunmarked : ∀ x ∈ declarations, x.mark? = none) (d : Domain) :
    Domain.ofDeclarations declarations = .ok d ↔
      Valid declarations ∧ d = assemble declarations none := by
  have hmarks : marks declarations = [] := List.filterMap_eq_nil_iff.mpr hunmarked
  rw [ofDeclarations_eq_ok_iff_start, hmarks]
  refine and_congr_right fun _ => ⟨?_, fun h => ⟨none, rfl, h⟩⟩
  rintro ⟨_, ⟨⟩, h⟩
  exact h

theorem zipIdx_filter_map_snd {α : Type} (p : α → Bool) (as : List α) (place : Nat) :
    ((as.zipIdx place).filter (p ·.1)).map (·.2) = as.findIdxs p place := by
  induction as generalizing place with
  | nil => rfl
  | cons a as ih =>
    rw [List.zipIdx_cons, List.findIdxs_cons, ← ih]
    cases h : p a <;> simp [h]

theorem get?_map_pair (group name : Symbol) (cs : List Constant) :
    Assignment.get? (group, name) (cs.map fun c => ((c.group, c.name), c.value)) =
      (cs.find? fun c => c.group == group && c.name == name).map (·.value) := by
  induction cs with
  | nil => rfl
  | cons c cs ih =>
    rw [List.map_cons, Assignment.get?, ih, List.find?_cons]
    by_cases hkey : (c.group, c.name) = (group, name)
    · obtain ⟨rfl, rfl⟩ := Prod.mk.inj hkey
      simp
    · have hfalse : (c.group == group && c.name == name) = false := beq_false_of_ne hkey
      simp [hkey, hfalse]

/-- Declarations without a mark make a domain exactly if they are valid. It consists of what they
declare, in that order, with calls in place of the queries that name an axiom. What its indexes lead
to is what a search through the declarations finds. -/
theorem ofDeclarations_accepts (hunmarked : ∀ x ∈ declarations, x.mark? = none) :
    ((∃ d, Domain.ofDeclarations declarations = .ok d) ↔ Valid declarations) ∧
      ∀ d, Domain.ofDeclarations declarations = .ok d →
        d.constants = (constants declarations).map (fun c => ((c.group, c.name), c.value)) ∧
        d.clauses.toList = (clauses declarations).map (·.mapQueries (call declarations)) ∧
        d.methods = (methods declarations).map (·.mapQueries (call declarations)) ∧
        d.top = none ∧
        (∀ name arity, d.method? name arity =
          ((methods declarations).find? fun m => m.name == name && m.arity == arity).map
            (·.mapQueries (call declarations))) ∧
        (∀ name arity, d.clausePlaces name arity =
          (clauses declarations).findIdxs fun c => c.name == name && c.arity == arity) ∧
        ∀ group name, d.constant? group name =
          ((constants declarations).find? fun c => c.group == group && c.name == name).map
            (·.value) := by
  have heq := ofDeclarations_eq_ok_iff hunmarked
  refine ⟨⟨fun ⟨d, hd⟩ => ((heq d).mp hd).1, fun hvalid => ⟨_, (heq _).mpr ⟨hvalid, rfl⟩⟩⟩, ?_⟩
  intro d hd
  obtain ⟨-, rfl⟩ := (heq d).mp hd
  refine ⟨rfl, rfl, rfl, rfl, fun name arity => ?_, fun name arity => ?_, fun group name => ?_⟩
  · rw [Domain.method?_eq_find?]
    exact List.find?_map ..
  · rw [Domain.clausePlaces_eq]
    have hfits := zipIdx_filter_map_snd (fun c : Clause => c.name == name && c.arity == arity)
      (assemble declarations none).clauses.toList 0
    exact hfits.trans (List.findIdxs_map ..)
  · exact get?_map_pair group name (constants declarations)

end Acceptance

/-! A domain with an axiom of eleven parameters, which is called before it is declared and by
itself. Between its two clauses stands one of another axiom that has the same name. -/

namespace Seated

open Roads

def seats : List Term := .replicate 11 (var 10)

def stay (call : Condition) : Method :=
  ⟨7, ⟨4⟩, [], [⟨6, ⟨20⟩, some (.not 5 (.all 4 [road 3 [], call])), [⟨⟨5⟩, []⟩]⟩]⟩

def seated (call : Condition) : Clause := ⟨10, ⟨1⟩, seats, .any 9 [closed 8 [var 10], call]⟩

def alone : Clause := ⟨12, ⟨1⟩, [var 10], closed 11 [var 10]⟩

def crowded : Clause := ⟨14, ⟨1⟩, seats, road 13 [var 10]⟩

def declarations : List Declaration :=
  [.constant ⟨⟨30⟩, ⟨31⟩, place 0⟩, .method (stay (way 1 seats)) false,
    .clause (seated (way 2 seats)), .clause alone, .constant ⟨⟨30⟩, ⟨32⟩, place 1⟩,
    .clause crowded]

end Seated

open Seated Roads in
theorem ofDeclarations_accepts_seated :
    Valid Seated.declarations ∧ ∃ d, Domain.ofDeclarations Seated.declarations = .ok d ∧
      d.methods = [stay (wayCalled 1 seats)] ∧
      d.clauses.toList = [seated (wayCalled 2 seats), alone, crowded] ∧
      d.method? ⟨4⟩ 0 = some (stay (wayCalled 1 seats)) ∧ d.clausePlaces ⟨1⟩ 11 = [0, 2] ∧
      d.constant? ⟨30⟩ ⟨32⟩ = some (place 1) := by
  have hunmarked : ∀ x ∈ Seated.declarations, x.mark? = none := by decide
  obtain ⟨hvalid, hdomain⟩ := ofDeclarations_accepts hunmarked
  have hmade : ∃ d, Domain.ofDeclarations Seated.declarations = .ok d := ⟨_, rfl⟩
  refine ⟨hvalid.mp hmade, ?_⟩
  obtain ⟨d, hd⟩ := hmade
  obtain ⟨-, hclauses, hmethods, -, hmethod, hplaces, hconstant⟩ := hdomain d hd
  exact ⟨d, hd, hmethods, hclauses, hmethod _ _, hplaces _ _, hconstant _ _⟩

end Declaration

end TaskNetwork
