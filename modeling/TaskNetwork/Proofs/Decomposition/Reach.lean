import TaskNetwork.Proofs.Decomposition.Alternatives
import TaskNetwork.Proofs.Source.Numbering
import TaskNetwork.Proofs.Solver.Reach

/-! Errors of a decomposition, whatever its domain is like. One that is not cut off can fail only at
a query that a branch reaches and that is wider than facts are. Domains made of declarations have no
such query, so for them this error does not arise. -/

namespace TaskNetwork.Decomposition

open Solver

/-- What can go wrong in a domain: a search is cut off, or a branch comes to a query that is wider
than facts are. -/
inductive Fault (d : Domain) : SolveError → Prop
  | unfinished : Fault d .unfinished
  | wide {m : Method} {b : Branch} {c : Condition} {id : NodeId} {name : Symbol}
      {args : List Term} : m ∈ d.methods → b ∈ m.branches → b.condition = some c →
      d.Reaches c (.fact id name args) → maxArity < args.length →
      Fault d (.arityOutOfRange name args.length)

theorem Fault.eq_unfinished {d : Domain} (hd : d.Narrow) {e : SolveError} (h : Fault d e) :
    e = .unfinished := by
  cases h with
  | unfinished => rfl
  | wide hm hb hc hreach hwide =>
    exact absurd (hd.length_le_of_reaches hm hb hc hreach) (Nat.not_le.mpr hwide)

section Branches

variable {d : Domain} {w : World} {rounds : Nat} {m : Method} {actuals : List Value}

theorem failsOnly_select {errors : SolveError → Prop} (path : Path) :
    FailsOnly errors (select path) := by
  intro s e h
  unfold select at h
  split at h <;> cases h

theorem branchSearch_failsOnly (hm : m ∈ d.methods) {b : Branch} (hb : b ∈ m.branches)
    (path : Path) : FailsOnly (Fault d) (branchSearch d w rounds m b actuals path) := by
  intro s e h
  unfold branchSearch at h
  split at h
  · next env _ =>
    cases hcondition : b.condition with
    | none =>
      rw [hcondition] at h
      exact failsOnly_select path _ e h
    | some c =>
      rw [hcondition] at h
      have hwide (id : NodeId) (name : Symbol) (args : List Term)
          (hreach : d.Reaches c (.fact id name args)) (hlt : maxArity < args.length) :
          Fault d (.arityOutOfRange name args.length) := .wide hm hb hcondition hreach hlt
      exact solveWithin_failsOnly d w .unfinished _ c path path _ hwide (failsOnly_select path) _ e h
  · cases h

theorem solution?_fault (hm : m ∈ d.methods) {b : Branch} (hb : b ∈ m.branches) {methodPath : Path}
    {skip : Nat} {s : State Unit} {e : SolveError}
    (h : (solution? d w rounds methodPath m b actuals skip s).1 = .error e) : Fault d e := by
  unfold solution? at h
  dsimp only at h
  split at h
  · next heq =>
    cases h
    exact failsOnly_within (fun _ _ h => nomatch h) (branchSearch_failsOnly hm hb) _ e
      (congrArg Prod.fst heq)
  · cases h

theorem tryBranch_failsOnly (hm : m ∈ d.methods) (choice : Choice) (methodPath : Path) (i : Nat) :
    FailsOnly (Fault d) (tryBranch d w rounds m actuals choice methodPath i) := by
  intro s e h
  unfold tryBranch at h
  split at h
  · cases h
  · next b hb =>
    dsimp only at h
    split at h
    · next heq =>
      cases h
      exact solution?_fault hm (List.mem_of_getElem? hb) (congrArg Prod.fst heq)
    · cases h
    · cases h

theorem takeBranch_failsOnly (hm : m ∈ d.methods) (root : Path) (choice : Choice) :
    FailsOnly (Fault d) (takeBranch d w rounds m actuals root choice) :=
  failsOnly_within failsOnly_blocked fun path _ =>
    failsOnly_scan .unfinished path _ (tryBranch_failsOnly hm choice path) _ _

end Branches

section Rounds

variable {d : Domain} {w : World} {rounds : Nat} {s s' : Search} {e : SolveError}

theorem expand_fault {t : PendingTask} {m : Method} (hm : m ∈ d.methods)
    (h : (Search.expand d w rounds t m s).1 = .error e) : Fault d e := by
  unfold Search.expand at h
  split at h
  · cases h
  · next actuals _ =>
    split at h
    · next heq =>
      cases h
      have hchoose := congrArg Prod.fst heq
      unfold Search.choose at hchoose
      dsimp only at hchoose
      split at hchoose
      · next hreply =>
        cases hchoose
        exact takeBranch_failsOnly hm _ _ _ _ hreply
      · cases hchoose
      · cases hchoose
    · cases h
    · cases h

theorem round_fault {course : Course}
    (h : s.round d w rounds course = .ended (.error (.error e)) s') : Fault d e := by
  cases course with
  | onward =>
    rw [Search.round] at h
    split at h
    · cases h
    · next hstep =>
      cases h
      have herror := congrArg Prod.fst hstep
      unfold Search.step at herror
      dsimp only at herror
      split at herror
      · cases herror
      · split at herror
        · next hmethod => exact expand_fault (Domain.of_method?_eq_some hmethod).1 herror
        · cases herror
  | back =>
    rw [Search.round] at h
    split at h <;> cases h
  | done => cases h

theorem run_fault {root : Task} (h : (Search.run d w rounds root s).1 = .error (.error e)) :
    Fault d e := by
  have hloop (left : Nat) (course : Course) (s : Search)
      (h : (Search.loop d w rounds left course s).1 = .error (.error e)) : Fault d e := by
    induction left generalizing course s with
    | zero =>
      cases h
      exact .unfinished
    | succ left ih =>
      rw [Search.loop] at h
      split at h
      · exact ih _ _ h
      · next hround =>
        subst h
        exact round_fault hround
  exact hloop rounds .onward _ h

theorem fault_of_mem_outcomes {roots : List Task}
    (h : .error (.error e) ∈ Search.outcomes d w rounds roots s) : Fault d e := by
  induction roots generalizing s with
  | nil => cases h
  | cons root roots ih =>
    rw [Search.outcomes] at h
    rcases List.mem_cons.mp h with h | h
    · exact run_fault h.symm
    · exact ih h

end Rounds

end TaskNetwork.Decomposition

namespace TaskNetwork.Planner

open Decomposition

theorem planMethod_fault {d : Domain} {w : World} {rounds : Nat} {m : Method} {goal : String}
    {fact : Symbol} {arity : Nat}
    (h : (planMethod d w rounds m goal).plan = .error (.arityOutOfRange fact arity)) :
    Fault d (.arityOutOfRange fact arity) := by
  have hrun : (Search.run d w rounds ⟨m.name, []⟩ {}).1 =
      .error (.error (.arityOutOfRange fact arity)) := by
    unfold planMethod at h
    dsimp only at h
    cases houtcome : (Search.run d w rounds ⟨m.name, []⟩ {}).1 with
    | ok plan =>
      rw [houtcome] at h
      cases h
    | error failure =>
      rw [houtcome] at h
      cases failure with
      | exhausted => cases h
      | error e =>
        cases e with
        | unfinished => cases h
        | arityOutOfRange fact' arity' =>
          cases h
          rfl
  exact run_fault hrun

/-- A domain that is made of declarations, or read from a text, has no query that is wider than
facts are anywhere that a branch comes to, so no run and no planning call ends in that error. -/
theorem no_query_too_wide {d : Domain}
    (hmade : (∃ declarations, Domain.ofDeclarations declarations = .ok d) ∨
      ∃ text symbols names, Domain.read text symbols = (.ok d, names)) (w : World) (rounds : Nat) :
    (∀ m ∈ d.methods, ∀ b ∈ m.branches, ∀ c, b.condition = some c → ∀ id name args,
        d.Reaches c (.fact id name args) → args.length ≤ maxArity) ∧
      (∀ roots s fact arity,
        .error (.error (.arityOutOfRange fact arity)) ∉ Search.outcomes d w rounds roots s) ∧
      (∀ names goal fact arity,
        (plan d w names rounds goal).plan ≠ .error (.arityOutOfRange fact arity)) ∧
      ∀ names fact arity, planTop d w names rounds ≠ .error (.arityOutOfRange fact arity) := by
  have hnarrow : d.Narrow := by
    rcases hmade with ⟨declarations, hmade⟩ | ⟨text, symbols, names, hread⟩
    · exact Domain.narrow_of_declarations hmade
    · exact Domain.narrow_of_read hread
  have hfault (fact : Symbol) (arity : Nat) : ¬Fault d (.arityOutOfRange fact arity) := by
    intro h
    cases h.eq_unfinished hnarrow
  refine ⟨fun m hm b hb c hc id name args h => hnarrow.length_le_of_reaches hm hb hc h,
    fun roots s fact arity h => hfault fact arity (fault_of_mem_outcomes h),
    fun names goal fact arity h => ?_, fun names fact arity h => ?_⟩
  · unfold plan at h
    split at h
    · exact hfault fact arity (planMethod_fault h)
    · cases h
  · unfold planTop at h
    split at h
    · exact hfault fact arity (planMethod_fault h)
    · cases h

/-! A domain with an axiom of eleven parameters, which calls itself and is called in a negation. -/

namespace Eleven

open Roads

def seats : List Term := .replicate 11 (var 10)

def seated (call : Condition) : Clause := ⟨3, ⟨1⟩, seats, .any 2 [road 0 [var 10, var 11], call]⟩

def stay (call : Condition) : Method :=
  ⟨7, ⟨4⟩, [], [⟨6, ⟨20⟩, some (.not 5 call), [⟨⟨5⟩, []⟩]⟩]⟩

def declarations : List Declaration :=
  [.method (stay (way 4 seats)) true, .clause (seated (way 1 seats))]

def domain : Domain :=
  .ofLists [] [seated (wayCalled 1 seats)] [stay (wayCalled 4 seats)] (some 0)

theorem domain_built : Domain.ofDeclarations declarations = .ok domain := rfl

end Eleven

open Roads Eleven in
theorem no_query_too_wide_eleven :
    (∃ declarations, Domain.ofDeclarations declarations = .ok Eleven.domain) ∧
      (∀ id name args, Eleven.domain.Reaches (.not 5 (wayCalled 4 seats)) (.fact id name args) →
        args.length ≤ maxArity) ∧
      (∀ fact arity, .error (.error (.arityOutOfRange fact arity)) ∉
        Search.outcomes Eleven.domain world 20 [⟨⟨4⟩, []⟩, ⟨⟨4⟩, []⟩] {}) ∧
      ∀ names fact arity,
        planTop Eleven.domain world names 20 ≠ .error (.arityOutOfRange fact arity) := by
  have hmade : ∃ declarations, Domain.ofDeclarations declarations = .ok Eleven.domain :=
    ⟨_, Eleven.domain_built⟩
  obtain ⟨hreach, houtcomes, -, htop⟩ := no_query_too_wide (.inl hmade) world 20
  exact ⟨hmade, hreach _ List.mem_cons_self _ List.mem_cons_self _ rfl, houtcomes _ _, htop⟩

end TaskNetwork.Planner
