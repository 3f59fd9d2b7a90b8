import Mathlib
import TaskNetwork.Planner
import TaskNetwork.Proofs.Source.Numbering
import TaskNetwork.Proofs.Decomposition.Errors
import TaskNetwork.Proofs.Decomposition.Leftmost
import TaskNetwork.Proofs.Decomposition.Limits

/-! Planning ends where no method comes back to itself. A task that is resumed stands at a later
choice, and there are finitely many choices; the tasks that replace it are carried out by methods
that come after its own, and there are finitely many methods. -/

namespace TaskNetwork

/-- Some branch of `p` has a task that `q` carries out. -/
def Domain.Calls (d : Domain) (p q : Method) : Prop :=
  p ∈ d.methods ∧ q ∈ d.methods ∧
    ∃ b ∈ p.branches, ∃ t ∈ b.tasks, t.name = q.name ∧ t.arity = q.arity

/-- No method leads back to itself. -/
def Domain.Acyclic (d : Domain) : Prop := ∀ m, ¬Relation.TransGen d.Calls m m

theorem Domain.acyclic_of_lt {d : Domain} (rank : Method → Nat)
    (h : ∀ p q, d.Calls p q → rank p < rank q) : d.Acyclic := by
  have hlt {p q : Method} (hpq : Relation.TransGen d.Calls p q) : rank p < rank q := by
    induction hpq with
    | single hcall => exact h _ _ hcall
    | tail _ hcall ih => exact Nat.lt_trans ih (h _ _ hcall)
  exact fun m hm => Nat.lt_irrefl _ (hlt hm)

namespace Decomposition

open Solver

section Choices

/-- One cannot go on from an answer to a later one for ever. -/
theorem offers_induction (d : Domain) (w : World) (m : Method) (actuals : List Value)
    {P : Choice → Prop} (h : ∀ c, (∀ c' b g, Offers d w m actuals c' b g →
    c ≤ c' → P c'.next) → P c) (c : Choice) : P c := by
  -- Each step leaves fewer branches, or as many branches and fewer answers of the present one.
  let answers (c : Choice) : Nat :=
    ((m.branches[c.branch]?).map fun b => (b.answers d w m actuals).length).getD 0
  induction hbranches : m.branches.length - c.branch using Nat.strong_induction_on
    generalizing c with
  | _ k ihbranch =>
    induction hanswers : answers c - c.solution using Nat.strong_induction_on generalizing c with
    | _ n ihanswer =>
      refine h c fun c' b g hoffers hle => ?_
      obtain ⟨hbranch, hanswer⟩ := hoffers
      have hinside := (List.getElem?_eq_some_iff.mp hbranch).1
      have hanswer := (List.getElem?_eq_some_iff.mp hanswer).1
      rw [Choice.le_def] at hle
      by_cases hsame : c.branch = c'.branch
      · have hcount : answers c = (b.answers d w m actuals).length := by
          simp only [answers, hsame, hbranch, Option.map_some, Option.getD_some]
        have hcount' : answers c'.next = (b.answers d w m actuals).length := by
          simp only [answers, Choice.next, hbranch, Option.map_some, Option.getD_some]
        refine ihanswer (answers c'.next - c'.next.solution) ?_ c'.next ?_ rfl
        · rw [hcount', ← hanswers, hcount]
          simp only [Choice.next]
          omega
        · simp only [Choice.next, ← hsame, hbranches]
      · refine ihbranch (m.branches.length - c'.next.branch) ?_ c'.next rfl
        simp only [Choice.next]
        omega

end Choices

section Rounds

variable (d : Domain) (w : World) (rounds : Nat)

/-- The search comes to an end that is no error. -/
inductive Ends : Course → Search → Prop
  | ended {course : Course} {s s' : Search} {outcome : Except Failure Plan}
      (h : s.round d w rounds course = .ended outcome s')
      (hreturns : ∀ e, outcome ≠ .error (.error e)) : Ends course s
  | next {course course' : Course} {s s' : Search}
      (h : s.round d w rounds course = .next course' s') (rest : Ends course' s') : Ends course s

/-- The search ends if it goes back to these points. -/
def Returns (history : List Point) : Prop :=
  ∀ s : Search, s.agenda.environment = {} → s.agenda.history = history → Ends d w rounds .back s

/-- The search has these tasks to do, and would end if it went back. -/
structure Ready (pending : List PendingTask) (s : Search) : Prop where
  environment : s.agenda.environment = {}
  pending : s.agenda.current.pending = pending
  returns : Returns d w rounds s.agenda.history

/-- The search ends with these tasks to do, if it would end by going back. -/
def Finishes (pending : List PendingTask) : Prop :=
  ∀ s, Ready d w rounds pending s → Ends d w rounds .onward s

variable {d w rounds} {s s' : Search}

theorem Ends.loop {course : Course} (h : Ends d w rounds course s) :
    ∃ left, ∀ e, (Search.loop d w rounds left course s).1 ≠ .error (.error e) := by
  induction h with
  | ended h hreturns =>
    refine ⟨1, fun e => ?_⟩
    rw [Search.loop, h]
    exact hreturns e
  | next h _ ih =>
    obtain ⟨left, hleft⟩ := ih
    refine ⟨left + 1, fun e => ?_⟩
    rw [Search.loop, h]
    exact hleft e

theorem Ends.of_step {course : Course} (hstep : Search.step d w rounds s = (.ok course, s'))
    (h : Ends d w rounds course s') : Ends d w rounds .onward s :=
  .next (by rw [Search.round, hstep]) h

theorem returns_nil : Returns d w rounds [] := by
  intro s _ hhistory
  have hround : s.round d w rounds .back = .ended (.error .exhausted) s := by
    simp only [Search.round, Agenda.goBack?, hhistory]
  exact .ended hround (by simp)

/-- Going back resumes the latest point. -/
theorem returns_cons {q : Point} {history : List Point}
    (hq : Finishes d w rounds q.resumed.pending) (h : Returns d w rounds history) :
    Returns d w rounds (q :: history) := by
  intro s henvironment hhistory
  have hround : s.round d w rounds .back = .next .onward
      (Search.count ⟨{ s.agenda with current := q.resumed, history }, s.counters⟩ .restore) := by
    simp only [Search.round, Agenda.goBack?, hhistory, passOver_eq]
  exact .next hround (hq _ ⟨henvironment, rfl, h⟩)

theorem finishes_nil : Finishes d w rounds [] := by
  intro s hs
  have hstep : Search.step d w rounds s = (.ok .done, s.count .step) := by
    simp [Search.step, Search.count, Agenda.pop?, hs.pending]
  exact .of_step hstep (.ended rfl (by simp))

section Tasks

variable {pending rest : List PendingTask} {t : PendingTask} {m : Method}

theorem Ready.back (h : Ready d w rounds pending s) : Ends d w rounds .back s :=
  h.returns s h.environment rfl

theorem Ready.of_agenda (h : Ready d w rounds pending s) (hs : s'.agenda = s.agenda) :
    Ready d w rounds pending s' :=
  ⟨hs ▸ h.environment, hs ▸ h.pending, hs ▸ h.returns⟩

theorem Ready.step (h : Ready d w rounds (t :: rest) s) :
    ∃ s₁, Ready d w rounds rest s₁ ∧
      Search.step d w rounds s = match d.method? t.call.name t.call.arity with
        | some m => Search.expand d w rounds t m s₁
        | none => (.ok (Search.takePrimitive d t s₁).1, (Search.takePrimitive d t s₁).2) := by
  refine ⟨⟨{ s.agenda with current.pending := rest }, (s.count .step).counters⟩,
    ⟨h.environment, rfl, h.returns⟩, ?_⟩
  cases hmethod : d.method? t.call.name t.call.arity with
  | none => simp [Search.step, Search.count, Agenda.pop?, h.pending, hmethod]
  | some m => simp [Search.step, Search.count, Agenda.pop?, h.pending, hmethod]

theorem finishes_primitive (hmethod : d.method? t.call.name t.call.arity = none)
    (h : Finishes d w rounds rest) : Finishes d w rounds (t :: rest) := by
  intro s hs
  obtain ⟨s₁, hs₁, hstep⟩ := hs.step
  rw [hmethod] at hstep
  have hback : Ready d w rounds rest (s₁.count .unresolvedPrimitive) := hs₁.of_agenda rfl
  refine .of_step hstep ?_
  unfold Search.takePrimitive
  split
  · split
    · exact h _ ⟨hs₁.environment, hs₁.pending, hs₁.returns⟩
    · exact hback.back
  · exact hback.back

/-- The tasks of a branch are pushed, and what is left untried is resumed later. -/
theorem Ready.replace {taken : TakenBranch} (h : Ready d w rounds rest s)
    (hresumed : Finishes d w rounds ({ t with choice := taken.choice.next } :: rest)) :
    ∃ fresh, Fresh taken.branch.tasks taken.solution.bindings fresh ∧
      Ready d w rounds (fresh ++ rest) (Search.replace t m taken s) := by
  have hpushed (agenda : Agenda) (counters : Counters)
      (hagenda : Ready d w rounds rest ⟨agenda, counters⟩) :
      ∃ fresh, Fresh taken.branch.tasks taken.solution.bindings fresh ∧ Ready d w rounds
        (fresh ++ rest) ⟨agenda.pushAll taken.branch.tasks taken.solution.bindings, counters⟩ := by
    obtain ⟨fresh, nextScope, hfresh, heq⟩ :=
      pushAll_eq agenda taken.branch.tasks taken.solution.bindings
    refine ⟨fresh, hfresh, ?_⟩
    rw [heq]
    exact ⟨hagenda.environment, congrArg (fresh ++ ·) hagenda.pending, hagenda.returns⟩
  unfold Search.replace
  split
  · have hnoted : Ready d w rounds rest
        ⟨s.agenda.remember { t with choice := taken.choice }, s.counters⟩ := by
      refine ⟨h.environment, h.pending, returns_cons ?_ h.returns⟩
      rw [h.pending]
      exact hresumed
    obtain ⟨fresh, hfresh, hready⟩ := hpushed _ _ hnoted
    exact ⟨fresh, hfresh, hready.of_agenda rfl⟩
  · obtain ⟨fresh, hfresh, hready⟩ := hpushed s.agenda s.counters (h.of_agenda rfl)
    exact ⟨fresh, hfresh, hready.of_agenda rfl⟩

theorem finishes_compound (hd : d.nodeIds.Nodup) (hhalts : ∀ e, ¬AnyHalts d w rounds e)
    (hmethod : d.method? t.call.name t.call.arity = some m)
    (h : ∀ b ∈ m.branches, ∀ g fresh, Fresh b.tasks g fresh → Finishes d w rounds (fresh ++ rest)) :
    Finishes d w rounds (t :: rest) := by
  have hm : m ∈ d.methods := (Domain.of_method?_eq_some hmethod).1
  cases hactuals : evalAll? d t.bindings.value t.call.args with
  | none =>
    intro s hs
    obtain ⟨s₁, hs₁, hstep⟩ := hs.step
    rw [hmethod] at hstep
    simp only [Search.expand, hactuals] at hstep
    exact .of_step hstep hs₁.back
  | some actuals =>
    have hchoices (c : Choice) : Finishes d w rounds ({ t with choice := c } :: rest) := by
      induction c using offers_induction d w m actuals with
      | h c ih =>
        intro s hs
        obtain ⟨s₁, hs₁, hstep⟩ := hs.step
        rw [hmethod] at hstep
        simp only [Search.expand, hactuals] at hstep
        cases hchoose : Search.choose d w rounds { t with choice := c } m actuals
            (s₁.count .expansion) with
        | mk result after =>
          obtain ⟨hagenda, hresult⟩ :=
            choose_takes (s := s₁.count .expansion) hd hm hs₁.environment hchoose
          have hafter : Ready d w rounds rest after := hs₁.of_agenda hagenda
          rw [hchoose] at hstep
          rcases hresult with ⟨e, rfl, hhalt⟩ | ⟨rfl, -⟩ | ⟨taken, rfl, htakes⟩
          · exact absurd ⟨m, hm, hhalt⟩ (hhalts e)
          · exact .of_step hstep hafter.back
          · obtain ⟨fresh, hfresh, hready⟩ := hafter.replace (m := m)
              (ih taken.choice _ _ htakes.offers htakes.from_le)
            have hbranch := List.mem_of_getElem? htakes.offers.1
            exact .of_step hstep (h _ hbranch _ fresh hfresh _ hready)
    exact hchoices t.choice

theorem finishes_append {fresh : List PendingTask} (h : Finishes d w rounds rest)
    (htasks : ∀ t ∈ fresh, ∀ rest, Finishes d w rounds rest → Finishes d w rounds (t :: rest)) :
    Finishes d w rounds (fresh ++ rest) := by
  induction fresh with
  | nil => exact h
  | cons t fresh ih =>
    exact htasks t List.mem_cons_self _ (ih fun t ht => htasks t (List.mem_cons_of_mem _ ht))

/-- A task ends if the tasks of all branches of its method do, and these belong to methods that
come after it. -/
theorem finishes_task (hd : d.nodeIds.Nodup) (hacyclic : d.Acyclic)
    (hhalts : ∀ e, ¬AnyHalts d w rounds e) (t : PendingTask) {rest : List PendingTask}
    (h : Finishes d w rounds rest) : Finishes d w rounds (t :: rest) := by
  let after (q p : Method) : Prop := Relation.TransGen d.Calls p q
  have horder : IsStrictOrder Method after :=
    { irrefl := hacyclic
      trans := fun _ _ _ h h' => h'.trans h }
  have hfounded : {m | m ∈ d.methods}.WellFoundedOn after :=
    d.methods.finite_toSet.wellFoundedOn
  let ends (m : Method) : Prop := ∀ (t : PendingTask) (rest : List PendingTask),
    d.method? t.call.name t.call.arity = some m → Finishes d w rounds rest →
    Finishes d w rounds (t :: rest)
  have hends {m : Method} (hm : m ∈ d.methods) : ends m := by
    refine hfounded.induction (P := ends) hm fun p hp ih t rest hcall hrest => ?_
    refine finishes_compound hd hhalts hcall fun b hb g fresh hfresh => ?_
    refine finishes_append hrest fun t' ht' rest' hrest' => ?_
    cases hcalled : d.method? t'.call.name t'.call.arity with
    | none => exact finishes_primitive hcalled hrest'
    | some q =>
      obtain ⟨hq, hname, harity⟩ := Domain.of_method?_eq_some hcalled
      have htask : t'.call ∈ b.tasks := hfresh.1 ▸ List.mem_map_of_mem ht'
      have hcalls : d.Calls p q := ⟨hp, hq, b, hb, t'.call, htask, hname.symm, harity.symm⟩
      exact ih q hq (.single hcalls) t' rest' hcalled hrest'
  cases hcall : d.method? t.call.name t.call.arity with
  | none => exact finishes_primitive hcall h
  | some m => exact hends (Domain.of_method?_eq_some hcall).1 t rest hcall h

end Tasks

end Rounds

section Runs

variable {d : Domain} {w : World}

/-- Rounds that suffice for the conditions of all branches. -/
theorem exists_rounds (d : Domain) (w : World) : ∃ rounds, ∀ m ∈ d.methods, ∀ b ∈ m.branches,
    ∀ c, b.condition = some c → candidateBound d w c ≤ rounds := by
  let bound (b : Branch) : Nat := (b.condition.map (candidateBound d w)).getD 0
  refine ⟨((d.methods.flatMap (·.branches)).map bound).sum, fun m hm b hb c hc => ?_⟩
  have hmem : bound b ∈ (d.methods.flatMap (·.branches)).map bound :=
    List.mem_map_of_mem (List.mem_flatMap.mpr ⟨m, hm, hb⟩)
  have hle := List.le_sum_of_mem hmem
  simpa [bound, hc] using hle

/-- A search from the start ends, and with more rounds it ends in the same way. -/
theorem run_terminates (hd : d.nodeIds.Nodup) (hnarrow : d.Narrow) (hacyclic : d.Acyclic)
    (w : World) (root : Task) :
    ∃ n, ∀ rounds, n ≤ rounds →
      Search.run d w rounds root {} = Search.run d w n root {} ∧
        ∀ e, (Search.run d w rounds root {}).1 ≠ .error (.error e) := by
  obtain ⟨enough, henough⟩ := exists_rounds d w
  have hhalts : ∀ e, ¬AnyHalts d w enough e := fun e => not_anyHalts hnarrow henough
  have hready : Ready d w enough [⟨root, 0, {}, {}⟩] (Search.enter root {}) :=
    ⟨rfl, rfl, returns_nil⟩
  obtain ⟨left, hleft⟩ := (finishes_task hd hacyclic hhalts _ finishes_nil _ hready).loop
  -- With at least as many rounds for everything, the loop ends as it does here.
  have hsame (rounds : Nat) (hrounds : max enough left ≤ rounds) :
      Search.loop d w enough left .onward (Search.enter root {}) =
        Search.run d w rounds root {} :=
    (Search.loop_approximates d w (by omega) left .onward _ (by omega)).resolve_left (hleft _)
  refine ⟨max enough left, fun rounds hrounds => ⟨?_, ?_⟩⟩
  · rw [← hsame rounds hrounds, hsame _ (Nat.le_refl _)]
  · rw [← hsame rounds hrounds]
    exact hleft

end Runs

end Decomposition

namespace Planner

open Decomposition

/-- In a domain that was read from a text and in which no method leads back to itself, planning from
any entry point ends: there is a plan, or the search is exhausted, or there is no such entry point.
-/
theorem plan_terminates {text : String} {symbols names : SymbolTable} {d : Domain}
    (hread : Domain.read text symbols = (.ok d, names)) (hacyclic : d.Acyclic) (w : World)
    (names' : SymbolTable) (goal : String) :
    ∃ n, ∀ rounds, n ≤ rounds → plan d w names' rounds goal = plan d w names' n goal ∧
      ((∃ p, (plan d w names' rounds goal).plan = .ok p) ∨
        (plan d w names' rounds goal).plan = .error (.exhausted goal) ∨
        (plan d w names' rounds goal).plan = .error (.unknownEntryPoint goal)) := by
  cases hentry : (names'.find? goal).bind (d.method? · 0) with
  | none =>
    refine ⟨0, fun rounds _ => ?_⟩
    simp [plan, hentry]
  | some m =>
    obtain ⟨n, hrun⟩ := run_terminates (Domain.nodeIds_nodup_of_read hread)
      (Domain.narrow_of_read hread) hacyclic w ⟨m.name, []⟩
    refine ⟨n, fun rounds hrounds => ?_⟩
    obtain ⟨hsame, hreturns⟩ := hrun rounds hrounds
    refine ⟨by simp only [plan, hentry, planMethod, hsame], ?_⟩
    simp only [plan, hentry, planMethod]
    cases hplan : (Search.run d w rounds ⟨m.name, []⟩ {}).1 with
    | ok p => exact .inl ⟨p, rfl⟩
    | error failure =>
      cases failure with
      | exhausted => exact .inr (.inl rfl)
      | error e => exact absurd hplan (hreturns e)

/-! One goes to a place that roads reach, and then rests. The axiom calls itself, and one method
calls the other. -/

namespace Trip

open Roads

def text : String :=
  "axiom reached(?a) \x7b start(?a) \x7d axiom reached(?a) \x7b road(?b, ?a), reached(?b) \x7d" ++
    "method go() \x7b on: reached(?a) => walk(?a), rest() \x7d method rest() \x7b on: => sit() \x7d"

def go : Method :=
  ⟨8, ⟨8⟩, [], [⟨7, ⟨7⟩, some (.derived 6 ⟨2⟩ [var 0]), [⟨⟨5⟩, [var 0]⟩, ⟨⟨6⟩, []⟩]⟩]⟩

def rest : Method := ⟨10, ⟨6⟩, [], [⟨9, ⟨7⟩, none, [⟨⟨9⟩, []⟩]⟩]⟩

def reached : List Clause :=
  [⟨1, ⟨2⟩, [var 0], .fact 0 ⟨1⟩ [var 0]⟩,
    ⟨5, ⟨2⟩, [var 0], .all 4 [.fact 2 ⟨4⟩ [var 3, var 0], .derived 3 ⟨2⟩ [var 3]]⟩]

def domain : Domain := .ofLists [] reached [go, rest] none

/-- A road from the start to another place. -/
def world : World :=
  .attemptAll .empty [⟨⟨1⟩, [place 0]⟩, ⟨⟨4⟩, [place 0, place 1]⟩]

theorem domain_read : (Domain.read text .empty).1 = .ok domain := by cbv

theorem domain_acyclic : domain.Acyclic := by
  refine Domain.acyclic_of_lt (·.id) ?_
  rintro p q ⟨hp, hq, b, hb, t, ht, hname, -⟩
  have hlater : ∀ p ∈ domain.methods, ∀ q ∈ domain.methods, ∀ b ∈ p.branches, ∀ t ∈ b.tasks,
      t.name = q.name → p.id < q.id := by decide
  exact hlater p hp q hq b hb t ht hname

end Trip

open Trip in
theorem plan_terminates_trip :
    ∃ names, Domain.read text .empty = (.ok domain, names) ∧ domain.Acyclic ∧
      ∃ n, ∀ rounds, n ≤ rounds →
        plan domain world names rounds "go" = plan domain world names n "go" ∧
          ((∃ p, (plan domain world names rounds "go").plan = .ok p) ∨
            (plan domain world names rounds "go").plan = .error (.exhausted "go") ∨
            (plan domain world names rounds "go").plan = .error (.unknownEntryPoint "go")) := by
  have hread := Prod.fst_eq_iff.mp domain_read
  exact ⟨_, hread, domain_acyclic, plan_terminates hread domain_acyclic world _ "go"⟩

end Planner

end TaskNetwork
