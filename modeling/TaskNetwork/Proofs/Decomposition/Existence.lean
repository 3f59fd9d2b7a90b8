import TaskNetwork.Proofs.Decomposition.Alternatives
import TaskNetwork.Proofs.Decomposition.Termination
import TaskNetwork.Proofs.Solver.Comparison

/-! Whether there is a plan, in two worlds. A derivation needs an answer at each of its choices and
not the place of the answer, so it exists wherever the branches have at least the same answers. The
search returns a plan whenever there is a derivation, so the order of the facts decides only which
plan that is, and without negation a plan remains when facts are added. -/

namespace TaskNetwork

open Decomposition

namespace Decomposition

theorem Derives.of_subset {d : Domain} {w w' : World}
    (hanswers : ∀ m ∈ d.methods, ∀ b ∈ m.branches, ∀ actuals,
      b.answers d w m actuals ⊆ b.answers d w' m actuals)
    {f : Frame} {ts : List Task} {cs : List Choice} {p : Plan} (h : Derives d w f ts cs p) :
    ∃ cs', Derives d w' f ts cs' p := by
  induction h with
  | nil f => exact ⟨[], .nil f⟩
  | primitive hmethod hargs hground _ ih =>
    obtain ⟨cs', hrest⟩ := ih
    exact ⟨cs', .primitive hmethod hargs hground hrest⟩
  | @compound f g t ts m actuals c b cs cs' p p' hmethod hactuals hoffers _ _ ihbranch ihrest =>
    obtain ⟨cs₁, hbranch⟩ := ihbranch
    obtain ⟨cs₂, hrest⟩ := ihrest
    have hin := hanswers m (Domain.of_method?_eq_some hmethod).1 b
      (List.mem_of_getElem? hoffers.1) actuals (List.mem_of_getElem? hoffers.2)
    obtain ⟨i, hi⟩ := List.getElem?_of_mem hin
    exact ⟨_, .compound (c := ⟨c.branch, i⟩) hmethod hactuals ⟨hoffers.1, hi⟩ hbranch hrest⟩

end Decomposition

theorem comparison_perm : Comparison fun _ xs ys => xs.Perm ys where
  refl := List.Perm.refl
  flatMap h hfg := h.flatMap fun x _ => hfg x

theorem keepsEmpty_perm : KeepsEmpty fun _ xs ys => xs.Perm ys := fun h => h.isEmpty_eq

theorem comparison_subset : Comparison fun _ xs ys => xs ⊆ ys where
  refl := List.Subset.refl
  flatMap h hfg := fun _ hz => by
    obtain ⟨x, hx, hz⟩ := List.mem_flatMap.mp hz
    exact List.mem_flatMap.mpr ⟨x, h hx, hfg x hz⟩

/-- The second world is the first one after further inserts, none of which was refused. -/
inductive World.Grows (w : World) : World → Prop
  | refl : w.Grows w
  | insert {w' w'' : World} {fact : Symbol} {args : Row} : w.Grows w' →
      w'.insert fact args = .ok w'' → w.Grows w''

theorem World.Grows.subset {w w' : World} (h : w.Grows w') :
    w.Compares (fun _ xs ys => xs ⊆ ys) w' := by
  induction h with
  | refl => exact fun _ _ => List.Subset.refl _
  | @insert w' w'' fact args _ hinsert ih =>
    intro other arity
    by_cases hsame : fact = other ∧ args.length = arity
    · obtain ⟨rfl, rfl⟩ := hsame
      rw [World.rows_insert hinsert, Array.toList_push]
      exact List.subset_append_of_subset_left _ (ih fact args.length)
    · rw [World.rows_insert_of_ne hinsert hsame]
      exact ih other arity

namespace Planner

section Settled

variable {declarations : List Declaration} {d : Domain} {w : World} {names : SymbolTable}
  {goal : String} {m : Method} {rounds : Nat}

theorem plan_of_run (hentry : (names.find? goal).bind (d.method? · 0) = some m)
    {outcome : Except Failure Plan} (hrun : (Search.run d w rounds ⟨m.name, []⟩ {}).1 = outcome) :
    (plan d w names rounds goal).plan = outcome.mapError (.ofFailure goal) := by
  simp only [plan, hentry, planMethod, hrun]

/-- A planning call that is not cut off tells whether the entry point has a derivation. -/
theorem plan_settles (hbuilt : Domain.ofDeclarations declarations = .ok d) (hd : d.nodeIds.Nodup)
    (hentry : (names.find? goal).bind (d.method? · 0) = some m)
    (hreturns : (plan d w names rounds goal).plan ≠ .error .unfinished) :
    (∃ p cs, (plan d w names rounds goal).plan = .ok p ∧ Derives d w [] [⟨m.name, []⟩] cs p) ∨
      (plan d w names rounds goal).plan = .error (.exhausted goal) ∧
        ∀ cs p, ¬Derives d w [] [⟨m.name, []⟩] cs p := by
  cases hrun : Search.run d w rounds ⟨m.name, []⟩ {} with
  | mk outcome s =>
    rw [plan_of_run hentry (congrArg Prod.fst hrun)] at hreturns ⊢
    have hfinished : outcome ≠ .error (.error .unfinished) := by
      rintro rfl
      exact hreturns rfl
    have hconcludes := loop_concludes hd (Domain.narrow_of_declarations hbuilt) rounds
      (tracks_enter d w ⟨m.name, []⟩) hrun hfinished
    match outcome, hconcludes with
    | .ok p, ⟨cs, hderives, _⟩ => exact .inl ⟨p, cs, rfl, hderives⟩
    | .error .exhausted, ⟨hnone, _⟩ => exact .inr ⟨rfl, hnone⟩

end Settled

section Order

variable {declarations : List Declaration} {d : Domain} {w w' : World} {names : SymbolTable}
  {goal : String} {rounds rounds' : Nat}

/-- If the rows of all facts are the same up to their order, there is a plan in both worlds or in
neither. -/
theorem plan_of_perm (hbuilt : Domain.ofDeclarations declarations = .ok d) (hd : d.nodeIds.Nodup)
    (hrows : ∀ fact arity, (w.rows fact arity).toList.Perm (w'.rows fact arity).toList)
    (hreturns : (plan d w names rounds goal).plan ≠ .error .unfinished)
    (hreturns' : (plan d w' names rounds' goal).plan ≠ .error .unfinished) :
    (∃ p p', (plan d w names rounds goal).plan = .ok p ∧
        (plan d w' names rounds' goal).plan = .ok p') ∨
      ((plan d w names rounds goal).plan = .error (.exhausted goal) ∧
        (plan d w' names rounds' goal).plan = .error (.exhausted goal)) ∨
      (names.find? goal).bind (d.method? · 0) = none ∧
        (plan d w names rounds goal).plan = .error (.unknownEntryPoint goal) ∧
        (plan d w' names rounds' goal).plan = .error (.unknownEntryPoint goal) := by
  have hanswers {m : Method} (hm : m ∈ d.methods) {b : Branch} (hb : b ∈ m.branches)
      (actuals : List Value) : (b.answers d w m actuals).Perm (b.answers d w' m actuals) :=
    Branch.answers_compare comparison_perm hrows (.inl keepsEmpty_perm) hm hb actuals
  cases hentry : (names.find? goal).bind (d.method? · 0) with
  | none => exact .inr (.inr (by simp [plan, hentry]))
  | some m =>
    rcases plan_settles hbuilt hd hentry hreturns with ⟨p, cs, hplan, hderives⟩ | ⟨hplan, hnone⟩
    · rcases plan_settles hbuilt hd hentry hreturns' with ⟨p', _, hplan', -⟩ | ⟨-, hnone'⟩
      · exact .inl ⟨p, p', hplan, hplan'⟩
      · obtain ⟨cs', hderives'⟩ := hderives.of_subset fun _ hm _ hb actuals =>
          (hanswers hm hb actuals).subset
        exact absurd hderives' (hnone' cs' p)
    · rcases plan_settles hbuilt hd hentry hreturns' with ⟨p', cs', -, hderives'⟩ | ⟨hplan', -⟩
      · obtain ⟨cs, hderives⟩ := hderives'.of_subset fun _ hm _ hb actuals =>
          (hanswers hm hb actuals).symm.subset
        exact absurd hderives (hnone cs p')
      · exact .inr (.inl ⟨hplan, hplan'⟩)

end Order

/-! Two roads leave place 0. One walks along an open one, and otherwise one waits. -/

namespace Crossing

open Roads

/-- The names of the facts and of the method. -/
def names : SymbolTable := ⟨#["road", "way", "closed", "open", "leave"], by decide⟩

def roads : List World.Entry := [⟨⟨0⟩, [place 0, place 1]⟩, ⟨⟨0⟩, [place 0, place 2]⟩]

def world : World := .attemptAll .empty roads

/-- The roads were found in the other order. -/
def turned : World := .attemptAll .empty roads.reverse

def opened : World := world.attemptAll [⟨⟨3⟩, [place 2]⟩, ⟨⟨3⟩, [place 1]⟩]

def depart : Method :=
  ⟨5, ⟨4⟩, [],
    [⟨3, ⟨20⟩, some (.all 2 [road 0 [.literal (place 0), var 11], .fact 1 ⟨3⟩ [var 11]]),
      [⟨⟨5⟩, [var 11]⟩]⟩, ⟨4, ⟨21⟩, none, [⟨⟨6⟩, []⟩]⟩]⟩

def domain : Domain := .ofLists [] [] [depart] none

theorem domain_built : Domain.ofDeclarations [.method depart false] = .ok domain := rfl

theorem domain_positive : domain.Positive where
  branches m hm b hb c hc id child hmem := by
    obtain rfl := List.mem_singleton.mp hm
    rcases List.mem_cons.mp hb with rfl | hb
    · obtain rfl := Option.some.inj hc
      simp [Condition.nodes, Condition.nodesAll, road] at hmem
    · obtain rfl := List.mem_singleton.mp hb
      cases hc
  clauses c hc := absurd hc (Array.not_mem_empty c)

theorem rows_perm (fact : Symbol) (arity : Nat) :
    (world.rows fact arity).toList.Perm (turned.rows fact arity).toList := by
  have hworld : world.Lists roads := World.lists_of_insertAll rfl
  have hturned : turned.Lists roads.reverse := World.lists_of_insertAll rfl
  rw [hworld, hturned, List.filter_reverse, List.map_reverse]
  exact (List.reverse_perm _).symm

theorem run_world :
    (Search.run Roads.domain world 20 ⟨⟨4⟩, []⟩ {}).1 = .ok [⟨⟨5⟩, [place 1]⟩] := by cbv

theorem run_turned :
    (Search.run Roads.domain turned 20 ⟨⟨4⟩, []⟩ {}).1 = .ok [⟨⟨5⟩, [place 2]⟩] := by cbv

theorem run_closed : (Search.run domain world 20 ⟨⟨4⟩, []⟩ {}).1 = .ok [⟨⟨6⟩, []⟩] := by cbv

theorem run_opened :
    (Search.run domain opened 20 ⟨⟨4⟩, []⟩ {}).1 = .ok [⟨⟨5⟩, [place 1]⟩] := by cbv

theorem world_grows : world.Grows opened := by
  let between : World := world.attempt ⟨⟨3⟩, [place 2]⟩
  have hfirst : world.insert ⟨3⟩ [place 2] = .ok between := rfl
  have hsecond : between.insert ⟨3⟩ [place 1] = .ok opened := rfl
  exact .insert (.insert .refl hfirst) hsecond

end Crossing

open Crossing in
/-- One walks along the road that was found first. -/
theorem plan_of_perm_crossing :
    (∀ fact arity, (world.rows fact arity).toList.Perm (turned.rows fact arity).toList) ∧
      ∃ p p', (plan Roads.domain world names 20 "leave").plan = .ok p ∧
        (plan Roads.domain turned names 20 "leave").plan = .ok p' ∧
        p = [⟨⟨5⟩, [Roads.place 1]⟩] ∧ p' = [⟨⟨5⟩, [Roads.place 2]⟩] := by
  have hentry : (names.find? "leave").bind (Roads.domain.method? · 0) =
      some (Roads.leave Roads.wayCalled) := by cbv
  have hworld : (plan Roads.domain world names 20 "leave").plan = .ok [⟨⟨5⟩, [Roads.place 1]⟩] :=
    plan_of_run hentry run_world
  have hturned : (plan Roads.domain turned names 20 "leave").plan = .ok [⟨⟨5⟩, [Roads.place 2]⟩] :=
    plan_of_run hentry run_turned
  obtain ⟨p, p', hp, hp'⟩ | ⟨hexhausted, -⟩ | ⟨hnone, -⟩ := plan_of_perm Roads.domain_built
    Roads.domain_distinct rows_perm (by rw [hworld]; rintro ⟨⟩) (by rw [hturned]; rintro ⟨⟩)
  · exact ⟨rows_perm, p, p', hp, hp', Except.ok.inj (hp.symm.trans hworld),
      Except.ok.inj (hp'.symm.trans hturned)⟩
  · rw [hworld] at hexhausted
    cases hexhausted
  · rw [hentry] at hnone
    cases hnone

section Growth

variable {declarations : List Declaration} {d : Domain} {w w' : World} {names : SymbolTable}
  {goal : String} {rounds rounds' : Nat}

/-- Without negation, a goal that has a plan still has one after further facts were inserted. -/
theorem plan_of_grows (hbuilt : Domain.ofDeclarations declarations = .ok d) (hd : d.nodeIds.Nodup)
    (hpositive : d.Positive) (hgrows : w.Grows w') {p : Plan}
    (hplan : (plan d w names rounds goal).plan = .ok p)
    (hreturns : (plan d w' names rounds' goal).plan ≠ .error .unfinished) :
    ∃ p', (plan d w' names rounds' goal).plan = .ok p' := by
  cases hentry : (names.find? goal).bind (d.method? · 0) with
  | none =>
    simp only [plan, hentry] at hplan
    cases hplan
  | some m =>
    have hfound : (plan d w names rounds goal).plan ≠ .error .unfinished := by
      rw [hplan]
      simp
    rcases plan_settles hbuilt hd hentry hfound with ⟨p, cs, -, hderives⟩ | ⟨hexhausted, -⟩
    · obtain ⟨cs', hderives'⟩ := hderives.of_subset fun m hm b hb actuals =>
        Branch.answers_compare comparison_subset hgrows.subset (.inr hpositive) hm hb actuals
      rcases plan_settles hbuilt hd hentry hreturns with ⟨p', _, hplan', -⟩ | ⟨-, hnone⟩
      · exact ⟨p', hplan'⟩
      · exact absurd hderives' (hnone cs' p)
    · rw [hplan] at hexhausted
      cases hexhausted

end Growth

open Crossing in
/-- One waits at first, and walks once roads are open. -/
theorem plan_of_grows_crossing :
    domain.Positive ∧ world.Grows opened ∧
      (plan domain world names 20 "leave").plan = .ok [⟨⟨6⟩, []⟩] ∧
      ∃ p', (plan domain opened names 20 "leave").plan = .ok p' := by
  have hentry : (names.find? "leave").bind (domain.method? · 0) = some depart := by cbv
  have hplan : (plan domain world names 20 "leave").plan = .ok [⟨⟨6⟩, []⟩] :=
    plan_of_run hentry run_closed
  refine ⟨domain_positive, world_grows, hplan,
    plan_of_grows domain_built (by decide) domain_positive world_grows hplan ?_⟩
  rw [plan_of_run hentry run_opened]
  simp [Except.mapError]

end Planner

end TaskNetwork
