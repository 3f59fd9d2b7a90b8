import TaskNetwork.Proofs.Decomposition.Errors
import TaskNetwork.Proofs.Decomposition.Leftmost

/-! Runs that ask for another plan. The points noted at the end of a run have the derivations of its
goal that were not yet found, so a further root that has no derivation itself sends the search back
to them: run after run finds the next derivation, and none when they have run out. -/

namespace TaskNetwork.Decomposition

open Solver

/-- The first `n` derivations of a goal in order, or all of them if there are fewer. -/
structure Leading (goal : List Choice → Plan → Prop) (n : Nat) (found : List (List Choice × Plan)) :
    Prop where
  sound : ∀ x ∈ found, goal x.1 x.2
  ordered : found.Pairwise fun x y => Before x.1 y.1
  length_le : found.length ≤ n
  rest : ∀ cs p, goal cs p → (cs, p) ∈ found ∨ found.length = n ∧ ∀ x ∈ found, Before x.1 cs

section Goals

variable {goal : List Choice → Plan → Prop} {n : Nat} {cs : List Choice} {p : Plan}
  {found : List (List Choice × Plan)}

theorem Leading.eq_nil (h : Leading goal n found) (hnone : ∀ cs p, ¬goal cs p) : found = [] :=
  List.eq_nil_iff_forall_not_mem.mpr fun x hx => hnone _ _ (h.sound x hx)

theorem leading_nil (hnone : ∀ cs p, ¬goal cs p) (n : Nat) : Leading goal n [] where
  sound := by simp
  ordered := .nil
  length_le := Nat.zero_le n
  rest cs p hgoal := absurd hgoal (hnone cs p)

theorem leading_zero (goal : List Choice → Plan → Prop) : Leading goal 0 [] where
  sound := by simp
  ordered := .nil
  length_le := Nat.le_refl 0
  rest cs p _ := .inr (by simp)

/-- After the least derivation come those that are later than it. -/
theorem Leading.cons (hgoal : goal cs p)
    (hleast : ∀ cs' p', goal cs' p' → (cs' = cs ∧ p' = p) ∨ Before cs cs')
    (h : Leading (fun cs' p' => goal cs' p' ∧ Before cs cs') n found) :
    Leading goal (n + 1) ((cs, p) :: found) where
  sound := by
    rintro x hx
    rcases List.mem_cons.mp hx with rfl | hx
    · exact hgoal
    · exact (h.sound x hx).1
  ordered := List.pairwise_cons.mpr ⟨fun x hx => (h.sound x hx).2, h.ordered⟩
  length_le := Nat.succ_le_succ h.length_le
  rest cs' p' hgoal' := by
    rcases hleast cs' p' hgoal' with ⟨rfl, rfl⟩ | hbefore
    · exact .inl List.mem_cons_self
    · rcases h.rest cs' p' ⟨hgoal', hbefore⟩ with hmem | ⟨hlength, hall⟩
      · exact .inl (List.mem_cons_of_mem _ hmem)
      · refine .inr ⟨congrArg (· + 1) hlength, fun x hx => ?_⟩
        rcases List.mem_cons.mp hx with rfl | hx
        · exact hbefore
        · exact hall x hx

end Goals

section Leads

variable {d : Domain} {w : World} {goal : List Choice → Plan → Prop} {l : Lead}
  {leads : List Lead} {cs : List Choice} {p : Plan}

theorem yields_of_done (hdone : l.point.pending = []) :
    l.Yields d w cs p ↔ cs = l.made ∧ p = l.point.plan.toList := by
  simp [Lead.Yields, hdone, Completes]

/-- The derivation of a first lead without tasks is before all others. -/
theorem Covers.eq_or_before (h : Covers d w goal (l :: leads)) (hdone : l.point.pending = [])
    (hgoal : goal cs p) : (cs = l.made ∧ p = l.point.plan.toList) ∨ Before l.made cs := by
  obtain ⟨l', hl', hyields⟩ := (h.iff cs p).mp hgoal
  rcases List.mem_cons.mp hl' with rfl | hl'
  · exact .inl ((yields_of_done hdone).mp hyields)
  · exact .inr ((List.pairwise_cons.mp h.ordered).1 l' hl' _ _ _ _
      ((yields_of_done hdone).mpr ⟨rfl, rfl⟩) hyields)

/-- The other leads have the derivations that are later. -/
theorem Covers.tail (h : Covers d w goal (l :: leads)) (hdone : l.point.pending = []) :
    Covers d w (fun cs p => goal cs p ∧ Before l.made cs) leads where
  iff cs p := by
    constructor
    · rintro ⟨hgoal, hbefore⟩
      obtain ⟨l', hl', hyields⟩ := (h.iff cs p).mp hgoal
      rcases List.mem_cons.mp hl' with rfl | hl'
      · obtain ⟨rfl, -⟩ := (yields_of_done hdone).mp hyields
        exact absurd hbefore hbefore.asymm
      · exact ⟨l', hl', hyields⟩
    · rintro ⟨l', hl', hyields⟩
      refine ⟨(h.iff cs p).mpr ⟨l', List.mem_cons_of_mem _ hl', hyields⟩, ?_⟩
      exact (List.pairwise_cons.mp h.ordered).1 l' hl' _ _ _ _
        ((yields_of_done hdone).mpr ⟨rfl, rfl⟩) hyields
  ordered := (List.pairwise_cons.mp h.ordered).2

/-- A lead without derivations may come before the others. -/
theorem Covers.cons (h : Covers d w goal leads) (hnone : ∀ cs p, ¬l.Yields d w cs p) :
    Covers d w goal (l :: leads) where
  iff cs p := by simp [h.iff cs p, hnone cs p]
  ordered := List.pairwise_cons.mpr
    ⟨fun _ _ cs p _ _ hyields _ => absurd hyields (hnone cs p), h.ordered⟩

end Leads

section Runs

variable {d : Domain} {w : World} {rounds : Nat} {goal : List Choice → Plan → Prop} {s s' : Search}

/-- Between two runs: the points noted have the derivations that are to be found. -/
structure Remains (d : Domain) (w : World) (goal : List Choice → Plan → Prop) (s : Search) :
    Prop where
  environment : s.agenda.environment = {}
  covers : ∃ leads : List Lead, leads.map (·.point) = s.agenda.history.map (·.resumed) ∧
    Covers d w goal leads

theorem Remains.enter (h : Remains d w goal s) {root : Task}
    (hroot : ∀ cs p, ¬Derives d w [] [root] cs p) : Tracks d w goal .onward (s.enter root) := by
  obtain ⟨henvironment, leads, hpoints, hcovers⟩ := h
  have hnone (cs : List Choice) (p : Plan) :
      ¬Lead.Yields d w ⟨[], (s.enter root).agenda.current⟩ cs p := by
    rintro ⟨_, _, ⟨cs₁, p₁, _, _, ⟨htask, -⟩, _⟩, -, -⟩
    exact hroot cs₁ p₁ htask
  refine ⟨henvironment, ⟨_ :: leads, ?_, hcovers.cons hnone⟩, fun h => (by cases h)⟩
  rw [List.map_cons, hpoints]
  rfl

/-- What the end of a run says of its goal, and what is left to be found after it. -/
def Concludes (d : Domain) (w : World) (goal : List Choice → Plan → Prop) :
    Except Failure Plan → Search → Prop
  | .ok plan, s => ∃ cs, goal cs plan ∧
      (∀ cs' p', goal cs' p' → (cs' = cs ∧ p' = plan) ∨ Before cs cs') ∧
      Remains d w (fun cs' p' => goal cs' p' ∧ Before cs cs') s
  | .error .exhausted, s => (∀ cs p, ¬goal cs p) ∧ Remains d w goal s
  | .error (.error _), _ => False

theorem round_concludes {course : Course} (h : Tracks d w goal course s)
    {outcome : Except Failure Plan} (heq : s.round d w rounds course = .ended outcome s')
    (hreturns : ∀ e, outcome ≠ .error (.error e)) : Concludes d w goal outcome s' := by
  obtain ⟨henvironment, ⟨leads, hpoints, hcovers⟩, hdone⟩ := h
  cases course with
  | onward =>
    rw [Search.round] at heq
    split at heq
    · cases heq
    · cases heq
      exact absurd rfl (hreturns _)
  | back =>
    rw [Search.round, Agenda.goBack?] at heq
    cases hhistory : s.agenda.history with
    | cons point history =>
      rw [hhistory] at heq
      cases heq
    | nil =>
      rw [hhistory] at heq
      cases heq
      refine ⟨fun cs p hgoal => ?_, henvironment, leads, hpoints, hcovers⟩
      obtain ⟨l, hl, -⟩ := (hcovers.iff cs p).mp hgoal
      rw [openPoints, hhistory, List.map_nil, List.map_eq_nil_iff] at hpoints
      rw [hpoints] at hl
      cases hl
  | done =>
    cases heq
    cases leads with
    | nil => cases hpoints
    | cons l leads =>
      obtain ⟨hpoint, hrest⟩ : l.point = s.agenda.current ∧
          leads.map (·.point) = s.agenda.history.map (·.resumed) := List.cons.inj hpoints
      have hpending : l.point.pending = [] := by
        rw [hpoint]
        exact hdone rfl
      obtain ⟨hgoal, -⟩ := hcovers.least hpending
      have hleast (cs : List Choice) (p : Plan) (h : goal cs p) :=
        hcovers.eq_or_before hpending h
      rw [hpoint] at hgoal hleast
      exact ⟨l.made, hgoal, hleast, henvironment, leads, hrest, hcovers.tail hpending⟩

/-- A run that ends, with a plan or without one, concludes on its goal. -/
theorem loop_concludes (hd : d.nodeIds.Nodup) (hnarrow : d.Narrow) (left : Nat) {course : Course}
    (h : Tracks d w goal course s) {outcome : Except Failure Plan}
    (heq : Search.loop d w rounds left course s = (outcome, s'))
    (hreturns : outcome ≠ .error (.error .unfinished)) : Concludes d w goal outcome s' := by
  induction left generalizing course s with
  | zero =>
    cases heq
    exact absurd rfl hreturns
  | succ left ih =>
    rw [Search.loop] at heq
    cases hround : s.round d w rounds course with
    | next course' t =>
      rw [hround] at heq
      exact ih ((round_tracks hd rounds h).1 _ _ hround) heq
    | ended outcome' t =>
      rw [hround] at heq
      cases heq
      refine round_concludes h hround fun e he => ?_
      subst he
      obtain rfl := (round_error hd h.environment hround).eq_unfinished hnarrow
      exact hreturns rfl

end Runs

/-- The outcomes of runs on one interpreter, one root after the other. -/
def Search.outcomes (d : Domain) (w : World) (rounds : Nat) :
    List Task → Search → List (Except Failure Plan)
  | [], _ => []
  | root :: roots, s =>
    let (outcome, s) := run d w rounds root s
    outcome :: outcomes d w rounds roots s

/-- The plans found, and then that there is no other. -/
def reported (n : Nat) (found : List (List Choice × Plan)) : List (Except Failure Plan) :=
  found.map (.ok ·.2) ++ List.replicate (n - found.length) (.error .exhausted)

/-- The first root has the derivations of the goal, and the others have none of their own. -/
theorem outcomes_leading {d : Domain} (hd : d.nodeIds.Nodup) (hnarrow : d.Narrow) {w : World}
    {rounds : Nat} {other : Task} (hother : ∀ cs p, ¬Derives d w [] [other] cs p) (n : Nat)
    {goal : List Choice → Plan → Prop} {root : Task} {s : Search}
    (h : Tracks d w goal .onward (s.enter root))
    (hreturns : ∀ outcome ∈ Search.outcomes d w rounds (root :: List.replicate n other) s,
      outcome ≠ .error (.error .unfinished)) :
    ∃ found, Leading goal (n + 1) found ∧
      Search.outcomes d w rounds (root :: List.replicate n other) s = reported (n + 1) found := by
  -- Each run finds the least derivation that is left and leaves the later ones to the next run.
  induction n generalizing goal root s with
  | zero =>
    cases hrun : Search.run d w rounds root s with
    | mk outcome s' =>
      have heq : Search.outcomes d w rounds (root :: List.replicate 0 other) s = [outcome] := by
        simp [Search.outcomes, hrun]
      rw [heq] at hreturns ⊢
      have hconcludes := loop_concludes hd hnarrow rounds h hrun (hreturns _ List.mem_cons_self)
      match outcome, hconcludes with
      | .ok plan, ⟨cs, hgoal, hleast, _⟩ =>
        exact ⟨[(cs, plan)], (leading_zero _).cons hgoal hleast, rfl⟩
      | .error .exhausted, ⟨hnone, _⟩ => exact ⟨[], leading_nil hnone 1, rfl⟩
  | succ n ih =>
    cases hrun : Search.run d w rounds root s with
    | mk outcome s' =>
      have heq : Search.outcomes d w rounds (root :: List.replicate (n + 1) other) s =
          outcome :: Search.outcomes d w rounds (other :: List.replicate n other) s' := by
        rw [List.replicate_succ, Search.outcomes, hrun]
      rw [heq] at hreturns ⊢
      have hrest := fun o ho => hreturns o (List.mem_cons_of_mem _ ho)
      have hconcludes := loop_concludes hd hnarrow rounds h hrun (hreturns _ List.mem_cons_self)
      match outcome, hconcludes with
      | .ok plan, ⟨cs, hgoal, hleast, hremains⟩ =>
        obtain ⟨found, hleading, hfound⟩ := ih (hremains.enter hother) hrest
        refine ⟨(cs, plan) :: found, hleading.cons hgoal hleast, ?_⟩
        rw [hfound]
        simp [reported]
      | .error .exhausted, ⟨hnone, hremains⟩ =>
        obtain ⟨found, hleading, hfound⟩ := ih (hremains.enter hother) hrest
        refine ⟨[], leading_nil hnone _, ?_⟩
        rw [hfound, hleading.eq_nil hnone]
        simp [reported, List.replicate_succ]

/-- A root and then `n` times another one that has no derivation: the runs report the plans of the
first derivations of the root, in order and each derivation once, and that there is none after the
last. -/
theorem runs_enumerate {declarations : List Declaration} {d : Domain}
    (hbuilt : Domain.ofDeclarations declarations = .ok d) (hd : d.nodeIds.Nodup) (w : World)
    (rounds : Nat) (root other : Task) (hother : ∀ cs p, ¬Derives d w [] [other] cs p) (n : Nat)
    (hreturns : ∀ outcome ∈ Search.outcomes d w rounds (root :: List.replicate n other) {},
      outcome ≠ .error (.error .unfinished)) :
    ∃ found, Leading (Derives d w [] [root]) (n + 1) found ∧
      Search.outcomes d w rounds (root :: List.replicate n other) {} = reported (n + 1) found :=
  outcomes_leading hd (Domain.narrow_of_declarations hbuilt) hother n (tracks_enter d w root)
    hreturns

open Roads in
/-- One leaves place 0 on foot or waits, and there is no third way. -/
theorem runs_enumerate_roads :
    ∃ found, Leading (Derives domain world [] [⟨⟨4⟩, []⟩]) 4 found ∧
      [.ok [⟨⟨5⟩, [place 2]⟩], .ok [⟨⟨6⟩, []⟩], .error .exhausted, .error .exhausted] =
        reported 4 found := by
  have houtcomes : Search.outcomes domain world 20
      (⟨⟨4⟩, []⟩ :: List.replicate 3 ⟨⟨5⟩, [var 11]⟩) {} =
      [.ok [⟨⟨5⟩, [place 2]⟩], .ok [⟨⟨6⟩, []⟩], .error .exhausted, .error .exhausted] := by cbv
  have hother (cs : List Choice) (p : Plan) : ¬Derives domain world [] [⟨⟨5⟩, [var 11]⟩] cs p := by
    rw [derives_primitive_iff rfl]
    rintro ⟨-, args, hargs, hground, -⟩
    cases hargs
    cases hground
  obtain ⟨found, hleading, hfound⟩ := runs_enumerate domain_built domain_distinct world 20
    ⟨⟨4⟩, []⟩ ⟨⟨5⟩, [var 11]⟩ hother 3 (by rw [houtcomes]; simp)
  exact ⟨found, hleading, houtcomes ▸ hfound⟩

end TaskNetwork.Decomposition
