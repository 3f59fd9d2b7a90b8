import Mathlib
import TaskNetwork.Proofs.Decomposition.Choosing

/-! The search yields the leftmost derivation. The present point and the points noted to be resumed
divide the derivations of the goal among them: those of the present point come first, then those of
the latest point noted, and so on. Every round keeps this, so what is found at the end of the present
point is the least, and when no point is left there was nothing to find. -/

namespace TaskNetwork.Decomposition

open Solver

def Before (cs cs' : List Choice) : Prop := List.Lex (fun a b : Choice => a < b) cs cs'

theorem Before.asymm {cs cs' : List Choice} (h : Before cs cs') : ¬Before cs' cs :=
  List.lt_asymm h

theorem before_of_lt (made : List Choice) {c c' : Choice} (h : c < c') (cs cs' : List Choice) :
    Before (made ++ c :: cs) (made ++ c' :: cs') := by
  induction made with
  | nil => exact .rel h
  | cons _ _ ih => exact .cons ih

/-- A point, with the choices that led to it. -/
structure Lead where
  made : List Choice
  point : Point

/-- The derivations to which a point can lead. -/
def Lead.Yields (d : Domain) (w : World) (l : Lead) (cs : List Choice) (p : Plan) : Prop :=
  ∃ cs' p', Completes d w l.point.pending cs' p' ∧ cs = l.made ++ cs' ∧
    p = l.point.plan.toList ++ p'

def Lead.Precedes (d : Domain) (w : World) (l l' : Lead) : Prop :=
  ∀ cs p cs' p', l.Yields d w cs p → l'.Yields d w cs' p' → Before cs cs'

/-- The derivations of a goal are those of the leads, in order. -/
structure Covers (d : Domain) (w : World) (goal : List Choice → Plan → Prop) (leads : List Lead) :
    Prop where
  iff : ∀ cs p, goal cs p ↔ ∃ l ∈ leads, l.Yields d w cs p
  ordered : leads.Pairwise (Lead.Precedes d w)

section Leads

variable {d : Domain} {w : World} {goal : List Choice → Plan → Prop} {l : Lead}
  {leads : List Lead}

/-- The first lead may give way to others that have its derivations, in order. -/
theorem Covers.refine (h : Covers d w goal (l :: leads)) (new : List Lead)
    (hnew : ∀ cs p, l.Yields d w cs p ↔ ∃ l' ∈ new, l'.Yields d w cs p)
    (hordered : new.Pairwise (Lead.Precedes d w)) : Covers d w goal (new ++ leads) where
  iff cs p := by
    rw [h.iff cs p]
    simp only [List.mem_append, List.mem_cons, or_and_right, exists_or, exists_eq_left, hnew]
  ordered := by
    obtain ⟨hfirst, hrest⟩ := List.pairwise_cons.mp h.ordered
    refine List.pairwise_append.mpr ⟨hordered, hrest, fun l' hl' other hother => ?_⟩
    intro cs p cs' p' hyields hyields'
    exact hfirst other hother cs p cs' p' ((hnew cs p).mpr ⟨l', hl', hyields⟩) hyields'

theorem Covers.skip (h : Covers d w goal (l :: leads)) (hnone : ∀ cs p, ¬l.Yields d w cs p) :
    Covers d w goal leads :=
  h.refine [] (fun cs p => ⟨fun hyields => absurd hyields (hnone cs p), by simp⟩) .nil

theorem Covers.replace {l' : Lead} (h : Covers d w goal (l :: leads))
    (hsame : ∀ cs p, l.Yields d w cs p ↔ l'.Yields d w cs p) : Covers d w goal (l' :: leads) :=
  h.refine [l'] (fun cs p => by simp [hsame]) (List.pairwise_singleton _ _)

theorem Covers.split {l₁ l₂ : Lead} (h : Covers d w goal (l :: leads))
    (hsplit : ∀ cs p, l.Yields d w cs p ↔ l₁.Yields d w cs p ∨ l₂.Yields d w cs p)
    (hordered : l₁.Precedes d w l₂) : Covers d w goal (l₁ :: l₂ :: leads) :=
  h.refine [l₁, l₂] (fun cs p => by simp [hsplit]) (by simpa using hordered)

/-- A lead without tasks has one derivation, which is the least if the lead is the first. -/
theorem Covers.least (h : Covers d w goal (l :: leads)) (hdone : l.point.pending = []) :
    goal l.made l.point.plan.toList ∧ ∀ cs p, goal cs p → ¬Before cs l.made := by
  have hyields : l.Yields d w l.made l.point.plan.toList := by
    refine ⟨[], [], ?_, by simp, by simp⟩
    rw [hdone]
    exact ⟨rfl, rfl⟩
  refine ⟨(h.iff _ _).mpr ⟨l, List.mem_cons_self, hyields⟩, fun cs p hgoal => ?_⟩
  obtain ⟨l', hl', hother⟩ := (h.iff cs p).mp hgoal
  rcases List.mem_cons.mp hl' with rfl | hl'
  · obtain ⟨cs', p', hcompletes, rfl, -⟩ := hother
    rw [hdone] at hcompletes
    obtain ⟨rfl, -⟩ := hcompletes
    rw [List.append_nil]
    exact fun hbefore => hbefore.asymm hbefore
  · exact ((List.pairwise_cons.mp h.ordered).1 l' hl' _ _ _ _ hyields hother).asymm

end Leads

/-- A point noted, as it is when the search comes back to it. -/
def Point.resumed (q : Point) : Point :=
  match q.pending with
  | [] => q
  | t :: rest => { q with pending := { t with choice := t.choice.next } :: rest }

/-- The points whose derivations are still to come, the next first. -/
def openPoints (course : Course) (a : Agenda) : List Point :=
  match course with
  | .onward | .done => a.current :: a.history.map (·.resumed)
  | .back => a.history.map (·.resumed)

theorem passOver_eq (a : Agenda) : a.passOver = { a with current := a.current.resumed } := by
  unfold Agenda.passOver Point.resumed
  split <;> simp_all [Choice.next]

/-- The search has the derivations of the goal before it. -/
structure Tracks (d : Domain) (w : World) (goal : List Choice → Plan → Prop) (course : Course)
    (s : Search) : Prop where
  environment : s.agenda.environment = {}
  covers : ∃ leads : List Lead, leads.map (·.point) = openPoints course s.agenda ∧
    Covers d w goal leads
  done : course = .done → s.agenda.current.pending = []

section Tasks

variable {d : Domain} {w : World} {t : PendingTask} {rest : List PendingTask} {plan : Array Step}
  {made cs : List Choice} {p : Plan}

theorem yields_step_iff (hmethod : d.method? t.call.name t.call.arity = none) {args : List Value}
    (hargs : evalAll? d t.bindings.value t.call.args = some args)
    (hground : args.all Value.isGround = true) :
    Lead.Yields d w ⟨made, ⟨t :: rest, plan⟩⟩ cs p ↔
      Lead.Yields d w ⟨made, ⟨rest, plan.push ⟨t.call.name, args⟩⟩⟩ cs p := by
  constructor
  · rintro ⟨cs', _, hcompletes, rfl, rfl⟩
    obtain ⟨args', p', hargs', -, hrest, rfl⟩ := (completes_primitive_iff hmethod).mp hcompletes
    rw [hargs] at hargs'
    cases hargs'
    exact ⟨cs', p', hrest, rfl, by simp⟩
  · rintro ⟨cs', p', hrest, rfl, rfl⟩
    exact ⟨cs', _, (completes_primitive_iff hmethod).mpr ⟨args, p', hargs, hground, hrest, rfl⟩, rfl,
      by simp⟩

theorem not_yields_primitive (hmethod : d.method? t.call.name t.call.arity = none)
    (hargs : ∀ args, evalAll? d t.bindings.value t.call.args = some args →
      args.all Value.isGround = false) :
    ¬Lead.Yields d w ⟨made, ⟨t :: rest, plan⟩⟩ cs p := by
  rintro ⟨_, _, hcompletes, -, -⟩
  obtain ⟨args, _, hread, hground, -⟩ := (completes_primitive_iff hmethod).mp hcompletes
  rw [hargs args hread] at hground
  cases hground

variable {m : Method} {actuals : List Value}

theorem not_yields_compound (hmethod : d.method? t.call.name t.call.arity = some m)
    (hnone : ∀ actuals, evalAll? d t.bindings.value t.call.args = some actuals →
      ∀ c b g, Offers d w m actuals c b g → ¬t.choice ≤ c) :
    ¬Lead.Yields d w ⟨made, ⟨t :: rest, plan⟩⟩ cs p := by
  rintro ⟨_, _, hcompletes, -, -⟩
  obtain ⟨actuals, c, b, g, _, hactuals, hoffers, hle, -⟩ :=
    (completes_compound_iff hmethod).mp hcompletes
  exact hnone actuals hactuals c b g hoffers hle

variable {taken : TakenBranch}

/-- The derivations of a compound task are those with the choice that is taken, and those with a
later one. -/
theorem yields_taken_iff (hmethod : d.method? t.call.name t.call.arity = some m)
    (hactuals : evalAll? d t.bindings.value t.call.args = some actuals)
    (htakes : Takes d w m actuals t.choice taken) {fresh : List PendingTask}
    (hfresh : Fresh taken.branch.tasks taken.solution.bindings fresh) :
    Lead.Yields d w ⟨made, ⟨t :: rest, plan⟩⟩ cs p ↔
      Lead.Yields d w ⟨made ++ [taken.choice], ⟨fresh ++ rest, plan⟩⟩ cs p ∨
      Lead.Yields d w ⟨made, ⟨{ t with choice := taken.choice.next } :: rest, plan⟩⟩ cs p := by
  constructor
  · rintro ⟨_, p', hcompletes, rfl, rfl⟩
    obtain ⟨actuals', c, b, g, cs', hactuals', hoffers, hle, hthen, rfl⟩ :=
      (completes_compound_iff hmethod).mp hcompletes
    rw [hactuals] at hactuals'
    cases hactuals'
    -- No choice between `t.choice` and the one that is taken has an answer.
    rcases Choice.lt_or_eq_of_le (htakes.least c b g hoffers hle) with hlt | rfl
    · refine .inr ⟨c :: cs', p', ?_, rfl, rfl⟩
      exact (completes_compound_iff (t := { t with choice := taken.choice.next }) hmethod).mpr
        ⟨actuals, c, b, g, cs', hactuals, hoffers, Choice.next_le_iff.mpr hlt, hthen, rfl⟩
    · obtain ⟨hbranch, hanswer⟩ := hoffers
      rw [htakes.offers.1] at hbranch
      cases hbranch
      rw [htakes.offers.2] at hanswer
      cases hanswer
      exact .inl ⟨cs', p', (completes_fresh_append hfresh).mpr hthen, by simp, rfl⟩
  · rintro (⟨cs', p', hcompletes, rfl, rfl⟩ | ⟨_, p', hcompletes, rfl, rfl⟩)
    · refine ⟨taken.choice :: cs', p', ?_, by simp, rfl⟩
      exact (completes_compound_iff hmethod).mpr ⟨actuals, taken.choice, _, _, cs', hactuals,
        htakes.offers, htakes.from_le, (completes_fresh_append hfresh).mp hcompletes, rfl⟩
    · obtain ⟨actuals', c, b, g, cs', hactuals', hoffers, hle, hthen, rfl⟩ :=
        (completes_compound_iff (t := { t with choice := taken.choice.next }) hmethod).mp hcompletes
      refine ⟨c :: cs', p', ?_, rfl, rfl⟩
      exact (completes_compound_iff hmethod).mpr ⟨actuals', c, b, g, cs', hactuals', hoffers,
        Choice.le_trans htakes.from_le (Choice.le_of_lt (Choice.next_le_iff.mp hle)), hthen, rfl⟩

theorem taken_precedes {fresh : List PendingTask}
    (hmethod : d.method? t.call.name t.call.arity = some m) :
    Lead.Precedes d w ⟨made ++ [taken.choice], ⟨fresh ++ rest, plan⟩⟩
      ⟨made, ⟨{ t with choice := taken.choice.next } :: rest, plan⟩⟩ := by
  rintro _ _ _ _ ⟨cs, p, -, rfl, rfl⟩ ⟨_, p', hcompletes, rfl, rfl⟩
  obtain ⟨_, c, _, _, cs', -, -, hle, -, rfl⟩ :=
    (completes_compound_iff (t := { t with choice := taken.choice.next }) hmethod).mp hcompletes
  rw [List.append_assoc]
  exact before_of_lt made (Choice.next_le_iff.mp hle) cs cs'

/-- No later choice has an answer when no solution and no branch is left. -/
theorem Takes.none_later (htakes : Takes d w m actuals t.choice taken)
    (hlast : (taken.solution.more || taken.choice.branch + 1 < m.branches.length) = false)
    {c : Choice} {b : Branch} {g : Frame} (hoffers : Offers d w m actuals c b g) :
    ¬taken.choice.next ≤ c := by
  intro hle
  have hlt : taken.choice < c := Choice.next_le_iff.mp hle
  rw [Bool.or_eq_false_iff, htakes.more_eq, decide_eq_false_iff_not, decide_eq_false_iff_not]
    at hlast
  obtain ⟨hbranch, hanswer⟩ := hoffers
  have hinside := (List.getElem?_eq_some_iff.mp hbranch).1
  rw [Choice.lt_def] at hlt
  rcases hlt with hlt | ⟨heq, hlt⟩
  · omega
  · rw [← heq, htakes.offers.1] at hbranch
    cases hbranch
    have hinside' := (List.getElem?_eq_some_iff.mp hanswer).1
    omega

theorem not_yields_next (hmethod : d.method? t.call.name t.call.arity = some m)
    (hactuals : evalAll? d t.bindings.value t.call.args = some actuals)
    (htakes : Takes d w m actuals t.choice taken)
    (hlast : (taken.solution.more || taken.choice.branch + 1 < m.branches.length) = false) :
    ¬Lead.Yields d w ⟨made, ⟨{ t with choice := taken.choice.next } :: rest, plan⟩⟩ cs p := by
  refine not_yields_compound hmethod fun actuals' hactuals' c b g hoffers hle => ?_
  have hread : evalAll? d t.bindings.value t.call.args = some actuals' := hactuals'
  rw [hactuals] at hread
  cases hread
  exact htakes.none_later hlast hoffers hle

end Tasks

section Rounds

variable {d : Domain} {w : World} {rounds : Nat} {goal : List Choice → Plan → Prop} {s s' : Search}
  {t : PendingTask} {rest : List PendingTask}

/-- Before a task is done, the first lead is at the present point with the task still to do. -/
def Attempts (d : Domain) (w : World) (goal : List Choice → Plan → Prop) (t : PendingTask)
    (s : Search) : Prop :=
  ∃ made leads, leads.map Lead.point = s.agenda.history.map (·.resumed) ∧
    Covers d w goal
      (⟨made, ⟨t :: s.agenda.current.pending, s.agenda.current.plan⟩⟩ :: leads)

theorem tracks_back (henvironment : s.agenda.environment = {}) (h : Attempts d w goal t s)
    (hnone : ∀ made cs p, ¬Lead.Yields d w
      ⟨made, ⟨t :: s.agenda.current.pending, s.agenda.current.plan⟩⟩ cs p) :
    Tracks d w goal .back s := by
  obtain ⟨made, leads, hpoints, hcovers⟩ := h
  exact ⟨henvironment, ⟨leads, hpoints, hcovers.skip (hnone made)⟩, fun h => (by cases h)⟩

theorem takePrimitive_tracks (hmethod : d.method? t.call.name t.call.arity = none)
    (henvironment : s.agenda.environment = {}) (h : Attempts d w goal t s) :
    Tracks d w goal (Search.takePrimitive d t s).1 (Search.takePrimitive d t s).2 := by
  have hback (s' : Search) (hs' : s'.agenda = s.agenda)
      (hargs : ∀ args, evalAll? d t.bindings.value t.call.args = some args →
        args.all Value.isGround = false) : Tracks d w goal .back s' := by
    refine tracks_back (t := t) (hs' ▸ henvironment) ?_ fun _ _ _ => not_yields_primitive hmethod hargs
    rw [Attempts, hs']
    exact h
  unfold Search.takePrimitive
  split
  · next args hargs =>
    split
    · next hground =>
      obtain ⟨made, leads, hpoints, hcovers⟩ := h
      refine ⟨henvironment, ⟨_ :: leads, ?_, hcovers.replace fun cs p =>
        yields_step_iff hmethod hargs hground⟩, fun h => (by cases h)⟩
      rw [List.map_cons, hpoints]
      rfl
    · next hground =>
      refine hback _ rfl fun args' hargs' => ?_
      rw [hargs] at hargs'
      cases hargs'
      simpa using hground
  · next hnone =>
    refine hback _ rfl fun args hargs => ?_
    rw [hnone] at hargs
    cases hargs

theorem replace_tracks {m : Method} {actuals : List Value} {taken : TakenBranch}
    (hmethod : d.method? t.call.name t.call.arity = some m)
    (hactuals : evalAll? d t.bindings.value t.call.args = some actuals)
    (htakes : Takes d w m actuals t.choice taken) (henvironment : s.agenda.environment = {})
    (h : Attempts d w goal t s) : Tracks d w goal .onward (Search.replace t m taken s) := by
  obtain ⟨made, leads, hpoints, hcovers⟩ := h
  unfold Search.replace
  split
  -- The point is noted and takes over the derivations with later choices.
  · obtain ⟨fresh, nextScope, hfresh, heq⟩ := pushAll_eq
      (s.agenda.remember { t with choice := taken.choice }) taken.branch.tasks taken.solution.bindings
    refine ⟨(pushAll_environment _ _ _).trans henvironment,
      ⟨_, ?_, hcovers.split (fun cs p => yields_taken_iff hmethod hactuals htakes hfresh)
        (taken_precedes hmethod)⟩, fun h => (by cases h)⟩
    show _ = openPoints .onward
      ((s.agenda.remember { t with choice := taken.choice }).pushAll taken.branch.tasks
        taken.solution.bindings)
    rw [heq, List.map_cons, List.map_cons, hpoints]
    rfl
  -- Nothing is noted, as no derivation has a later choice.
  · next hlast =>
    obtain ⟨fresh, nextScope, hfresh, heq⟩ := pushAll_eq s.agenda taken.branch.tasks
      taken.solution.bindings
    have hcovers' := hcovers.replace fun cs p =>
      (yields_taken_iff hmethod hactuals htakes hfresh).trans
        (or_iff_left (not_yields_next hmethod hactuals htakes (by simpa using hlast)))
    refine ⟨(pushAll_environment _ _ _).trans henvironment, ⟨_, ?_, hcovers'⟩, fun h => (by cases h)⟩
    show _ = openPoints .onward (s.agenda.pushAll taken.branch.tasks taken.solution.bindings)
    rw [heq, List.map_cons, hpoints]
    rfl

theorem expand_tracks (hd : d.nodeIds.Nodup) {m : Method}
    (hmethod : d.method? t.call.name t.call.arity = some m) (henvironment : s.agenda.environment = {})
    (h : Attempts d w goal t s) {course : Course}
    (heq : Search.expand d w rounds t m s = (.ok course, s')) : Tracks d w goal course s' := by
  have hm : m ∈ d.methods := (Domain.of_method?_eq_some hmethod).1
  unfold Search.expand at heq
  split at heq
  · next hnone =>
    cases heq
    refine tracks_back henvironment h fun _ _ _ => not_yields_compound hmethod fun actuals hactuals => ?_
    rw [hnone] at hactuals
    cases hactuals
  · next actuals hactuals =>
    cases hchoose : Search.choose d w rounds t m actuals (s.count .expansion) with
    | mk result after =>
      obtain ⟨hagenda, hresult⟩ := choose_takes (s := s.count .expansion) hd hm henvironment hchoose
      have hagenda : after.agenda = s.agenda := hagenda
      have hattempts : Attempts d w goal t after := by
        rw [Attempts, hagenda]
        exact h
      rw [hchoose] at heq
      rcases hresult with ⟨e, rfl, -⟩ | ⟨rfl, hnone⟩ | ⟨taken, rfl, htakes⟩
      · cases heq
      · cases heq
        refine tracks_back (hagenda ▸ henvironment) hattempts fun _ _ _ =>
          not_yields_compound hmethod fun actuals' hactuals' c b g hoffers => ?_
        rw [hactuals] at hactuals'
        cases hactuals'
        exact hnone c b g hoffers
      · cases heq
        exact replace_tracks hmethod hactuals htakes (hagenda ▸ henvironment) hattempts

theorem step_tracks (hd : d.nodeIds.Nodup) (h : Tracks d w goal .onward s) {course : Course}
    (heq : Search.step d w rounds s = (.ok course, s')) : Tracks d w goal course s' := by
  obtain ⟨henvironment, ⟨leads, hpoints, hcovers⟩, -⟩ := h
  unfold Search.step at heq
  cases hpending : s.agenda.current.pending with
  | nil =>
    have hpop : (s.count .step).agenda.pop? = none := by simp [Search.count, Agenda.pop?, hpending]
    dsimp only at heq
    rw [hpop] at heq
    cases heq
    exact ⟨henvironment, ⟨leads, hpoints, hcovers⟩, fun _ => hpending⟩
  | cons t rest =>
    have hpop : (s.count .step).agenda.pop? =
        some (t, { s.agenda with current.pending := rest }) := by
      simp [Search.count, Agenda.pop?, hpending]
    dsimp only at heq
    rw [hpop] at heq
    obtain ⟨l, leads, rfl⟩ : ∃ l ls, leads = l :: ls := by
      cases leads with
      | nil => cases hpoints
      | cons l ls => exact ⟨l, ls, rfl⟩
    obtain ⟨made, point⟩ := l
    rw [List.map_cons] at hpoints
    obtain ⟨hhead, htail⟩ := List.cons.inj hpoints
    have hpoint : point = ⟨t :: rest, s.agenda.current.plan⟩ := by
      rw [← hpending]
      exact hhead
    subst hpoint
    have hattempts : Attempts d w goal t
        ⟨{ s.agenda with current.pending := rest }, (s.count .step).counters⟩ :=
      ⟨made, leads, htail, hcovers⟩
    dsimp only at heq
    split at heq
    · next hmethod =>
      exact expand_tracks
        (s := ⟨{ s.agenda with current.pending := rest }, (s.count .step).counters⟩) hd hmethod
        henvironment hattempts heq
    · next hmethod =>
      cases heq
      exact takePrimitive_tracks hmethod henvironment hattempts

/-- What the end of a search says of its goal. -/
def Settles (goal : List Choice → Plan → Prop) : Except Failure Plan → Prop
  | .ok plan => ∃ cs, goal cs plan ∧ ∀ cs' p', goal cs' p' → ¬Before cs' cs
  | .error .exhausted => ∀ cs p, ¬goal cs p
  | .error (.error _) => True

theorem round_tracks (hd : d.nodeIds.Nodup) (rounds : Nat) {course : Course}
    (h : Tracks d w goal course s) :
    (∀ course' s', s.round d w rounds course = .next course' s' → Tracks d w goal course' s') ∧
      ∀ outcome s', s.round d w rounds course = .ended outcome s' → Settles goal outcome := by
  cases course with
  | onward =>
    rw [Search.round]
    cases hstep : Search.step d w rounds s with
    | mk result after =>
      cases result with
      | ok course =>
        refine ⟨?_, fun _ _ h => (by cases h)⟩
        rintro course' s' ⟨rfl, rfl⟩
        exact step_tracks hd h hstep
      | error e =>
        refine ⟨fun _ _ h => (by cases h), ?_⟩
        rintro outcome s' ⟨rfl, rfl⟩
        trivial
  | back =>
    obtain ⟨henvironment, ⟨leads, hpoints, hcovers⟩, -⟩ := h
    rw [Search.round, Agenda.goBack?]
    cases hhistory : s.agenda.history with
    | nil =>
      refine ⟨fun _ _ h => (by cases h), ?_⟩
      rintro outcome s' ⟨rfl, rfl⟩
      intro cs p hgoal
      obtain ⟨l, hl, -⟩ := (hcovers.iff cs p).mp hgoal
      rw [openPoints, hhistory, List.map_nil, List.map_eq_nil_iff] at hpoints
      rw [hpoints] at hl
      cases hl
    | cons point history =>
      refine ⟨?_, fun _ _ h => (by cases h)⟩
      rintro course' s' ⟨rfl, rfl⟩
      rw [passOver_eq]
      rw [openPoints, hhistory] at hpoints
      exact ⟨henvironment, ⟨leads, hpoints, hcovers⟩, fun h => (by cases h)⟩
  | done =>
    obtain ⟨-, ⟨leads, hpoints, hcovers⟩, hdone⟩ := h
    refine ⟨fun _ _ h => (by cases h), ?_⟩
    rintro outcome s' ⟨rfl, rfl⟩
    cases leads with
    | nil => cases hpoints
    | cons l leads =>
      have hpoint : l.point = s.agenda.current := (List.cons.inj hpoints).1
      obtain ⟨hgoal, hleast⟩ := hcovers.least (hpoint ▸ hdone rfl)
      rw [hpoint] at hgoal
      exact ⟨l.made, hgoal, hleast⟩

theorem loop_settles (hd : d.nodeIds.Nodup) (left : Nat) {course : Course}
    (h : Tracks d w goal course s) : Settles goal (Search.loop d w rounds left course s).1 := by
  induction left generalizing course s with
  | zero => trivial
  | succ left ih =>
    obtain ⟨hnext, hended⟩ := round_tracks hd rounds h
    rw [Search.loop]
    split
    · next heq => exact ih (hnext _ _ heq)
    · next heq => exact hended _ _ heq

end Rounds

theorem tracks_enter (d : Domain) (w : World) (root : Task) :
    Tracks d w (Derives d w [] [root]) .onward (Search.enter root {}) := by
  refine ⟨rfl, ⟨[⟨[], ⟨[⟨root, 0, [], {}⟩], #[]⟩⟩], rfl, ?_, List.pairwise_singleton _ _⟩, fun h => (by cases h)⟩
  intro cs p
  have htask : PendingTask.Derives d w ⟨root, 0, [], {}⟩ cs p ↔ Derives d w [] [root] cs p :=
    and_iff_left fun c _ => c.first_le
  simp [Lead.Yields, Completes, Then, htask]

/-- A search from the start yields the plan of the leftmost derivation of its root, and it is
exhausted only if there is none. -/
theorem run_leftmost {d : Domain} (hd : d.nodeIds.Nodup) (w : World) (rounds : Nat) (root : Task) :
    (∀ plan, (Search.run d w rounds root {}).1 = .ok plan →
      ∃ cs, Derives d w [] [root] cs plan ∧
        ∀ cs' p', Derives d w [] [root] cs' p' → ¬Before cs' cs) ∧
      ((Search.run d w rounds root {}).1 = .error .exhausted →
        ∀ cs p, ¬Derives d w [] [root] cs p) := by
  have hsettles : Settles (Derives d w [] [root]) (Search.run d w rounds root {}).1 :=
    loop_settles hd rounds (tracks_enter d w root)
  constructor
  · intro plan hplan
    rw [hplan] at hsettles
    exact hsettles
  · intro hexhausted
    rw [hexhausted] at hsettles
    exact hsettles

open Roads in
theorem run_leftmost_roads :
    (∃ cs, Derives domain world [] [⟨⟨4⟩, []⟩] cs [⟨⟨5⟩, [place 2]⟩] ∧
      ∀ cs' p', Derives domain world [] [⟨⟨4⟩, []⟩] cs' p' → ¬Before cs' cs) ∧
      ∀ cs p, ¬Derives domain world [] [⟨⟨5⟩, [var 11]⟩] cs p := by
  have hplan : (Search.run domain world 20 ⟨⟨4⟩, []⟩ {}).1 = .ok [⟨⟨5⟩, [place 2]⟩] := by cbv
  have hexhausted : (Search.run domain world 20 ⟨⟨5⟩, [var 11]⟩ {}).1 = .error .exhausted := by cbv
  exact ⟨(run_leftmost domain_distinct world 20 ⟨⟨4⟩, []⟩).1 _ hplan,
    (run_leftmost domain_distinct world 20 ⟨⟨5⟩, [var 11]⟩).2 hexhausted⟩

end TaskNetwork.Decomposition
