import TaskNetwork.Proofs.Decomposition.Termination

/-! The search as an exploration of points. A point has a successor for each way to deal with its
next task, and points are explored in order, each with all that comes after it, until one has no
task left. This is described without the agenda of a search. A search that ends has found what is
found so among its open points, and if the exploration comes to an end, so does the search. -/

namespace TaskNetwork.Decomposition

open Solver

/-- A task without its number, which has no part in what the task comes to. -/
def PendingTask.unnumbered (t : PendingTask) : PendingTask := { t with scope := 0 }

def Point.unnumbered (q : Point) : Point := { q with pending := q.pending.map (·.unnumbered) }

theorem Point.pending_unnumbered_iff {q : Point} : q.unnumbered.pending = [] ↔ q.pending = [] :=
  List.map_eq_nil_iff

/-- The tasks of a branch as they wait to be done. -/
def waiting (calls : List Task) (g : Frame) : List PendingTask :=
  calls.map fun call => { call, scope := 0, bindings := g }

/-- Branches with their answers in order, from a choice on. -/
def answersFrom (answers : Branch → List Frame) : List Branch → Choice → List (Branch × Frame)
  | [], _ => []
  | b :: bs, ⟨0, j⟩ => ((answers b).drop j).map (b, ·) ++ answersFrom answers bs {}
  | _ :: bs, ⟨i + 1, j⟩ => answersFrom answers bs ⟨i, j⟩

/-- The points to which the next task can lead. -/
def Point.successors (d : Domain) (w : World) (q : Point) : List Point :=
  match q.pending with
  | [] => []
  | t :: rest =>
    match d.method? t.call.name t.call.arity, evalAll? d t.bindings.value t.call.args with
    | none, some args =>
      if args.all Value.isGround then [⟨rest, q.plan.push ⟨t.call.name, args⟩⟩] else []
    | some m, some actuals =>
      (answersFrom (·.answers d w m actuals) m.branches t.choice).map fun (b, g) =>
        ⟨waiting b.tasks g ++ rest, q.plan⟩
    | _, none => []

/-- What the exploration of some points finds: the plan of the first one without a task that it
meets, or that there is none. -/
inductive Finds (d : Domain) (w : World) : List Point → Option Plan → Prop
  | nil : Finds d w [] none
  | done {q : Point} {qs : List Point} : q.pending = [] →
      Finds d w (q :: qs) (some q.plan.toList)
  | found {q : Point} {qs : List Point} {p : Plan} : q.pending ≠ [] →
      Finds d w (q.successors d w) (some p) → Finds d w (q :: qs) (some p)
  | passed {q : Point} {qs : List Point} {r : Option Plan} : q.pending ≠ [] →
      Finds d w (q.successors d w) none → Finds d w qs r → Finds d w (q :: qs) r

section Answers

variable {answers : Branch → List Frame} {bs : List Branch} {b : Branch} {g : Frame} {c c' : Choice}

/-- The same choice when one more branch stands before all others. -/
def Choice.below (c : Choice) : Choice := { c with branch := c.branch + 1 }

theorem Choice.below_le_below_iff : c.below ≤ c'.below ↔ c ≤ c' := by
  rw [le_def, le_def]
  simp [below]

theorem Choice.le_below {j : Nat} : (⟨0, j⟩ : Choice) ≤ c.below := .inl (Nat.succ_pos _)

theorem Choice.not_below_le {j : Nat} : ¬c.below ≤ ⟨0, j⟩ := by
  rw [le_def]
  simp [below]

theorem drop_eq_nil_of_not_get {fs : List Frame} {j : Nat} (h : ∀ g, fs[j]? ≠ some g) :
    fs.drop j = [] :=
  List.drop_eq_nil_iff.mpr
    (List.getElem?_eq_none_iff.mp (Option.eq_none_iff_forall_ne_some.mpr h))

/-- Nothing comes from a choice on if no answer is there. -/
theorem answersFrom_eq_nil (hnone : ∀ c' b g, bs[c'.branch]? = some b →
    (answers b)[c'.solution]? = some g → ¬c ≤ c') : answersFrom answers bs c = [] := by
  induction bs generalizing c with
  | nil => rfl
  | cons first bs ih =>
    match c with
    | ⟨0, j⟩ =>
      have hdrop : (answers first).drop j = [] := drop_eq_nil_of_not_get fun g hg =>
        hnone ⟨0, j⟩ first g rfl hg (.inr ⟨rfl, Nat.le_refl j⟩)
      have hrest : answersFrom answers bs {} = [] := ih fun c' b g hb hg _ =>
        hnone c'.below b g hb hg Choice.le_below
      rw [answersFrom, hdrop, hrest]
      rfl
    | ⟨i + 1, j⟩ =>
      exact ih (c := ⟨i, j⟩) fun c' b g hb hg hle =>
        hnone c'.below b g hb hg (Choice.below_le_below_iff.mpr hle)

/-- From a choice on come the first answer that is there and what comes after it. -/
theorem answersFrom_eq_cons (hb : bs[c'.branch]? = some b) (hg : (answers b)[c'.solution]? = some g)
    (hle : c ≤ c') (hleast : ∀ c'' b g, bs[c''.branch]? = some b →
      (answers b)[c''.solution]? = some g → c ≤ c'' → c' ≤ c'') :
    answersFrom answers bs c = (b, g) :: answersFrom answers bs c'.next := by
  induction bs generalizing c c' with
  | nil => cases hb
  | cons first bs ih =>
    match c, c' with
    | ⟨0, j⟩, ⟨0, j'⟩ =>
      obtain rfl := Option.some.inj hb
      obtain ⟨hlt, hget⟩ := List.getElem?_eq_some_iff.mp hg
      rw [Choice.le_def] at hle
      have hj : j ≤ j' := by simpa using hle
      have hfirst := hleast ⟨0, j⟩ first _ rfl
        (List.getElem?_eq_getElem (Nat.lt_of_le_of_lt hj hlt)) (.inr ⟨rfl, Nat.le_refl j⟩)
      rw [Choice.le_def] at hfirst
      obtain rfl : j = j' := Nat.le_antisymm hj (by simpa using hfirst)
      rw [Choice.next, answersFrom, answersFrom, List.drop_eq_getElem_cons hlt, hget]
      rfl
    | ⟨0, j⟩, ⟨i' + 1, j'⟩ =>
      have hdrop : (answers first).drop j = [] := drop_eq_nil_of_not_get fun g hg =>
        Choice.not_below_le (c := ⟨i', j'⟩)
          (hleast ⟨0, j⟩ first g rfl hg (.inr ⟨rfl, Nat.le_refl j⟩))
      have hrest : answersFrom answers bs {} =
          (b, g) :: answersFrom answers bs (Choice.next ⟨i', j'⟩) :=
        ih hb hg (Choice.first_le _) fun c'' b g hb hg _ =>
          Choice.below_le_below_iff.mp (hleast c''.below b g hb hg Choice.le_below)
      rw [answersFrom, hdrop, hrest]
      rfl
    | ⟨i + 1, j⟩, ⟨0, j'⟩ => exact absurd hle (Choice.not_below_le (c := ⟨i, j⟩))
    | ⟨i + 1, j⟩, ⟨i' + 1, j'⟩ =>
      show answersFrom answers bs ⟨i, j⟩ = (b, g) :: answersFrom answers bs (Choice.next ⟨i', j'⟩)
      exact ih hb hg (Choice.below_le_below_iff.mp hle) fun c'' b g hb hg hle =>
        Choice.below_le_below_iff.mp
          (hleast c''.below b g hb hg (Choice.below_le_below_iff.mpr hle))

theorem answersFrom_first (answers : Branch → List Frame) (bs : List Branch) :
    answersFrom answers bs {} = bs.flatMap fun b => (answers b).map (b, ·) := by
  induction bs with
  | nil => rfl
  | cons b bs ih =>
    rw [List.flatMap_cons, ← ih]
    rfl

end Answers

section Finding

variable {d : Domain} {w : World} {q : Point} {qs qs' : List Point} {r : Option Plan}

theorem finds_nil_iff : Finds d w [] r ↔ r = none := by
  constructor
  · intro h
    cases h
    rfl
  · rintro rfl
    exact .nil

theorem finds_append_iff : Finds d w (qs ++ qs') r ↔
    (r ≠ none ∧ Finds d w qs r) ∨ (Finds d w qs none ∧ Finds d w qs' r) := by
  induction qs with
  | nil => simp [finds_nil_iff]
  | cons q qs ih =>
    constructor
    · intro h
      cases h with
      | done hpending => exact .inl ⟨Option.some_ne_none _, .done hpending⟩
      | found hpending hfound => exact .inl ⟨Option.some_ne_none _, .found hpending hfound⟩
      | passed hpending hnone hrest =>
        refine (ih.mp hrest).imp ?_ ?_
        · exact fun ⟨hsome, hqs⟩ => ⟨hsome, .passed hpending hnone hqs⟩
        · exact fun ⟨hqs, hqs'⟩ => ⟨.passed hpending hnone hqs, hqs'⟩
    · rintro (⟨hsome, h⟩ | ⟨h, hqs'⟩)
      · cases h with
        | done hpending => exact .done hpending
        | found hpending hfound => exact .found hpending hfound
        | passed hpending hnone hrest => exact .passed hpending hnone (ih.mpr (.inl ⟨hsome, hrest⟩))
      · cases h with
        | passed hpending hnone hrest => exact .passed hpending hnone (ih.mpr (.inr ⟨hrest, hqs'⟩))

/-- A point with a task is explored by way of its successors. -/
theorem finds_cons_iff (hpending : q.pending ≠ []) :
    Finds d w (q :: qs) r ↔ Finds d w (q.successors d w ++ qs) r := by
  rw [finds_append_iff]
  constructor
  · intro h
    cases h with
    | done hnil => exact absurd hnil hpending
    | found _ hfound => exact .inl ⟨Option.some_ne_none _, hfound⟩
    | passed _ hnone hrest => exact .inr ⟨hnone, hrest⟩
  · rintro (⟨hsome, hfound⟩ | ⟨hnone, hrest⟩)
    · obtain ⟨p, rfl⟩ := Option.ne_none_iff_exists'.mp hsome
      exact .found hpending hfound
    · exact .passed hpending hnone hrest

end Finding

/-- What a step of the search does with the present point: it leads to the first successor, and
notes a point that has the others if there are any. -/
inductive Advance (d : Domain) (w : World) (a : Agenda) : Course → Agenda → Prop
  | done {a' : Agenda} : a.current.pending = [] → a'.current = a.current →
      a'.history = a.history → Advance d w a .done a'
  | back {a' : Agenda} : a.current.pending ≠ [] →
      a.current.unnumbered.successors d w = [] → a'.history = a.history → Advance d w a .back a'
  | only {a' : Agenda} : a.current.pending ≠ [] →
      a.current.unnumbered.successors d w = [a'.current.unnumbered] →
      a'.history = a.history → Advance d w a .onward a'
  | noted {a' : Agenda} {q : Point} : a.current.pending ≠ [] → q.resumed.pending ≠ [] →
      a.current.unnumbered.successors d w =
        a'.current.unnumbered :: q.resumed.unnumbered.successors d w →
      a'.history = q :: a.history → Advance d w a .onward a'

section Steps

variable {d : Domain} {w : World} {rounds : Nat} {s s' : Search} {t : PendingTask} {m : Method}
  {actuals : List Value}

theorem successors_primitive (w : World) (hmethod : d.method? t.call.name t.call.arity = none)
    (rest : List PendingTask) (plan : Array Step) :
    (Point.unnumbered ⟨t :: rest, plan⟩).successors d w =
      match evalAll? d t.bindings.value t.call.args with
      | some args => if args.all Value.isGround then
          [Point.unnumbered ⟨rest, plan.push ⟨t.call.name, args⟩⟩] else []
      | none => [] := by
  cases hargs : evalAll? d t.bindings.value t.call.args with
  | none => simp [Point.successors, Point.unnumbered, PendingTask.unnumbered, hmethod, hargs]
  | some args => simp [Point.successors, Point.unnumbered, PendingTask.unnumbered, hmethod, hargs]

theorem successors_compound (hmethod : d.method? t.call.name t.call.arity = some m)
    (hactuals : evalAll? d t.bindings.value t.call.args = some actuals) (rest : List PendingTask)
    (plan : Array Step) : (Point.unnumbered ⟨t :: rest, plan⟩).successors d w =
      (answersFrom (·.answers d w m actuals) m.branches t.choice).map fun (b, g) =>
        ⟨waiting b.tasks g ++ rest.map (·.unnumbered), plan⟩ := by
  simp [Point.successors, Point.unnumbered, PendingTask.unnumbered, hmethod, hactuals]

theorem successors_eq_nil (hmethod : d.method? t.call.name t.call.arity = some m)
    (hactuals : evalAll? d t.bindings.value t.call.args = some actuals)
    (hnone : ∀ c b g, Offers d w m actuals c b g → ¬t.choice ≤ c) (rest : List PendingTask)
    (plan : Array Step) : (Point.unnumbered ⟨t :: rest, plan⟩).successors d w = [] := by
  have hanswers : answersFrom (·.answers d w m actuals) m.branches t.choice = [] :=
    answersFrom_eq_nil fun c b g hb hg => hnone c b g ⟨hb, hg⟩
  rw [successors_compound hmethod hactuals, hanswers, List.map_nil]

theorem Fresh.unnumbered {calls : List Task} {g : Frame} {fresh : List PendingTask}
    (h : Fresh calls g fresh) : fresh.map (·.unnumbered) = waiting calls g := by
  obtain ⟨rfl, hfresh⟩ := h
  rw [waiting, List.map_map]
  refine List.map_congr_left fun t ht => ?_
  obtain ⟨hbindings, hchoice⟩ := hfresh t ht
  simp [PendingTask.unnumbered, hbindings, hchoice]

/-- The branch that is taken leads to the first successor, and a later choice to the others. -/
theorem Takes.successors {taken : TakenBranch} {fresh : List PendingTask}
    (h : Takes d w m actuals t.choice taken)
    (hmethod : d.method? t.call.name t.call.arity = some m)
    (hactuals : evalAll? d t.bindings.value t.call.args = some actuals)
    (hfresh : Fresh taken.branch.tasks taken.solution.bindings fresh) (rest : List PendingTask)
    (plan : Array Step) : (Point.unnumbered ⟨t :: rest, plan⟩).successors d w =
      Point.unnumbered ⟨fresh ++ rest, plan⟩ :: (Point.unnumbered
        ⟨{ t with choice := taken.choice.next } :: rest, plan⟩).successors d w := by
  have hanswers : answersFrom (·.answers d w m actuals) m.branches t.choice =
      (taken.branch, taken.solution.bindings) ::
        answersFrom (·.answers d w m actuals) m.branches taken.choice.next :=
    answersFrom_eq_cons h.offers.1 h.offers.2 h.from_le fun c b g hb hg => h.least c b g ⟨hb, hg⟩
  rw [successors_compound hmethod hactuals, hanswers,
    successors_compound (t := { t with choice := taken.choice.next }) hmethod hactuals,
    List.map_cons, Point.unnumbered, List.map_append, hfresh.unnumbered]

theorem push_of_pop? {a b : Agenda} (h : a.pop? = some (t, b)) : b.push t = a := by
  unfold Agenda.pop? at h
  split at h
  · cases h
  · next hpending =>
    cases h
    simp only [Agenda.push]
    rw [← hpending]

theorem takePrimitive_advances (hmethod : d.method? t.call.name t.call.arity = none) :
    Advance d w (s.agenda.push t) (Search.takePrimitive d t s).1
      (Search.takePrimitive d t s).2.agenda := by
  have hsuccessors :=
    successors_primitive w hmethod s.agenda.current.pending s.agenda.current.plan
  unfold Search.takePrimitive
  split
  · next args hargs =>
    rw [hargs] at hsuccessors
    dsimp only at hsuccessors
    split
    · next hground =>
      rw [if_pos hground] at hsuccessors
      exact .only (List.cons_ne_nil _ _) hsuccessors rfl
    · next hground =>
      rw [if_neg hground] at hsuccessors
      exact .back (List.cons_ne_nil _ _) hsuccessors rfl
  · next hargs =>
    rw [hargs] at hsuccessors
    exact .back (List.cons_ne_nil _ _) hsuccessors rfl

theorem replace_advances (hmethod : d.method? t.call.name t.call.arity = some m)
    (hactuals : evalAll? d t.bindings.value t.call.args = some actuals) {taken : TakenBranch}
    (htakes : Takes d w m actuals t.choice taken) :
    Advance d w (s.agenda.push t) .onward (Search.replace t m taken s).agenda := by
  unfold Search.replace
  split
  · let resume : PendingTask := { t with choice := taken.choice }
    obtain ⟨fresh, nextScope, hfresh, heq⟩ :=
      pushAll_eq (s.agenda.remember resume) taken.branch.tasks taken.solution.bindings
    show Advance d w (s.agenda.push t) .onward
      ((s.agenda.remember resume).pushAll taken.branch.tasks taken.solution.bindings)
    rw [heq]
    exact .noted (q := { s.agenda.current with pending := resume :: s.agenda.current.pending })
      (List.cons_ne_nil _ _) (List.cons_ne_nil _ _)
      (htakes.successors hmethod hactuals hfresh _ _) rfl
  · next hlast =>
    obtain ⟨fresh, nextScope, hfresh, heq⟩ :=
      pushAll_eq s.agenda taken.branch.tasks taken.solution.bindings
    show Advance d w (s.agenda.push t) .onward
      (s.agenda.pushAll taken.branch.tasks taken.solution.bindings)
    rw [heq]
    have hnone (c : Choice) (b : Branch) (g : Frame) (hoffers : Offers d w m actuals c b g) :
        ¬taken.choice.next ≤ c := htakes.none_later (by simpa using hlast) hoffers
    have hsuccessors := htakes.successors hmethod hactuals hfresh s.agenda.current.pending
      s.agenda.current.plan
    rw [successors_eq_nil (t := { t with choice := taken.choice.next }) hmethod hactuals hnone]
      at hsuccessors
    exact .only (List.cons_ne_nil _ _) hsuccessors rfl

theorem expand_advances (hd : d.nodeIds.Nodup) (henvironment : s.agenda.environment = {})
    (hmethod : d.method? t.call.name t.call.arity = some m) {course : Course}
    (h : Search.expand d w rounds t m s = (.ok course, s')) :
    Advance d w (s.agenda.push t) course s'.agenda := by
  have hm : m ∈ d.methods := (Domain.of_method?_eq_some hmethod).1
  unfold Search.expand at h
  split at h
  · next hargs =>
    cases h
    refine .back (List.cons_ne_nil _ _) ?_ rfl
    simp [Point.successors, Point.unnumbered, PendingTask.unnumbered, Agenda.push, hmethod, hargs]
  · next actuals hactuals =>
    cases hchoose : Search.choose d w rounds t m actuals (s.count .expansion) with
    | mk result after =>
      obtain ⟨hagenda, hresult⟩ := choose_takes (s := s.count .expansion) hd hm henvironment hchoose
      have hagenda : after.agenda = s.agenda := hagenda
      rw [hchoose] at h
      rw [← hagenda]
      rcases hresult with ⟨e, rfl, -⟩ | ⟨rfl, hnone⟩ | ⟨taken, rfl, htakes⟩
      · cases h
      · cases h
        exact .back (List.cons_ne_nil _ _) (successors_eq_nil hmethod hactuals hnone _ _) rfl
      · cases h
        exact replace_advances hmethod hactuals htakes

theorem step_advances (hd : d.nodeIds.Nodup) (henvironment : s.agenda.environment = {})
    {course : Course} (h : Search.step d w rounds s = (.ok course, s')) :
    Advance d w s.agenda course s'.agenda := by
  unfold Search.step at h
  dsimp only at h
  split at h
  · next hpop =>
    cases h
    refine .done ?_ rfl rfl
    unfold Agenda.pop? at hpop
    split at hpop
    · assumption
    · cases hpop
  · next t agenda hpop =>
    have hpopped : agenda.environment = {} := (pop?_environment hpop).trans henvironment
    have hpush : agenda.push t = s.agenda := push_of_pop? hpop
    rw [← hpush]
    split at h
    · next m hmethod =>
      exact expand_advances (s := { s.count .step with agenda }) hd hpopped hmethod h
    · next hmethod =>
      cases h
      exact takePrimitive_advances (s := { s.count .step with agenda }) hmethod

end Steps

/-- How a search ends that has found this. -/
def conclusion : Option Plan → Except Failure Plan
  | some p => .ok p
  | none => .error .exhausted

section Loops

variable {d : Domain} {w : World} {rounds : Nat} {s : Search} {course : Course}

/-- What is found among the open points after a step was to be found there before it. -/
theorem Advance.finds {a a' : Agenda} (h : Advance d w a course a') {r : Option Plan}
    (hr : Finds d w ((openPoints course a').map (·.unnumbered)) r) :
    Finds d w ((openPoints .onward a).map (·.unnumbered)) r := by
  have hcurrent (hpending : a.current.pending ≠ []) {qs : List Point} :
      Finds d w (a.current.unnumbered.successors d w ++ qs) r →
        Finds d w (a.current.unnumbered :: qs) r :=
    (finds_cons_iff (mt Point.pending_unnumbered_iff.mp hpending)).mpr
  cases h with
  | done _ hsame hhistory =>
    rw [openPoints, hsame, hhistory] at hr
    exact hr
  | back hpending hnone hhistory =>
    refine hcurrent hpending ?_
    rw [openPoints, hhistory] at hr
    rw [hnone]
    exact hr
  | only hpending honly hhistory =>
    refine hcurrent hpending ?_
    rw [openPoints, hhistory] at hr
    rw [honly]
    exact hr
  | @noted _ q hpending hresumed hfirst hhistory =>
    refine hcurrent hpending ?_
    rw [openPoints, hhistory, List.map_cons, List.map_cons, List.map_cons, ← List.singleton_append,
      finds_append_iff, finds_cons_iff (mt Point.pending_unnumbered_iff.mp hresumed),
      ← finds_append_iff] at hr
    rw [hfirst]
    exact hr

/-- A step from a point with successors goes to the first one. -/
theorem Advance.first {a a' : Agenda} (h : Advance d w a course a')
    (hpending : a.current.pending ≠ []) {q : Point} {qs : List Point}
    (hqs : a.current.unnumbered.successors d w = q :: qs) :
    course = .onward ∧ a'.current.unnumbered = q ∧
      ((qs = [] ∧ a'.history = a.history) ∨ ∃ later : Point, later.resumed.pending ≠ [] ∧
        later.resumed.unnumbered.successors d w = qs ∧ a'.history = later :: a.history) := by
  cases h with
  | done hnil => exact absurd hnil hpending
  | back _ hnone =>
    rw [hnone] at hqs
    cases hqs
  | only _ honly hhistory =>
    rw [honly] at hqs
    cases hqs
    exact ⟨rfl, rfl, .inl ⟨rfl, hhistory⟩⟩
  | @noted _ later _ hresumed hfirst hhistory =>
    rw [hfirst] at hqs
    cases hqs
    exact ⟨rfl, rfl, .inr ⟨later, hresumed, rfl, hhistory⟩⟩

/-- A loop that ends has found what is to be found among its open points. -/
theorem loop_finds (hd : d.nodeIds.Nodup) (left : Nat) (henvironment : s.agenda.environment = {})
    (hdone : course = .done → s.agenda.current.pending = []) {outcome : Except Failure Plan}
    (h : (Search.loop d w rounds left course s).1 = outcome)
    (hreturns : ∀ e, outcome ≠ .error (.error e)) :
    ∃ r, Finds d w ((openPoints course s.agenda).map (·.unnumbered)) r ∧
      outcome = conclusion r := by
  induction left generalizing course s with
  | zero => exact absurd h.symm (hreturns _)
  | succ left ih =>
    rw [Search.loop] at h
    cases course with
    | onward =>
      rw [Search.round] at h
      have hkept := step_environment d w rounds henvironment
      cases hstep : Search.step d w rounds s with
      | mk result s' =>
        rw [hstep] at h hkept
        cases result with
        | error e => exact absurd h.symm (hreturns e)
        | ok course =>
          have hadvance := step_advances hd henvironment hstep
          have hdone' (hcourse : course = .done) : s'.agenda.current.pending = [] := by
            subst hcourse
            cases hadvance with
            | done hpending hcurrent => rwa [hcurrent]
          obtain ⟨r, hr, hr'⟩ := ih hkept hdone' h
          exact ⟨r, hadvance.finds hr, hr'⟩
    | back =>
      rw [Search.round, Agenda.goBack?] at h
      cases hhistory : s.agenda.history with
      | nil =>
        rw [hhistory] at h
        refine ⟨none, ?_, h.symm⟩
        rw [openPoints, hhistory]
        exact .nil
      | cons q history =>
        rw [hhistory] at h
        dsimp only at h
        rw [passOver_eq] at h
        have hgone : Course.onward = .done → q.resumed.pending = [] := fun h => (by cases h)
        rw [openPoints, hhistory]
        exact ih (s := Search.count ⟨{ s.agenda with current := q.resumed, history }, s.counters⟩
          .restore) henvironment hgone h
    | done =>
      refine ⟨some s.agenda.current.plan.toList, ?_, h.symm⟩
      exact .done (q := s.agenda.current.unnumbered) (by simp [Point.unnumbered, hdone rfl])

/-- With rounds enough the loop ends in this way. -/
def Leads (d : Domain) (w : World) (rounds : Nat) (course : Course) (s : Search)
    (outcome : Except Failure Plan) : Prop :=
  ∃ left, (Search.loop d w rounds left course s).1 = outcome

/-- A search that goes back to these points ends in this way. -/
def BackLeads (d : Domain) (w : World) (rounds : Nat) (history : List Point)
    (outcome : Except Failure Plan) : Prop :=
  ∀ s : Search, s.agenda.environment = {} → s.agenda.history = history →
    Leads d w rounds .back s outcome

theorem Leads.of_round {course' : Course} {s' : Search} {outcome : Except Failure Plan}
    (hround : s.round d w rounds course = .next course' s')
    (h : Leads d w rounds course' s' outcome) : Leads d w rounds course s outcome := by
  obtain ⟨left, hleft⟩ := h
  refine ⟨left + 1, ?_⟩
  rw [Search.loop, hround]
  exact hleft

theorem Leads.of_ended {s' : Search} {outcome : Except Failure Plan}
    (hround : s.round d w rounds course = .ended outcome s') :
    Leads d w rounds course s outcome := by
  refine ⟨1, ?_⟩
  rw [Search.loop, hround]

theorem backLeads_nil : BackLeads d w rounds [] (.error .exhausted) := by
  intro s _ hhistory
  have hround : s.round d w rounds .back = .ended (.error .exhausted) s := by
    simp only [Search.round, Agenda.goBack?, hhistory]
  exact .of_ended hround

theorem backLeads_cons {q : Point} {history : List Point} {outcome : Except Failure Plan}
    (h : ∀ s : Search, s.agenda.environment = {} → s.agenda.current = q.resumed →
      s.agenda.history = history → Leads d w rounds .onward s outcome) :
    BackLeads d w rounds (q :: history) outcome := by
  intro s henvironment hhistory
  have hround : s.round d w rounds .back = .next .onward
      (Search.count ⟨{ s.agenda with current := q.resumed, history }, s.counters⟩ .restore) := by
    simp only [Search.round, Agenda.goBack?, hhistory, passOver_eq]
  exact .of_round hround (h _ henvironment rfl rfl)

theorem leads_done (hpending : s.agenda.current.pending = []) :
    Leads d w rounds .onward s (.ok s.agenda.current.plan.toList) := by
  have hstep : Search.step d w rounds s = (.ok .done, s.count .step) := by
    simp [Search.step, Search.count, Agenda.pop?, hpending]
  have hround : s.round d w rounds .onward = .next .done (s.count .step) := by
    rw [Search.round, hstep]
  exact .of_round hround (.of_ended rfl)

theorem round_advances (hd : d.nodeIds.Nodup) (hhalts : ∀ e, ¬AnyHalts d w rounds e)
    (henvironment : s.agenda.environment = {}) :
    ∃ course s', s.round d w rounds .onward = .next course s' ∧ s'.agenda.environment = {} ∧
      Advance d w s.agenda course s'.agenda := by
  have hkept := step_environment d w rounds henvironment
  cases hstep : Search.step d w rounds s with
  | mk result s' =>
    rw [hstep] at hkept
    cases result with
    | error e =>
      have hround : s.round d w rounds .onward = .ended (.error (.error e)) s' := by
        rw [Search.round, hstep]
      exact absurd (round_error hd henvironment hround) (hhalts e)
    | ok course =>
      exact ⟨course, s', by rw [Search.round, hstep], hkept, step_advances hd henvironment hstep⟩

/-- The search finds what there is to find at the present point. If that is nothing it goes back,
and what comes then decides. -/
theorem Finds.leads (hd : d.nodeIds.Nodup) (hhalts : ∀ e, ¬AnyHalts d w rounds e)
    {qs : List Point} {r : Option Plan} (h : Finds d w qs r) {outcome : Except Failure Plan}
    (henvironment : s.agenda.environment = {}) (hpending : s.agenda.current.pending ≠ [])
    (hqs : s.agenda.current.unnumbered.successors d w = qs)
    (hfound : ∀ p, r = some p → outcome = .ok p)
    (hnone : r = none → BackLeads d w rounds s.agenda.history outcome) :
    Leads d w rounds .onward s outcome := by
  -- The first successor is met at once, and the others are met on coming back.
  induction h generalizing s outcome with
  | nil =>
    obtain ⟨course, s', hround, henvironment', hadvance⟩ := round_advances hd hhalts henvironment
    refine .of_round hround ?_
    cases hadvance with
    | done hnil => exact absurd hnil hpending
    | back _ _ hhistory => exact hnone rfl s' henvironment' hhistory
    | only _ honly =>
      rw [honly] at hqs
      cases hqs
    | noted _ _ hfirst =>
      rw [hfirst] at hqs
      cases hqs
  | done hdone =>
    obtain ⟨course, s', hround, -, hadvance⟩ := round_advances hd hhalts henvironment
    obtain ⟨rfl, rfl, -⟩ := hadvance.first hpending hqs
    refine .of_round hround ?_
    rw [hfound _ rfl]
    exact leads_done (Point.pending_unnumbered_iff.mp hdone)
  | found hfirst _ ih =>
    obtain ⟨course, s', hround, henvironment', hadvance⟩ := round_advances hd hhalts henvironment
    obtain ⟨rfl, rfl, -⟩ := hadvance.first hpending hqs
    exact .of_round hround
      (ih henvironment' (mt Point.pending_unnumbered_iff.mpr hfirst) rfl hfound
        fun h => (by cases h))
  | passed hfirst _ hrest ihfirst ihrest =>
    obtain ⟨course, s', hround, henvironment', hadvance⟩ := round_advances hd hhalts henvironment
    obtain ⟨rfl, rfl, hlater⟩ := hadvance.first hpending hqs
    refine .of_round hround
      (ihfirst henvironment' (mt Point.pending_unnumbered_iff.mpr hfirst) rfl
        (fun _ h => (by cases h)) fun _ => ?_)
    rcases hlater with ⟨rfl, hhistory⟩ | ⟨later, hresumed, hothers, hhistory⟩
    · rw [hhistory]
      exact hnone (finds_nil_iff.mp hrest)
    · rw [hhistory]
      refine backLeads_cons fun s'' henvironment'' hcurrent hhistory' => ?_
      refine ihrest henvironment'' (hcurrent ▸ hresumed) (hcurrent ▸ hothers) hfound ?_
      rw [hhistory']
      exact hnone

end Loops

section Runs

variable {d : Domain} {w : World} {root : Task}

/-- The point at which a search starts. -/
def Point.start (root : Task) : Point := { pending := [{ call := root, scope := 0 }] }

theorem run_finds (hd : d.nodeIds.Nodup) {rounds : Nat} {outcome : Except Failure Plan}
    (h : (Search.run d w rounds root {}).1 = outcome)
    (hreturns : ∀ e, outcome ≠ .error (.error e)) :
    ∃ r, Finds d w [.start root] r ∧ outcome = conclusion r := by
  have hstart : Course.onward = .done → (Search.enter root {}).agenda.current.pending = [] :=
    fun h => (by cases h)
  exact loop_finds hd rounds rfl hstart h hreturns

theorem Finds.run (hd : d.nodeIds.Nodup) (hnarrow : d.Narrow) {r : Option Plan}
    (h : Finds d w [.start root] r) :
    ∃ n, ∀ rounds, n ≤ rounds → (Search.run d w rounds root {}).1 = conclusion r := by
  obtain ⟨enough, henough⟩ := exists_rounds d w
  have hhalts : ∀ e, ¬AnyHalts d w enough e := fun e => not_anyHalts hnarrow henough
  have hsuccessors : Finds d w ((Point.start root).successors d w) r := by
    have h' := (finds_cons_iff (List.cons_ne_nil _ _)).mp h
    rwa [List.append_nil] at h'
  have hleads : Leads d w enough .onward (Search.enter root {}) (conclusion r) := by
    refine hsuccessors.leads hd hhalts rfl (List.cons_ne_nil _ _) rfl ?_ ?_
    · rintro p rfl
      rfl
    · rintro rfl
      exact backLeads_nil
  obtain ⟨left, hleft⟩ := hleads
  have hreturns : conclusion r ≠ .error (.error .unfinished) := by
    cases r <;> simp [conclusion]
  refine ⟨max enough left, fun rounds hrounds => ?_⟩
  -- With at least as many rounds for everything, the loop ends as it does here.
  rcases Search.loop_approximates d w (by omega : enough ≤ rounds) left .onward
    (Search.enter root {}) (by omega : left ≤ rounds) with hcut | hsame
  · exact absurd (hleft.symm.trans hcut) hreturns
  · rw [← hleft, hsame]
    rfl

end Runs

end TaskNetwork.Decomposition
