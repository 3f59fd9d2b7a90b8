import TaskNetwork.Proofs.Decomposition.Existence
import TaskNetwork.Proofs.Decomposition.Exploration
import TaskNetwork.Proofs.Value.Equality

/-! Facts that are stated again. A row that is identical to an earlier one gives answers that were
given before, and the tasks of an answer that led to nothing lead to nothing again. So only the first
of several points that are alike matters, and the exploration finds the same without the others. -/

namespace TaskNetwork

open Decomposition

/-- A list without the members that are identical to earlier ones. -/
def firsts {α : Type} [DecidableEq α] : List α → List α
  | [] => []
  | x :: xs => x :: (firsts xs).filter (· ≠ x)

/-- Whatever is looked for, the first member found is the same. -/
def SameFirsts (α : Type) (xs ys : List α) : Prop := ∀ p : α → Bool, xs.find? p = ys.find? p

section Firsts

variable {α : Type} {xs ys : List α}

theorem find?_firsts [DecidableEq α] (p : α → Bool) (xs : List α) :
    (firsts xs).find? p = xs.find? p := by
  induction xs with
  | nil => rfl
  | cons x xs ih =>
    cases hx : p x with
    | true => rw [firsts, List.find?_cons_of_pos hx, List.find?_cons_of_pos hx]
    | false =>
      -- A member that `p` holds of is not `x`, and so it was not dropped.
      have hother (y : α) : decide (decide (y ≠ x) = true ∧ p y = true) = p y := by
        by_cases hy : y = x
        · simp [hy, hx]
        · simp [hy]
      rw [firsts, List.find?_cons_of_neg (by simp [hx]), List.find?_cons_of_neg (by simp [hx]),
        ← ih, List.find?_filter]
      simp only [hother]

theorem sameFirsts_of_firsts_eq [DecidableEq α] (h : firsts xs = firsts ys) :
    SameFirsts α xs ys := by
  intro p
  rw [← find?_firsts p xs, h, find?_firsts]

theorem findSome?_eq_bind {β : Type} (f : α → Option β) (xs : List α) :
    xs.findSome? f = (xs.find? fun x => (f x).isSome).bind f := by
  induction xs with
  | nil => rfl
  | cons x xs ih => cases hx : f x <;> simp [hx, ih]

theorem comparison_sameFirsts : Comparison SameFirsts where
  refl _ _ := rfl
  flatMap {_ _ xs ys f g} h hfg := fun p => by
    have hf : (fun x => (f x).find? p) = fun x => (g x).find? p := funext fun x => hfg x p
    rw [List.find?_flatMap, List.find?_flatMap, hf, findSome?_eq_bind, findSome?_eq_bind, h]

theorem keepsEmpty_sameFirsts : KeepsEmpty SameFirsts := by
  intro α xs ys h
  have hhead := h fun _ => true
  cases xs <;> cases ys <;> simp_all

/-- A member of one list is a member of the other, and only members that came before it in the one
come before it in the other. -/
theorem SameFirsts.split {before after : List α} {x : α}
    (h : SameFirsts α (before ++ x :: after) ys) :
    ∃ before' after', ys = before' ++ x :: after' ∧ before' ⊆ before := by
  classical
  let p (y : α) : Bool := y = x ∨ y ∉ before
  have hx : (before ++ x :: after).find? p = some x := by
    rw [List.find?_append]
    cases hbefore : before.find? p with
    | none => simp [p]
    | some y =>
      have hy : y = x ∨ y ∉ before := by simpa [p] using List.find?_some hbefore
      rw [hy.resolve_right (not_not_intro (List.mem_of_find?_eq_some hbefore))]
      rfl
  rw [h p] at hx
  obtain ⟨-, before', after', rfl, hbefore'⟩ := List.find?_eq_some_iff_append.mp hx
  refine ⟨before', after', rfl, fun y hy => ?_⟩
  have hnot := hbefore' y hy
  simp only [p, Bool.not_eq_true', decide_eq_false_iff_not, not_or, not_not] at hnot
  exact hnot.2

theorem SameFirsts.subset (h : SameFirsts α xs ys) : xs ⊆ ys := by
  intro x hx
  obtain ⟨before, after, rfl⟩ := List.append_of_mem hx
  obtain ⟨before', after', rfl, -⟩ := h.split
  simp

theorem SameFirsts.symm (h : SameFirsts α xs ys) : SameFirsts α ys xs := fun p => (h p).symm

end Firsts

namespace Decomposition

section Exploring

variable {d : Domain} {w w' : World} {q : Point} {qs qs' : List Point} {r : Option Plan} {p : Plan}

theorem finds_none_iff : Finds d w qs none ↔ ∀ q ∈ qs, Finds d w [q] none := by
  induction qs with
  | nil => simp [finds_nil_iff]
  | cons q qs ih =>
    rw [← List.singleton_append, finds_append_iff, ih]
    simp

theorem finds_some_iff : Finds d w qs (some p) ↔ ∃ before q after, qs = before ++ q :: after ∧
    Finds d w before none ∧ Finds d w [q] (some p) := by
  constructor
  · intro h
    induction qs with
    | nil =>
      cases finds_nil_iff.mp h
    | cons q qs ih =>
      rw [← List.singleton_append, finds_append_iff] at h
      rcases h with ⟨-, hfound⟩ | ⟨hnone, hrest⟩
      · exact ⟨[], q, qs, rfl, .nil, hfound⟩
      · obtain ⟨before, q', after, rfl, hbefore, hfound⟩ := ih hrest
        refine ⟨q :: before, q', after, rfl, ?_, hfound⟩
        rw [← List.singleton_append, finds_append_iff]
        exact .inr ⟨hnone, hbefore⟩
  · rintro ⟨before, q, after, rfl, hbefore, hfound⟩
    rw [finds_append_iff, ← List.singleton_append, finds_append_iff]
    exact .inr ⟨hbefore, .inl ⟨Option.some_ne_none _, hfound⟩⟩

/-- Points that come again do not change what is found. -/
theorem Finds.of_sameFirsts (hsame : SameFirsts Point qs qs') (h : Finds d w qs r) :
    Finds d w qs' r := by
  cases r with
  | none =>
    rw [finds_none_iff] at h ⊢
    exact fun q hq => h q (hsame.symm.subset hq)
  | some p =>
    obtain ⟨before, q, after, rfl, hbefore, hfound⟩ := finds_some_iff.mp h
    obtain ⟨before', after', rfl, hsubset⟩ := hsame.split
    refine finds_some_iff.mpr ⟨before', q, after', rfl, ?_, hfound⟩
    rw [finds_none_iff] at hbefore ⊢
    exact fun q hq => hbefore q (hsubset hq)

/-- No task of the point was tried before. -/
def Point.Untried (q : Point) : Prop := ∀ t ∈ q.pending, t.choice = {}

theorem Point.Untried.successors (h : q.Untried) : ∀ q' ∈ q.successors d w, q'.Untried := by
  intro q' hq'
  unfold Point.successors at hq'
  split at hq'
  · cases hq'
  · next t rest hpending =>
    have hrest : ∀ t ∈ rest, t.choice = {} := fun t ht =>
      h t (hpending ▸ List.mem_cons_of_mem _ ht)
    split at hq'
    · split at hq'
      · obtain rfl := List.mem_singleton.mp hq'
        exact hrest
      · cases hq'
    · obtain ⟨⟨b, g⟩, -, rfl⟩ := List.mem_map.mp hq'
      intro t ht
      rcases List.mem_append.mp ht with ht | ht
      · obtain ⟨call, -, rfl⟩ := List.mem_map.mp ht
        rfl
      · exact hrest t ht
    · cases hq'

/-- The successors of a point compare as the rows of the worlds do. -/
theorem successors_compare {R : (α : Type) → List α → List α → Prop} (hR : Comparison R)
    (hrows : w.Compares R w') (hneg : KeepsEmpty R ∨ d.Positive) (hq : q.Untried) :
    R Point (q.successors d w) (q.successors d w') := by
  unfold Point.successors
  split
  · exact hR.refl _
  · next t rest hpending =>
    split
    · exact hR.refl _
    · next m actuals hmethod _ =>
      have hm : m ∈ d.methods := (Domain.of_method?_eq_some hmethod).1
      rw [hq t (hpending ▸ List.mem_cons_self), answersFrom_first, answersFrom_first]
      refine hR.map (hR.flatMap_mem fun b hb => hR.map ?_ _) _
      exact Branch.answers_compare hR hrows hneg hm hb actuals
    · exact hR.refl _

theorem Finds.of_compares (hrows : w.Compares SameFirsts w') (h : Finds d w qs r)
    (hqs : ∀ q ∈ qs, q.Untried) : Finds d w' qs r := by
  have hsuccessors {q : Point} (hq : q.Untried) :
      SameFirsts Point (q.successors d w) (q.successors d w') :=
    successors_compare comparison_sameFirsts hrows (.inl keepsEmpty_sameFirsts) hq
  induction h with
  | nil => exact .nil
  | done hpending => exact .done hpending
  | found hpending _ ih =>
    have hq := hqs _ List.mem_cons_self
    exact .found hpending ((ih hq.successors).of_sameFirsts (hsuccessors hq))
  | passed hpending _ _ ihfirst ihrest =>
    have hq := hqs _ List.mem_cons_self
    exact .passed hpending ((ihfirst hq.successors).of_sameFirsts (hsuccessors hq))
      (ihrest fun q hq => hqs q (List.mem_cons_of_mem _ hq))

end Exploring

end Decomposition

namespace Planner

section Repeats

variable {declarations : List Declaration} {d : Domain} {w w' : World} {names : SymbolTable}
  {goal : String} {rounds : Nat}

/-- If the rows of all facts are the same up to repetitions, planning that ends in one world ends in
the other with the same plan, or without one as well. -/
theorem plan_of_firsts (hbuilt : Domain.ofDeclarations declarations = .ok d) (hd : d.nodeIds.Nodup)
    (hrows : ∀ fact arity,
      firsts (w.rows fact arity).toList = firsts (w'.rows fact arity).toList)
    (hreturns : (plan d w names rounds goal).plan ≠ .error .unfinished) :
    ∃ n, ∀ rounds', n ≤ rounds' →
      (plan d w' names rounds' goal).plan = (plan d w names rounds goal).plan := by
  cases hentry : (names.find? goal).bind (d.method? · 0) with
  | none => exact ⟨0, fun rounds' _ => by simp [plan, hentry]⟩
  | some m =>
    have hnarrow := Domain.narrow_of_declarations hbuilt
    obtain ⟨outcome, hrun⟩ : ∃ outcome, (Search.run d w rounds ⟨m.name, []⟩ {}).1 = outcome :=
      ⟨_, rfl⟩
    have hplan := plan_of_run hentry hrun
    have hfinished (e : Solver.SolveError) : outcome ≠ .error (.error e) := by
      rintro rfl
      rcases plan_settles hbuilt hd hentry hreturns with ⟨p, _, hok, -⟩ | ⟨hexhausted, -⟩
      · rw [hplan] at hok
        cases hok
      · rw [hplan] at hexhausted
        cases e <;> cases hexhausted
    obtain ⟨r, hfinds, rfl⟩ := run_finds hd hrun hfinished
    have hfinds' : Finds d w' [.start ⟨m.name, []⟩] r :=
      hfinds.of_compares (fun fact arity => sameFirsts_of_firsts_eq (hrows fact arity))
        (by simp [Point.Untried, Point.start])
    obtain ⟨n, hn⟩ := hfinds'.run hd hnarrow
    exact ⟨n, fun rounds' hle => (plan_of_run hentry (hn rounds' hle)).trans hplan.symm⟩

end Repeats

namespace Crossing

open Roads

/-- The roads and the closed place, some of them more than once. -/
def again : List World.Entry :=
  [⟨⟨0⟩, [place 0, place 1]⟩, ⟨⟨0⟩, [place 0, place 1]⟩, ⟨⟨2⟩, [place 1]⟩,
    ⟨⟨0⟩, [place 1, place 2]⟩, ⟨⟨0⟩, [place 0, place 1]⟩, ⟨⟨2⟩, [place 1]⟩]

def repeated : World := .attemptAll .empty again

theorem firsts_repeated (fact : Symbol) (arity : Nat) :
    firsts (Roads.world.rows fact arity).toList = firsts (repeated.rows fact arity).toList := by
  have hworld : Roads.world.Lists Roads.entries := World.lists_of_insertAll rfl
  have hrepeated : repeated.Lists again := World.lists_of_insertAll rfl
  rw [hworld, hrepeated]
  by_cases hroad : (⟨0⟩ : Symbol) = fact ∧ 2 = arity
  · obtain ⟨rfl, rfl⟩ := hroad
    decide
  · by_cases hclosed : (⟨2⟩ : Symbol) = fact ∧ 1 = arity
    · obtain ⟨rfl, rfl⟩ := hclosed
      decide
    · simp [Roads.entries, again, hroad, hclosed]

theorem run_roads :
    (Search.run Roads.domain Roads.world 20 ⟨⟨4⟩, []⟩ {}).1 = .ok [⟨⟨5⟩, [place 2]⟩] := by cbv

end Crossing

open Crossing in
theorem plan_of_firsts_crossing :
    (plan Roads.domain Roads.world names 20 "leave").plan = .ok [⟨⟨5⟩, [Roads.place 2]⟩] ∧
      ∃ n, ∀ rounds', n ≤ rounds' → (plan Roads.domain repeated names rounds' "leave").plan =
        (plan Roads.domain Roads.world names 20 "leave").plan := by
  have hentry : (names.find? "leave").bind (Roads.domain.method? · 0) =
      some (Roads.leave Roads.wayCalled) := by cbv
  have hplan := plan_of_run hentry run_roads
  refine ⟨hplan, plan_of_firsts Roads.domain_built Roads.domain_distinct firsts_repeated ?_⟩
  rw [hplan]
  simp [Except.mapError]

end Planner

end TaskNetwork
