import TaskNetwork.Proofs.Domain.Built

/-! What the solving of a condition can come to: the conditions inside it and, where it calls an
axiom, those of the axiom's clauses. A search ends in an error only if its action does, if it is cut
off, or if it comes to a query that is wider than facts are. -/

namespace TaskNetwork

/-- The conditions that can be entered while the first one is solved. -/
inductive Domain.Reaches (d : Domain) : Condition → Condition → Prop
  | self (c : Condition) : d.Reaches c c
  | inner {c x y : Condition} : x ∈ c.nodes → d.Reaches x y → d.Reaches c y
  | call {id : NodeId} {name : Symbol} {args : List Term} {c : Clause} {y : Condition} :
      c ∈ d.clausesOf name args.length → d.Reaches c.condition y →
      d.Reaches (.derived id name args) y

theorem Domain.Narrow.of_reaches {d : Domain} (hd : d.Narrow) {c x : Condition} (h : d.Reaches c x)
    (hc : c.Narrow) : x.Narrow := by
  induction h with
  | self => exact hc
  | inner hx _ ih =>
    exact ih fun id name args hquery => hc id name args (Condition.nodes_trans hx hquery)
  | call hclause _ ih => exact ih (hd.clauses _ (Domain.mem_of_mem_clausesOf hclause))

theorem Domain.Narrow.length_le_of_reaches {d : Domain} (hd : d.Narrow) {m : Method}
    (hm : m ∈ d.methods) {b : Branch} (hb : b ∈ m.branches) {c : Condition}
    (hc : b.condition = some c) {id : NodeId} {name : Symbol} {args : List Term}
    (h : d.Reaches c (.fact id name args)) : args.length ≤ maxArity :=
  hd.of_reaches h (hd.branches m hm b hb c hc) id name args (Condition.self_mem_nodes _)

namespace Solver

variable {σ : Type} {errors : SolveError → Prop}

/-- If the action ends in an error, it is one of `errors`. -/
def FailsOnly (errors : SolveError → Prop) (k : Action σ) : Prop :=
  ∀ s e, (k s).1 = .fail e → errors e

section Parts

variable {k : Action σ}

theorem failsOnly_blocked : FailsOnly errors (blocked : Action σ) := fun _ _ h => nomatch h

theorem failsOnly_within {parent : Path} {segment : Segment} {refused : Action σ}
    {body : Path → Action σ} (hrefused : FailsOnly errors refused)
    (hbody : ∀ path, FailsOnly errors (body path)) :
    FailsOnly errors (within parent segment refused body) := by
  intro s e h
  unfold within at h
  split at h
  · exact hbody _ s e h
  · exact hrefused s e h

theorem failsOnly_binding (make : Environment → Bool × Environment) (hk : FailsOnly errors k) :
    FailsOnly errors (binding make k) := by
  intro s e h
  unfold binding at h
  generalize make s.env = result at h
  obtain ⟨made, env⟩ := result
  cases made with
  | false => cases h
  | true =>
    simp only [↓reduceIte] at h
    split at h
    · next e' t heq => exact hk { s with env } e (by rw [heq]; exact h)
    · next hne _ => exact absurd h (hne e)

theorem failsOnly_scan (hcut : errors .unfinished) (path : Path) (count : Nat)
    {visit : Nat → Action σ} (hvisit : ∀ i, FailsOnly errors (visit i)) (rounds : Nat) :
    FailsOnly errors (scan path count visit rounds) := by
  induction rounds with
  | zero =>
    intro s e h
    rw [scan] at h
    dsimp only at h
    split at h
    · cases h
      exact hcut
    · cases h
  | succ rounds ih =>
    intro s e h
    rw [scan] at h
    dsimp only at h
    split at h
    · split at h
      · exact ih _ e h
      · exact hvisit _ s e h
    · cases h

theorem failsOnly_refute {search : Action σ → Action σ}
    (hsearch : ∀ k, FailsOnly errors k → FailsOnly errors (search k)) (hk : FailsOnly errors k) :
    FailsOnly errors (refute search k) := by
  intro s e h
  have hstop : FailsOnly errors (search fun s => (.stop, s)) := hsearch _ fun _ _ h => nomatch h
  unfold refute at h
  dsimp only at h
  split at h
  · cases h
  · exact hk _ e h
  · next heq => exact hstop s e (by rw [heq]; exact h)

end Parts

section Nodes

variable {k : Action σ} {frame path : Path} {name : Symbol} {args : List Term} {rounds : Nat}

theorem failsOnly_queryFact (d : Domain) (w : World) (hcut : errors .unfinished)
    (hwide : maxArity < args.length → errors (.arityOutOfRange name args.length))
    (hk : FailsOnly errors k) :
    FailsOnly errors (queryFact d w rounds name args path frame k) := by
  intro s e h
  unfold queryFact at h
  split at h
  · next hlt =>
    cases h
    exact hwide hlt
  · split at h
    · cases h
    · refine failsOnly_scan hcut path _ (fun i t e' h' => ?_) rounds s e h
      unfold tryRow at h'
      split at h'
      · cases h'
      · exact failsOnly_binding _ hk _ e' h'

theorem failsOnly_callAxiom (d : Domain) (hcut : errors .unfinished)
    {solveBody : Condition → Path → Path → Action σ → Action σ}
    (hbody : ∀ c ∈ d.clausesOf name args.length, ∀ callee k, FailsOnly errors k →
      FailsOnly errors (solveBody c.condition callee callee k))
    (hk : FailsOnly errors k) :
    FailsOnly errors (callAxiom d rounds solveBody name args path frame k) := by
  intro s e h
  unfold callAxiom at h
  split at h
  · cases h
  · refine failsOnly_scan hcut path _ (fun i => ?_) rounds _ e h
    split
    · exact fun _ _ h => nomatch h
    · next c hc =>
      refine failsOnly_within failsOnly_blocked fun callee t e' h' => ?_
      unfold callClause at h'
      split at h'
      · exact hbody c (Domain.mem_clausesOf_of_place hc) callee _ (failsOnly_binding _ hk) _ e' h'
      · cases h'

/-- A search can fail only as its action does, or by being cut off, or at a query that its condition
reaches and that is wider than facts are. -/
theorem solveWithin_failsOnly (d : Domain) (w : World) (hcut : errors .unfinished) (depth : Nat) :
    ∀ (c : Condition) (parent frame : Path) (k : Action σ),
      (∀ id name args, d.Reaches c (.fact id name args) → maxArity < args.length →
        errors (.arityOutOfRange name args.length)) → FailsOnly errors k →
      FailsOnly errors (solveWithin d w rounds depth c parent frame k) := by
  induction depth with
  | zero =>
    rintro c parent frame k - - s e ⟨⟩
    exact hcut
  | succ depth ih =>
    intro c parent frame k hwide hk
    refine failsOnly_within failsOnly_blocked fun path => ?_
    have hinner (x : Condition) (hx : x ∈ c.nodes) (k : Action σ) (hk : FailsOnly errors k) :
        FailsOnly errors (solveWithin d w rounds depth x path frame k) :=
      ih x path frame k (fun id name args hreach => hwide id name args (.inner hx hreach)) hk
    cases c with
    | fact id name args => exact failsOnly_queryFact d w hcut (hwide id name args (.self _)) hk
    | derived id name args =>
      refine failsOnly_callAxiom d hcut (fun c hc callee k hk => ?_) hk
      exact ih c.condition callee callee k
        (fun id name args hreach => hwide id name args (.call hc hreach)) hk
    | all id children =>
      have hconjuncts (cs : List Condition) (hcs : cs ⊆ children) : FailsOnly errors
          (cs.foldr (fun child k => solveWithin d w rounds depth child path frame k) k) := by
        induction cs with
        | nil => exact hk
        | cons c cs hrest =>
          rw [List.cons_subset] at hcs
          exact hinner c (Condition.mem_nodes_of_mem_all hcs.1) _ (hrest hcs.2)
      exact hconjuncts children (List.Subset.refl _)
    | any id children =>
      refine failsOnly_scan hcut path _ (fun i => ?_) rounds
      split
      · exact fun _ _ h => nomatch h
      · next child hchild =>
        exact hinner child (Condition.mem_nodes_of_mem_any (List.mem_of_getElem? hchild)) k hk
    | not id child =>
      exact failsOnly_refute (fun k hk => hinner child (Condition.mem_nodes_not id child) k hk) hk

end Nodes

end Solver

end TaskNetwork
