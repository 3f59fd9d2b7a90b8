import TaskNetwork.Solver.Condition
import Mathlib.Data.Prod.Basic

/-! The limits of a search matter only to a search that is cut off. With more rounds, or with a
greater depth, a search that came to an end does the same again. -/

namespace TaskNetwork.Solver

variable {σ : Type}

/-- Where the first action is not cut off, the second does the same. -/
def Approximates (k k' : Action σ) : Prop := ∀ s, (k s).1 = .fail .unfinished ∨ k s = k' s

namespace Approximates

variable {k k' : Action σ}

theorem refl (k : Action σ) : Approximates k k := fun _ => .inr rfl

theorem eq_of_finished (h : Approximates k k') {s : State σ} (hs : (k s).1 ≠ .fail .unfinished) :
    k s = k' s :=
  (h s).resolve_left hs

end Approximates

section Parts

variable {k k' : Action σ}

theorem approximates_within (parent : Path) (segment : Segment) (refused : Action σ)
    {body body' : Path → Action σ} (h : ∀ path, Approximates (body path) (body' path)) :
    Approximates (within parent segment refused body) (within parent segment refused body') := by
  intro s
  unfold within
  split
  · rcases h (parent.child segment) s with hcut | heq
    · exact .inl hcut
    · exact .inr (by simp only [heq])
  · exact .inr rfl

theorem approximates_binding (make : Environment → Bool × Environment) (h : Approximates k k') :
    Approximates (binding make k) (binding make k') := by
  intro s
  unfold binding
  generalize make s.env = result
  obtain ⟨made, env⟩ := result
  cases made with
  | false => exact .inr rfl
  | true =>
    simp only [↓reduceIte]
    rcases h { s with env } with hcut | heq
    · exact .inl (by rw [Prod.fst_eq_iff.mp hcut])
    · exact .inr (by rw [heq])

theorem approximates_scan (path : Path) (count : Nat) {visit visit' : Nat → Action σ}
    (h : ∀ i, Approximates (visit i) (visit' i)) {rounds rounds' : Nat} (hle : rounds ≤ rounds') :
    Approximates (scan path count visit rounds) (scan path count visit' rounds') := by
  induction rounds generalizing rounds' with
  | zero =>
    intro s
    by_cases hlt : s.env.cursor path < count
    · exact .inl (by simp [scan, hlt])
    · refine .inr ?_
      cases rounds' <;> simp [scan, hlt]
  | succ rounds ih =>
    obtain ⟨rounds', rfl⟩ := Nat.exists_eq_add_of_le' (Nat.le_trans (Nat.succ_pos _) hle)
    intro s
    by_cases hlt : s.env.cursor path < count
    · simp only [scan, hlt, ↓reduceIte]
      rcases h (s.env.cursor path) s with hcut | heq
      · exact .inl (by rw [Prod.fst_eq_iff.mp hcut])
      · rw [← heq]
        rcases visit (s.env.cursor path) s with ⟨reply, t⟩
        cases reply with
        | more => exact ih (Nat.le_of_succ_le_succ hle) _
        | stop | fail => exact .inr rfl
    · exact .inr (by simp [scan, hlt])

theorem approximates_refute {search search' : Action σ → Action σ}
    (hsearch : ∀ k, Approximates (search k) (search' k)) (h : Approximates k k') :
    Approximates (refute search k) (refute search' k') := by
  intro s
  unfold refute
  rcases hsearch (fun s => (.stop, s)) s with hcut | heq
  · exact .inl (by rw [Prod.fst_eq_iff.mp hcut])
  · simp only [← heq]
    rcases search (fun s => (.stop, s)) s with ⟨reply, t⟩
    cases reply with
    | more => exact h _
    | stop | fail => exact .inr rfl

end Parts

section Nodes

variable {k k' : Action σ} {rounds rounds' : Nat}

theorem approximates_queryFact (d : Domain) (w : World) (name : Symbol) (args : List Term)
    (path frame : Path) (hle : rounds ≤ rounds') (h : Approximates k k') :
    Approximates (queryFact d w rounds name args path frame k)
      (queryFact d w rounds' name args path frame k') := by
  intro s
  unfold queryFact
  split
  · exact .inr rfl
  · split
    · exact .inr rfl
    · refine approximates_scan path _ (fun i t => ?_) hle s
      unfold tryRow
      split
      · exact .inr rfl
      · exact approximates_binding _ h _

theorem approximates_callAxiom (d : Domain) {solveBody solveBody' : Condition → Path → Path →
      Action σ → Action σ} (name : Symbol) (args : List Term) (path frame : Path)
    (hle : rounds ≤ rounds') (hbody : ∀ c parent frame {k k' : Action σ}, Approximates k k' →
      Approximates (solveBody c parent frame k) (solveBody' c parent frame k'))
    (h : Approximates k k') :
    Approximates (callAxiom d rounds solveBody name args path frame k)
      (callAxiom d rounds' solveBody' name args path frame k') := by
  intro s
  unfold callAxiom
  split
  · exact .inr rfl
  · refine approximates_scan path _ (fun i => ?_) hle _
    split
    · exact .refl _
    · refine approximates_within path _ blocked fun callee t => ?_
      unfold callClause
      split
      · exact hbody _ callee callee (approximates_binding _ h) _
      · exact .inr rfl

theorem approximates_foldr {search search' : Condition → Action σ → Action σ}
    (children : List Condition) (hsearch : ∀ c {k k' : Action σ}, Approximates k k' →
      Approximates (search c k) (search' c k')) (h : Approximates k k') :
    Approximates (children.foldr search k) (children.foldr search' k') := by
  induction children with
  | nil => exact h
  | cons c cs ih => exact hsearch c ih

/-- With more rounds and a greater depth a search does the same, unless it was cut off. -/
theorem solveWithin_approximates (d : Domain) (w : World) (hle : rounds ≤ rounds') (depth : Nat) :
    ∀ {depth' : Nat} (c : Condition) (parent frame : Path) {k k' : Action σ}, depth ≤ depth' →
      Approximates k k' → Approximates (solveWithin d w rounds depth c parent frame k)
        (solveWithin d w rounds' depth' c parent frame k') := by
  induction depth with
  | zero => exact fun _ _ _ _ _ _ _ _ => .inl rfl
  | succ depth ih =>
    intro depth' c parent frame k k' hdepth h
    obtain ⟨depth', rfl⟩ := Nat.exists_eq_add_of_le' (Nat.le_trans (Nat.succ_pos _) hdepth)
    have hinner : depth ≤ depth' := Nat.le_of_succ_le_succ hdepth
    refine approximates_within parent _ blocked fun path => ?_
    cases c with
    | fact id name args => exact approximates_queryFact d w name args path frame hle h
    | derived id name args =>
      exact approximates_callAxiom d name args path frame hle
        (fun c parent frame _ _ => ih c parent frame hinner) h
    | all id children =>
      exact approximates_foldr children (fun c _ _ => ih c path frame hinner) h
    | any id children =>
      refine approximates_scan path _ (fun i => ?_) hle
      split
      · exact .refl _
      · exact ih _ path frame hinner h
    | not id child =>
      exact approximates_refute (fun k => ih child path frame hinner (.refl k)) h

theorem solveGuard_approximates (d : Domain) (w : World) (hle : rounds ≤ rounds')
    (c : Option Condition) (parent frame : Path) (k : Action σ) :
    Approximates (solveGuard d w rounds c parent frame k)
      (solveGuard d w rounds' c parent frame k) := by
  cases c with
  | none => exact .refl k
  | some c => exact solveWithin_approximates d w hle _ c parent frame (Nat.le_refl _) (.refl k)

end Nodes

end TaskNetwork.Solver
