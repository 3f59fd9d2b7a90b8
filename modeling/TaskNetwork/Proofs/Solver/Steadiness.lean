import TaskNetwork.Proofs.Environment.Region
import TaskNetwork.Solver.Condition

/-! What a search can leave behind, whatever the domain is like and however it ends: bindings at or
below one path, and cursors of the nodes that are active still. A node that is left takes its own
cursor along, so a search that has left its nodes adds no cursor. -/

namespace TaskNetwork.Solver

open Environment

/-- Bindings and changes lie at or below `top`, and cursors at paths that are `active`. -/
structure Held (top : Path) (active : Path → Prop) (env : Environment) : Prop where
  frames : ∀ p ∈ env.frames, p.1.isWithin top
  trail : ∀ change ∈ env.trail, change.path.isWithin top
  cursors : ∀ p ∈ env.cursors, active p.1

theorem exists_of_mem_undo {frames : Assignment Path Frame} {change : Change} {p : Path × Frame}
    (h : p ∈ undo frames change) : ∃ q ∈ frames, q.1 = p.1 := by
  fun_cases undo frames change with
  | case1 hnone =>
    rw [undo, hnone] at h
    exact ⟨p, h, rfl⟩
  | case2 frame hframe v hprevious hsome =>
    simp only [undo, hframe, hprevious, hsome, ↓reduceIte] at h
    rcases Assignment.eq_or_mem_of_mem_put h with rfl | h
    · exact ⟨_, Assignment.mem_of_get?_eq_some hframe, rfl⟩
    · exact ⟨p, h, rfl⟩
  | case3 frame hframe v hprevious hnone =>
    simp only [undo, hframe, hprevious, hnone] at h
    exact ⟨p, h, rfl⟩
  | case4 frame hframe hprevious frame' hempty =>
    simp only [undo, hframe, hprevious, hempty, ↓reduceIte, frame'] at h
    exact ⟨p, (List.mem_filter.mp h).1, rfl⟩
  | case5 frame hframe hprevious frame' hempty =>
    simp only [undo, hframe, hprevious, hempty, frame'] at h
    rcases Assignment.eq_or_mem_of_mem_put h with rfl | h
    · exact ⟨_, Assignment.mem_of_get?_eq_some hframe, rfl⟩
    · exact ⟨p, h, rfl⟩

namespace Held

variable {top path : Path} {active : Path → Prop} {env after : Environment}

theorem empty (top : Path) (active : Path → Prop) : Held top active {} :=
  ⟨by simp, by simp, by simp⟩

theorem mono {active' : Path → Prop} (h : Held top active env) (hle : ∀ p, active p → active' p) :
    Held top active' env :=
  ⟨h.frames, h.trail, fun p hp => hle p.1 (h.cursors p hp)⟩

theorem bind (h : Held top active env) (hin : path.isWithin top) (name : Symbol) (v : Value) :
    Held top active (env.bind path name v) where
  frames p hp := by
    rcases Assignment.eq_or_mem_of_mem_put hp with rfl | hp
    · exact hin
    · exact h.frames p hp
  trail change hchange := by
    rcases List.mem_cons.mp hchange with rfl | hchange
    · exact hin
    · exact h.trail change hchange
  cursors := h.cursors

theorem binds (h : Held top active env) (hin : path.isWithin top) (hbinds : Binds path env after) :
    Held top active after := by
  induction hbinds with
  | refl => exact h
  | bind name v _ _ ih => exact ih.bind hin name v

theorem setCursor (h : Held top active env) (hactive : active path) (i : Nat) :
    Held top active (env.setCursor path i) where
  frames := h.frames
  trail := h.trail
  cursors p hp := by
    rcases Assignment.eq_or_mem_of_mem_put hp with rfl | hp
    · exact hactive
    · exact h.cursors p hp

theorem rollback (h : Held top active env) (mark : Nat) : Held top active (env.rollback mark) where
  frames := by
    have hfold (changes : List Change) (frames : Assignment Path Frame)
        (hframes : ∀ p ∈ frames, p.1.isWithin top) :
        ∀ p ∈ changes.foldl undo frames, p.1.isWithin top := by
      induction changes generalizing frames with
      | nil => exact hframes
      | cons change rest ih =>
        refine ih (undo frames change) fun p hp => ?_
        obtain ⟨q, hq, heq⟩ := exists_of_mem_undo hp
        exact heq ▸ hframes q hq
    exact hfold _ env.frames h.frames
  trail change hchange := h.trail change (List.mem_of_mem_drop hchange)
  cursors := h.cursors

/-- A node that is left is active no longer, and nor is its cursor. -/
theorem leave (h : Held top (fun p => active p ∨ p = path) env) :
    Held top active (env.leave path) where
  frames p hp := h.frames p (List.mem_filter.mp hp).1
  trail change hchange := h.trail change (List.mem_filter.mp hchange).1
  cursors p hp := by
    obtain ⟨hp, hne⟩ := List.mem_filter.mp hp
    exact (h.cursors p hp).resolve_right (by simpa using hne)

/-- Nothing stays when the node at `top` is left last. -/
theorem leave_eq_empty (h : Held top (· = top) env) : env.leave top = {} := by
  have hframes : (env.frames.filter fun p => !p.1.isWithin top) = [] := by
    rw [List.filter_eq_nil_iff]
    exact fun p hp => by simp [h.frames p hp]
  have htrail : (env.trail.filter fun change => !change.path.isWithin top) = [] := by
    rw [List.filter_eq_nil_iff]
    exact fun change hchange => by simp [h.trail change hchange]
  have hcursors : env.cursors.erase top = [] := by
    rw [Assignment.erase, List.filter_eq_nil_iff]
    exact fun p hp => by simp [h.cursors p hp]
  show (⟨env.frames.filter fun p => !p.1.isWithin top, env.cursors.erase top,
    env.trail.filter fun change => !change.path.isWithin top⟩ : Environment) = {}
  rw [hframes, htrail, hcursors]

end Held

/-- Whatever cursors there are, the action adds none and binds at or below `top` only. -/
def Steady {σ : Type} (top : Path) (k : Action σ) : Prop :=
  ∀ (active : Path → Prop) (s : State σ), Held top active s.env → Held top active (k s).2.env

section Parts

variable {σ : Type} {top : Path}

theorem steady_of_env_eq {k : Action σ} (h : ∀ s, (k s).2.env = s.env) : Steady top k :=
  fun _ s hs => (h s).symm ▸ hs

/-- A node may use a cursor of its own while it is active. -/
theorem steady_within {parent : Path} {segment : Segment} {refused : Action σ}
    {body : Path → Action σ} (hrefused : Steady top refused)
    (hbody : ∀ (active : Path → Prop) (s : State σ), active (parent.child segment) →
      Held top active s.env → Held top active (body (parent.child segment) s).2.env) :
    Steady top (within parent segment refused body) := by
  intro active s hs
  unfold within
  split
  · apply Held.leave
    exact hbody _ s (.inr rfl) (hs.mono fun _ => .inl)
  · exact hrefused active s hs

theorem steady_blocked : Steady top (blocked (σ := σ)) := steady_of_env_eq fun _ => rfl

theorem steady_binding {make : Environment → Bool × Environment} {k : Action σ} {path : Path}
    (hin : path.isWithin top) (hmake : ∀ env, Binds path env (make env).2) (hk : Steady top k) :
    Steady top (binding make k) := by
  intro active s hs
  have hmade : Held top active (make s.env).2 := hs.binds hin (hmake s.env)
  unfold binding
  generalize make s.env = result at *
  obtain ⟨made, env⟩ := result
  have hnext : Held top active
      (if made then k { s with env } else (.more, { s with env })).2.env := by
    split
    · exact hk active _ hmade
    · exact hmade
  dsimp only
  split
  · next heq =>
    rw [heq] at hnext
    exact hnext
  · next heq =>
    rw [heq] at hnext
    exact hnext.rollback _

theorem held_scan {path : Path} {count : Nat} {visit : Nat → Action σ}
    (hvisit : ∀ i, Steady top (visit i)) {active : Path → Prop} (hactive : active path)
    (rounds : Nat) (s : State σ) (hs : Held top active s.env) :
    Held top active (scan path count visit rounds s).2.env := by
  induction rounds generalizing s with
  | zero =>
    unfold scan
    split <;> exact hs
  | succ rounds ih =>
    have hvisited := hvisit (s.env.cursor path) active s hs
    unfold scan
    dsimp only
    split
    · split
      · next heq =>
        rw [heq] at hvisited
        exact ih _ (hvisited.setCursor hactive _)
      · exact hvisited
    · exact hs

theorem steady_refute {search : Action σ → Action σ} {k : Action σ}
    (hsearch : ∀ k, Steady top k → Steady top (search k)) (hk : Steady top k) :
    Steady top (refute search k) := by
  intro active s hs
  have hinner := hsearch (fun s => (.stop, s)) (steady_of_env_eq fun _ => rfl) active s hs
  unfold refute
  dsimp only
  split
  · next heq =>
    rw [heq] at hinner
    exact hinner.rollback _
  · next heq =>
    rw [heq] at hinner
    exact hk active _ (hinner.rollback _)
  · next heq =>
    rw [heq] at hinner
    exact hinner

end Parts

section Nodes

variable {σ : Type} {top frame : Path} {k : Action σ}

theorem held_queryFact (d : Domain) (w : World) (rounds : Nat) (name : Symbol) (args : List Term)
    {path : Path} (hin : frame.isWithin top) (hk : Steady top k) {active : Path → Prop}
    (hactive : active path) (s : State σ) (hs : Held top active s.env) :
    Held top active (queryFact d w rounds name args path frame k s).2.env := by
  unfold queryFact
  split
  · exact hs
  · split
    · exact hs
    · refine held_scan (fun i => ?_) hactive rounds s hs
      intro active' s' hs'
      unfold tryRow
      split
      · exact hs'
      · exact steady_binding hin (binds_bindRow frame args _) hk active' (s'.count _) hs'

theorem held_callAxiom (d : Domain) (rounds : Nat)
    {solveBody : Condition → Path → Path → Action σ → Action σ} (name : Symbol) (args : List Term)
    {path : Path} (hin : frame.isWithin top) (hpath : path.isWithin top) (hk : Steady top k)
    (hbody : ∀ (c : Condition) (callee : Path) (k : Action σ), callee.isWithin top →
      Steady top k → Steady top (solveBody c callee callee k))
    {active : Path → Prop} (hactive : active path) (s : State σ) (hs : Held top active s.env) :
    Held top active (callAxiom d rounds solveBody name args path frame k s).2.env := by
  unfold callAxiom
  split
  · exact hs
  · next actuals _ =>
    refine held_scan (fun i => ?_) hactive rounds _ hs
    split
    · exact steady_of_env_eq fun _ => rfl
    · next c _ =>
      have hcallee : (path.child (.node c.id)).isWithin top :=
        Path.isWithin_trans (Path.child_isWithin path _) hpath
      refine steady_within steady_blocked fun active' s' _ hs' => ?_
      unfold callClause
      have henter := hs'.binds hcallee
        (binds_enterParams d (path.child (.node c.id)) c.params actuals s'.env)
      split
      · next heq =>
        rw [heq] at henter
        exact hbody _ _ _ hcallee
          (steady_binding hin (binds_handBackAll d _ frame c.params args) hk) active' _ henter
      · next heq =>
        rw [heq] at henter
        exact henter

theorem steady_solveWithin (d : Domain) (w : World) (rounds depth : Nat) :
    ∀ (c : Condition) (parent frame : Path) (k : Action σ), parent.isWithin top →
      frame.isWithin top → Steady top k → Steady top (solveWithin d w rounds depth c parent frame k) := by
  induction depth with
  | zero => exact fun _ _ _ _ _ _ _ => steady_of_env_eq fun _ => rfl
  | succ depth ih =>
    intro c parent frame k hparent hin hk
    have hpath : (parent.child (.node c.id)).isWithin top :=
      Path.isWithin_trans (Path.child_isWithin parent _) hparent
    refine steady_within steady_blocked fun active s hactive hs => ?_
    generalize parent.child (.node c.id) = path at *
    cases c with
    | fact id name args => exact held_queryFact d w rounds name args hin hk hactive s hs
    | derived id name args =>
      refine held_callAxiom d rounds name args hin hpath hk (fun c callee k hcallee hk => ?_)
        hactive s hs
      exact ih c callee callee k hcallee hcallee hk
    | all id children =>
      have hconjuncts : Steady top (children.foldr
          (fun child k => solveWithin d w rounds depth child path frame k) k) := by
        induction children with
        | nil => exact hk
        | cons child children hrest => exact ih child path frame _ hpath hin hrest
      exact hconjuncts active s hs
    | any id children =>
      refine held_scan (fun i => ?_) hactive rounds s hs
      split
      · exact steady_of_env_eq fun _ => rfl
      · exact ih _ path frame k hpath hin hk
    | not id child =>
      exact steady_refute (fun k hk => ih child path frame k hpath hin hk) hk active s hs

theorem steady_solveGuard (d : Domain) (w : World) (rounds : Nat) (c : Option Condition)
    {path : Path} (hin : path.isWithin top) (hk : Steady top k) :
    Steady top (solveGuard d w rounds c path path k) := by
  cases c with
  | none => exact hk
  | some c => exact steady_solveWithin d w rounds _ c path path k hin hin hk

end Nodes

end TaskNetwork.Solver
