import TaskNetwork.Proofs.Solver.Answers
import TaskNetwork.Proofs.Domain.Nodes

/-! How a search hands its answers to its action. `Delivered` says which answers the action was
given and with which reply the search ended, and `Tidy` that the environment was brought back.
`Serves` joins the two for a search that works at or below a path; it is shown here for the parts
from which the solver is made. -/

namespace TaskNetwork.Solver

open Environment

variable {σ : Type}

/-- After an error only what `spill` allows may have changed, and nothing after any other reply. -/
def Restored (spill : Path → Prop) (before : Environment) : Reply → Environment → Prop
  | .fail _, after => Spilled spill before after
  | .stop, after | .more, after => after = before

theorem Restored.of_eq {spill : Path → Prop} {before after : Environment} (h : after = before) :
    (reply : Reply) → Restored spill before reply after
  | .fail _ => h ▸ Spilled.refl spill before
  | .stop | .more => h

theorem Restored.mono {spill spill' : Path → Prop} {before after : Environment}
    (hle : ∀ p, spill p → spill' p) :
    {reply : Reply} → Restored spill before reply after → Restored spill' before reply after
  | .fail _, h => Spilled.mono h hle
  | .stop, h | .more, h => h

theorem Restored.eq_of_ne_fail {spill : Path → Prop} {before after : Environment} {reply : Reply}
    (h : Restored spill before reply after) (hreply : ∀ e, reply ≠ .fail e) : after = before := by
  cases reply with
  | fail e => exact absurd rfl (hreply e)
  | stop => exact h
  | more => exact h

/-- The action brings back the environment of `s`. -/
def Tidy (spill : Path → Prop) (k : Action σ) (s : State σ) : Prop :=
  Restored spill s.env (k s).1 (k s).2.env

/-- From a memory, `k` is given the frames of a list in turn, each as the frame at `own` of a state
whose environment is one of `offered`, until its reply is not to go on. This reply ends the search,
which replies to go on if there is none. A search may also halt with an error of its own. -/
inductive Delivered (halts : SolveError → Prop) (offered : Environment → Prop) (own : Path)
    (k : Action σ) : List Frame → σ → Reply → σ → Prop
  | none (m : σ) : Delivered halts offered own k [] m .more m
  | halt {fs : List Frame} {e : SolveError} (m : σ) (h : halts e) :
      Delivered halts offered own k fs m (.fail e) m
  | next {fs : List Frame} {s t : State σ} {reply : Reply} {m : σ} (hs : offered s.env)
      (hk : k s = (.more, t)) (rest : Delivered halts offered own k fs t.memory reply m) :
      Delivered halts offered own k (s.env.frame own :: fs) s.memory reply m
  | last {fs : List Frame} {s t : State σ} {reply : Reply} (hs : offered s.env)
      (hk : k s = (reply, t)) (hreply : reply ≠ .more) :
      Delivered halts offered own k (s.env.frame own :: fs) s.memory reply t.memory

namespace Delivered

variable {halts : SolveError → Prop} {offered offered' : Environment → Prop} {own own' : Path}
  {k k' : Action σ} {fs gs : List Frame} {m m' m'' : σ} {reply reply' : Reply}

theorem mono (h : Delivered halts offered own k fs m reply m')
    (hle : ∀ env, offered env → offered' env) : Delivered halts offered' own k fs m reply m' := by
  induction h with
  | none m => exact .none m
  | halt m h => exact .halt m h
  | next hs hk _ ih => exact .next (hle _ hs) hk ih
  | last hs hk hreply => exact .last (hle _ hs) hk hreply

theorem mono_halts {halts' : SolveError → Prop} (h : Delivered halts offered own k fs m reply m')
    (hle : ∀ e, halts e → halts' e) : Delivered halts' offered own k fs m reply m' := by
  induction h with
  | none m => exact .none m
  | halt m h => exact .halt m (hle _ h)
  | next hs hk _ ih => exact .next hs hk ih
  | last hs hk hreply => exact .last hs hk hreply

theorem call {s : State σ} (hs : offered s.env) :
    Delivered halts offered own k [s.env.frame own] s.memory (k s).1 (k s).2.memory := by
  cases hk : k s with
  | mk reply t =>
    cases reply with
    | more => exact .next hs hk (.none t.memory)
    | stop => exact .last hs hk (by simp)
    | fail e => exact .last hs hk (by simp)

theorem append_of_more (h : Delivered halts offered own k fs m .more m')
    (h' : Delivered halts offered own k gs m' reply m'') :
    Delivered halts offered own k (fs ++ gs) m reply m'' := by
  generalize hr : Reply.more = r at h
  induction h with
  | none => exact h'
  | halt => cases hr
  | next hs hk _ ih => exact .next hs hk (ih h' hr)
  | last _ _ hreply => exact absurd hr.symm hreply

theorem append_of_ne (h : Delivered halts offered own k fs m reply m') (hreply : reply ≠ .more)
    (gs : List Frame) : Delivered halts offered own k (fs ++ gs) m reply m' := by
  induction h with
  | none => exact absurd rfl hreply
  | halt m h => exact .halt m h
  | next hs hk _ ih => exact .next hs hk (ih hreply)
  | last hs hk hreply => exact .last hs hk hreply

/-- An action that hands on the answers from each frame hands on those from all of them. -/
theorem bind {g : Frame → List Frame} (h : Delivered halts offered own k fs m reply m')
    (hk : ∀ s : State σ, offered s.env → Delivered halts offered' own' k' (g (s.env.frame own))
      s.memory (k s).1 (k s).2.memory) :
    Delivered halts offered' own' k' (fs.flatMap g) m reply m' := by
  induction h with
  | none m => exact .none m
  | halt m h => exact .halt m h
  | next hs heq _ ih =>
    have hfirst := hk _ hs
    rw [heq] at hfirst
    exact hfirst.append_of_more ih
  | last hs heq hreply =>
    have hfirst := hk _ hs
    rw [heq] at hfirst
    exact hfirst.append_of_ne hreply _

/-- An error is one of the search or one of the action. -/
theorem halts_or_fails {e : SolveError} (h : Delivered halts offered own k fs m (.fail e) m') :
    halts e ∨ ∃ s t, offered s.env ∧ k s = (.fail e, t) := by
  generalize hr : Reply.fail e = r at h
  induction h with
  | none => cases hr
  | halt _ h =>
    cases hr
    exact .inl h
  | next _ _ _ ih => exact ih hr
  | last hs hk _ =>
    subst hr
    exact .inr ⟨_, _, hs, hk⟩

/-- An action that wants no second answer tells whether there is one. -/
theorem stopped (h : Delivered halts offered own (fun s => (.stop, s)) fs m reply m') :
    m' = m ∧ (reply = .stop → fs ≠ []) ∧ (reply = .more → fs = []) := by
  induction h with
  | none => simp
  | halt => simp
  | next _ hk _ _ => cases hk
  | last _ hk _ =>
    cases hk
    simp

end Delivered

/-- From `s`, with work at or below `top`, the search hands the frames of a list to its action and
brings the environment back, if the action does so. -/
def Serves (halts : SolveError → Prop) (top own : Path) (fs : List Frame)
    (search : Action σ → Action σ) (s : State σ) : Prop :=
  ∀ (spill : Path → Prop) (k : Action σ), spill own →
    (∀ t : State σ, Grown top own s.env t.env → Tidy spill k t) →
    Tidy spill (search k) s ∧
      Delivered halts (Grown top own s.env) own k fs s.memory (search k s).1 (search k s).2.memory

/-- As `Serves`, but the environment is brought back only when `top` is left. -/
def ServesInside (halts : SolveError → Prop) (top own : Path) (fs : List Frame)
    (search : Action σ → Action σ) (s : State σ) : Prop :=
  ∀ (spill : Path → Prop) (k : Action σ), spill own →
    (∀ t : State σ, Grown top own s.env t.env → Tidy spill k t) →
    Restored spill s.env (search k s).1 ((search k s).2.env.leave top) ∧
      Delivered halts (Grown top own s.env) own k fs s.memory (search k s).1 (search k s).2.memory

section Parts

variable {halts : SolveError → Prop} {top own : Path} {fs : List Frame}
  {search : Action σ → Action σ} {s : State σ}

theorem Serves.widen {inner : Path} (h : Serves halts inner own fs search s)
    (hin : inner.isWithin top) : Serves halts top own fs search s := by
  intro spill k hown hk
  obtain ⟨htidy, hfs⟩ := h spill k hown fun t ht => hk t (ht.widen hin (.inl rfl))
  exact ⟨htidy, hfs.mono fun _ ht => ht.widen hin (.inl rfl)⟩

/-- What an error leaves in the frames at or below a node goes when the node is left. -/
theorem Restored.leave {spill : Path → Prop} {i : Nat} {start before after : Environment}
    (hclear : Clear top start) (hcursor : CursorAt top i start before) :
    {reply : Reply} → Restored (fun p => spill p ∨ p.isWithin top) before reply after →
      Restored spill start reply (after.leave top)
  | .fail _, h => Spilled.leave hclear hcursor h
  | .stop, h | .more, h => by
    rw [Restored] at h
    rw [h]
    exact hcursor.leave_eq hclear

theorem Restored.leave_of_binds {spill : Path → Prop} {start before after : Environment}
    (hclear : Clear top start) (hbinds : Binds top start before) :
    {reply : Reply} → Restored (fun p => spill p ∨ p.isWithin top) before reply after →
      Restored spill start reply (after.leave top)
  | .fail _, h => by
    have hspilled : Spilled (fun p => spill p ∨ p.isWithin top) start before :=
      .of_binds (.inr (Path.isWithin_refl top)) hbinds
    exact (hspilled.trans h).leave hclear (.start hclear)
  | .stop, h | .more, h => by
    rw [Restored] at h
    rw [h]
    exact hbinds.leave_of_clear hclear

theorem Serves.inside (hclear : Clear top s.env) (h : Serves halts top own fs search s) :
    ServesInside halts top own fs search s := by
  intro spill k hown hk
  obtain ⟨htidy, hfs⟩ := h spill k hown hk
  exact ⟨.leave hclear (.start hclear) (htidy.mono fun _ => .inl), hfs⟩

/-- A search without answers that leaves the environment alone. -/
theorem serves_nil (hsearch : ∀ k : Action σ, (search k s).1 = .more ∧
    (search k s).2.env = s.env ∧ (search k s).2.memory = s.memory) :
    Serves halts top own [] search s := by
  intro spill k _ _
  obtain ⟨hreply, henv, hmemory⟩ := hsearch k
  refine ⟨.of_eq henv _, ?_⟩
  rw [hreply, hmemory]
  exact .none _

theorem serves_within {parent : Path} {segment : Segment} {refused : Action σ}
    {body : Path → Action σ → Action σ} (hadmits : parent.contains segment = false)
    (h : ServesInside halts (parent.child segment) own fs (body (parent.child segment)) s) :
    Serves halts (parent.child segment) own fs
      (fun k => within parent segment refused fun path => body path k) s := by
  intro spill k hown hk
  have hwithin : within parent segment refused (fun path => body path k) s =
      ((body (parent.child segment) k s).1,
        (body (parent.child segment) k s).2.mapEnv (·.leave (parent.child segment))) := by
    simp [within, admits, hadmits]
  simp only [Tidy, hwithin]
  exact h spill k hown hk

theorem serves_blocked {parent : Path} {segment : Segment} {body : Path → Action σ → Action σ}
    (hblocked : parent.contains segment = true) :
    Serves halts top own [] (fun k => within parent segment blocked fun path => body path k) s := by
  apply serves_nil
  intro k
  simp [within, admits, hblocked, blocked, State.count]

/-- Bindings in the frame at `own` make at most one answer of it. -/
theorem serves_binding {make : Environment → Bool × Environment} {frame? : Option Frame}
    (hc : s.env.Compact) (hbinds : Binds own s.env (make s.env).2)
    (hframe : Follows own (make s.env) frame?) :
    Serves halts top own frame?.toList (binding make) s := by
  intro spill k hown hk
  let t : State σ := { s with env := (make s.env).2 }
  have hgrown : Grown top own s.env t.env := hbinds.grown hc top
  rw [hframe]
  cases hmade : (make s.env).1 with
  | false =>
    have heq : binding make k s = (.more, t.mapEnv (·.rollback s.env.mark)) := by
      simp [binding, hmade, t]
    simp only [Tidy, heq]
    exact ⟨hbinds.rollback_eq hc, .none _⟩
  | true =>
    have htidy := hk t hgrown
    have hcall : Delivered halts (Grown top own s.env) own k [t.env.frame own] t.memory (k t).1
        (k t).2.memory := .call hgrown
    cases hkt : k t with
    | mk reply t' =>
      rw [Tidy, hkt] at htidy
      rw [hkt] at hcall
      have hback (heq : t'.env = t.env) :
          (t'.mapEnv (·.rollback s.env.mark)).env = s.env := by
        show t'.env.rollback s.env.mark = s.env
        rw [heq]
        exact hbinds.rollback_eq hc
      cases reply with
      | fail e =>
        have heq : binding make k s = (.fail e, t') := by simp [binding, hmade, t, hkt]
        simp only [Tidy, heq]
        exact ⟨(Spilled.of_binds hown hbinds).trans htidy, hcall⟩
      | stop =>
        have heq : binding make k s = (.stop, t'.mapEnv (·.rollback s.env.mark)) := by
          simp [binding, hmade, t, hkt]
        simp only [Tidy, heq]
        exact ⟨hback htidy, hcall⟩
      | more =>
        have heq : binding make k s = (.more, t'.mapEnv (·.rollback s.env.mark)) := by
          simp [binding, hmade, t, hkt]
        simp only [Tidy, heq]
        exact ⟨hback htidy, hcall⟩

end Parts

end TaskNetwork.Solver
