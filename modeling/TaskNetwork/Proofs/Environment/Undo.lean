import TaskNetwork.Solver.Term

/-! Bindings and their undoing. An environment that its own operations can reach keeps no frame
without bindings. From such an environment, bindings that are made in one frame are taken back
without a trace by a rollback to the mark before them. -/

namespace TaskNetwork

namespace Assignment

variable {κ α : Type} [DecidableEq κ]

theorem erase_of_get?_eq_none {key : κ} {as : Assignment κ α} (h : get? key as = none) :
    erase key as = as := by
  rw [erase, List.filter_eq_self]
  simpa using get?_eq_none_iff.mp h

/-- A key that was new is put last, so erasing it leaves what there was before. -/
theorem erase_put {key : κ} {as : Assignment κ α} (h : get? key as = none) (a : α) :
    erase key (put key a as) = as := by
  induction as with
  | nil => simp [put, erase]
  | cons p rest ih =>
    have hne : p.1 ≠ key := get?_eq_none_iff.mp h p (by simp)
    have hrest : get? key rest = none := by simpa [get?, hne] using h
    simpa [put, hne, erase] using ih hrest

theorem put_put (key : κ) (a b : α) (as : Assignment κ α) :
    put key b (put key a as) = put key b as := by
  fun_induction put key a as <;> simp_all [put]

theorem put_of_get?_eq_some {key : κ} {a : α} {as : Assignment κ α} (h : get? key as = some a) :
    put key a as = as := by
  fun_induction put key a as <;> simp_all [get?]

theorem put_ne_nil (key : κ) (a : α) (as : Assignment κ α) : put key a as ≠ [] := by
  fun_cases put key a as <;> simp

theorem eq_or_mem_of_mem_put {key : κ} {a : α} {as : Assignment κ α} {p : κ × α}
    (h : p ∈ put key a as) : p = (key, a) ∨ p ∈ as := by
  fun_induction put key a as <;> grind

/-- What is put at a key that a filter refuses plays no part behind the filter. -/
theorem filter_put (keep : κ → Bool) {key : κ} (h : keep key = false) (a : α)
    (as : Assignment κ α) :
    (put key a as).filter (fun p => keep p.1) = as.filter fun p => keep p.1 := by
  fun_induction put key a as <;> simp_all [List.filter_cons]

theorem get?_filter (keep : κ → Bool) (key : κ) (as : Assignment κ α) :
    get? key (as.filter fun p => keep p.1) = if keep key then get? key as else none := by
  induction as with
  | nil => simp [get?]
  | cons p rest ih => by_cases hp : p.1 = key <;> cases hk : keep p.1 <;> simp_all [get?]

end Assignment

namespace Environment

/-- The environments that the operations on them can make. -/
inductive Reachable : Environment → Prop
  | empty : Reachable {}
  | bind {env : Environment} (path : Path) (name : Symbol) (v : Value) :
      Reachable env → Reachable (env.bind path name v)
  | setCursor {env : Environment} (path : Path) (i : Nat) :
      Reachable env → Reachable (env.setCursor path i)
  | dropCursor {env : Environment} (path : Path) : Reachable env → Reachable (env.dropCursor path)
  | dropFrames {env : Environment} (path : Path) : Reachable env → Reachable (env.dropFrames path)
  | rollback {env : Environment} (mark : Nat) : Reachable env → Reachable (env.rollback mark)

/-- Frames keep a property as they are bound in, the first time included, and as bindings are erased
that are not the last. -/
structure Kept (P : Frame → Prop) : Prop where
  put : ∀ {f : Frame} (name : Symbol) (v : Value), f = [] ∨ P f → P (f.put name v)
  erase : ∀ {f : Frame} (name : Symbol), P f → f.erase name ≠ [] → P (f.erase name)

namespace Kept

variable {P : Frame → Prop}

theorem bind (hP : Kept P) {env : Environment} (h : ∀ p ∈ env.frames, P p.2) (path : Path)
    (name : Symbol) (v : Value) : ∀ p ∈ (env.bind path name v).frames, P p.2 := by
  intro p hp
  rcases Assignment.eq_or_mem_of_mem_put hp with rfl | hp
  · refine hP.put name v ?_
    rw [frame]
    cases hframe : env.frames.get? path with
    | none => exact .inl rfl
    | some f => exact .inr (h _ (Assignment.mem_of_get?_eq_some hframe))
  · exact h p hp

theorem undo (hP : Kept P) {frames : Assignment Path Frame} (h : ∀ p ∈ frames, P p.2)
    (change : Change) : ∀ p ∈ undo frames change, P p.2 := by
  have hput {frame : Frame} (hframe : P frame) : ∀ p ∈ frames.put change.path frame, P p.2 := by
    intro p hp
    rcases Assignment.eq_or_mem_of_mem_put hp with rfl | hp
    · exact hframe
    · exact h p hp
  fun_cases Environment.undo frames change with
  | case1 => exact h
  | case2 frame hframe v =>
    exact hput (hP.put _ v (.inr (h _ (Assignment.mem_of_get?_eq_some hframe))))
  | case3 => exact h
  | case4 => exact fun p hp => h p (List.mem_filter.mp hp).1
  | case5 frame hframe _ frame' hne =>
    have hne' : frame' ≠ [] := by simpa using hne
    exact hput (hP.erase _ (h _ (Assignment.mem_of_get?_eq_some hframe)) hne')

theorem foldl_undo (hP : Kept P) {frames : Assignment Path Frame} (h : ∀ p ∈ frames, P p.2)
    (changes : List Change) : ∀ p ∈ changes.foldl Environment.undo frames, P p.2 := by
  induction changes generalizing frames with
  | nil => exact h
  | cons change rest ih => exact ih (hP.undo h change)

theorem of_reachable (hP : Kept P) {env : Environment} (h : env.Reachable) :
    ∀ p ∈ env.frames, P p.2 := by
  induction h with
  | empty => simp
  | bind path name v _ ih => exact hP.bind ih path name v
  | setCursor _ _ _ ih => exact ih
  | dropCursor _ _ ih => exact ih
  | dropFrames _ _ ih => exact fun p hp => ih p (List.mem_filter.mp hp).1
  | rollback mark _ ih => exact hP.foldl_undo ih _

end Kept

/-- No frame is kept without bindings. -/
def Compact (env : Environment) : Prop := ∀ p ∈ env.frames, p.2 ≠ []

theorem compact_empty : ({} : Environment).Compact := by simp [Compact]

theorem kept_ne_nil : Kept (· ≠ []) :=
  ⟨fun name v _ => Assignment.put_ne_nil name v _, fun _ _ h => h⟩

theorem Compact.bind {env : Environment} (h : env.Compact) (path : Path) (name : Symbol)
    (v : Value) : (env.bind path name v).Compact :=
  kept_ne_nil.bind h path name v

theorem Reachable.compact {env : Environment} (h : env.Reachable) : env.Compact :=
  kept_ne_nil.of_reachable h

/-- The change that a binding notes leads back to the frames before it. -/
theorem undo_bind {env : Environment} (h : env.Compact) (path : Path) (name : Symbol) (v : Value) :
    undo (env.bind path name v).frames ⟨path, name, (env.frame path).get? name⟩ = env.frames := by
  have hget : (env.bind path name v).frames.get? path = some ((env.frame path).put name v) :=
    Assignment.get?_put_self ..
  have hput : (env.bind path name v).frames = env.frames.put path ((env.frame path).put name v) :=
    rfl
  cases hname : (env.frame path).get? name with
  | none =>
    -- A frame that the binding opened goes with it; an older one keeps at least one binding.
    simp only [undo, hget, Assignment.erase_put hname]
    rw [hput]
    cases hframe : env.frames.get? path with
    | none =>
      have hnil : env.frame path = [] := by simp [frame, hframe]
      simpa [hnil] using Assignment.erase_put hframe _
    | some old =>
      have hold : env.frame path = old := by simp [frame, hframe]
      have hne : old.isEmpty = false := by
        simpa using h _ (Assignment.mem_of_get?_eq_some hframe)
      simp only [hold, hne, Bool.false_eq_true, ↓reduceIte]
      rw [Assignment.put_put, Assignment.put_of_get?_eq_some hframe]
  | some previous =>
    have hframe : env.frames.get? path = some (env.frame path) := by
      cases hframe : env.frames.get? path with
      | none => simp [frame, hframe, Assignment.get?] at hname
      | some old => simp [frame, hframe]
    simp only [undo, hget, Assignment.get?_put_self, Option.isSome_some, ↓reduceIte]
    rw [hput, Assignment.put_put, Assignment.put_put, Assignment.put_of_get?_eq_some hname,
      Assignment.put_of_get?_eq_some hframe]

@[simp] theorem rollback_mark (env : Environment) : env.rollback env.mark = env := by
  simp [rollback, mark]

/-- A rollback to an earlier mark takes the last binding back first. -/
theorem rollback_bind {env : Environment} (h : env.Compact) {path : Path} {name : Symbol}
    {v : Value} {mark : Nat} (hmark : mark ≤ env.mark) :
    (env.bind path name v).rollback mark = env.rollback mark := by
  have hlen : (env.bind path name v).trail.length - mark = env.trail.length - mark + 1 := by
    have : (env.bind path name v).trail.length = env.trail.length + 1 := rfl
    have : mark ≤ env.trail.length := hmark
    omega
  simp only [rollback, hlen]
  have htrail : (env.bind path name v).trail =
      ⟨path, name, (env.frame path).get? name⟩ :: env.trail := rfl
  rw [htrail, List.take_succ_cons, List.foldl_cons, List.drop_succ_cons, undo_bind h]
  rfl

/-- `after` comes from `before` by bindings in the frame at `path`, each of a variable that had no
value. -/
inductive Binds (path : Path) (before : Environment) : Environment → Prop
  | refl : Binds path before before
  | bind {env : Environment} (name : Symbol) (v : Value) : Binds path before env →
      (env.value path name).isBound = false → Binds path before (env.bind path name v)

namespace Binds

variable {path : Path} {before after : Environment}

theorem trans {last : Environment} (h : Binds path before after) (h' : Binds path after last) :
    Binds path before last := by
  induction h' with
  | refl => exact h
  | bind name v _ hfree ih => exact ih.bind name v hfree

theorem compact (h : Binds path before after) (hc : before.Compact) : after.Compact := by
  induction h with
  | refl => exact hc
  | bind name v _ _ ih => exact ih.bind path name v

theorem mark_le (h : Binds path before after) : before.mark ≤ after.mark := by
  induction h with
  | refl => exact Nat.le_refl _
  | bind _ _ _ _ ih => exact Nat.le_succ_of_le ih

theorem cursors_eq (h : Binds path before after) : after.cursors = before.cursors := by
  induction h with
  | refl => rfl
  | bind _ _ _ _ ih => exact ih

/-- Bindings are taken back without a trace. -/
theorem rollback_eq (h : Binds path before after) (hc : before.Compact) :
    after.rollback before.mark = before := by
  induction h with
  | refl => exact rollback_mark before
  | bind name v h _ ih => rw [rollback_bind (h.compact hc) h.mark_le, ih]

end Binds

end Environment

namespace Solver

open Environment

theorem binds_unify (path : Path) (name : Symbol) (v : Value) (env : Environment) :
    Binds path env (unify path name v env).2 := by
  unfold unify
  cases h : (env.value path name).isBound
  · simpa [h] using Binds.refl.bind name v h
  · simpa [h] using Binds.refl

theorem binds_eachPair {α β : Type} {path : Path} {treat : α → β → Environment → Bool × Environment}
    (h : ∀ a b env, Binds path env (treat a b env).2) (as : List α) (bs : List β)
    (env : Environment) : Binds path env (eachPair treat as bs env).2 := by
  fun_induction eachPair treat as bs env with
  | case1 a as b bs env env' heq ih =>
    have hstep := h a b env
    rw [heq] at hstep
    exact hstep.trans ih
  | case2 a as b bs env env' heq =>
    have hstep := h a b env
    rwa [heq] at hstep
  | case3 => exact .refl

theorem binds_bindRow (path : Path) (args : List Term) (row : List Value) (env : Environment) :
    Binds path env (bindRow path args row env).2 := by
  refine binds_eachPair (fun t v env => ?_) args row env
  fun_cases bindColumn path t v env <;> first | exact .refl | exact binds_unify ..

theorem binds_enterParams (d : Domain) (path : Path) (params : List Term) (actuals : List Value)
    (env : Environment) : Binds path env (enterParams d path params actuals env).2 := by
  refine binds_eachPair (fun t v env => ?_) params actuals env
  unfold enterParam
  split <;> try split
  all_goals first | exact .refl | exact binds_unify ..

theorem binds_handBack (d : Domain) (callee caller : Path) (param arg : Term) (env : Environment) :
    Binds caller env (handBack d callee caller param arg env).2 := by
  have hdeliver (target : Symbol) (v : Value) : Binds caller env
      (if v.isBound then unify caller target v env else (true, env)).2 := by
    split
    · exact binds_unify ..
    · exact .refl
  unfold handBack
  split <;> try split
  all_goals try split
  all_goals first | exact .refl | exact hdeliver ..

theorem binds_handBackAll (d : Domain) (callee caller : Path) (params args : List Term)
    (env : Environment) : Binds caller env (handBackAll d callee caller params args env).2 :=
  binds_eachPair (binds_handBack d callee caller) params args env

end Solver

end TaskNetwork
