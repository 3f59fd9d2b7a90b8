import TaskNetwork.Proofs.Environment.Undo
import Mathlib.Data.List.Nodup

/-! Rolling back to a mark. Undoing a change touches one frame only, so changes that go with their
frames leave the undoing of the others as it was. What happened since a mark can therefore be taken
back exactly, also where frames were dropped and inner marks became stale in between. -/

namespace TaskNetwork

namespace Assignment

variable {κ α : Type} [DecidableEq κ]

theorem put_filter {keep : κ → Bool} {key : κ} (h : keep key = true) (a : α)
    (as : Assignment κ α) :
    (put key a as).filter (fun p => keep p.1) = put key a (as.filter fun p => keep p.1) := by
  fun_induction put key a as with
  | case1 => simp [put, h]
  | case2 => simp [put, h]
  | case3 k b rest hne ih => cases hk : keep k <;> simp [put, hk, hne, ih]

theorem erase_filter (keep : κ → Bool) (key : κ) (as : Assignment κ α) :
    (erase key as).filter (fun p => keep p.1) = erase key (as.filter fun p => keep p.1) := by
  simp only [erase, List.filter_filter, Bool.and_comm]

/-- What is erased at a key that a filter refuses plays no part behind the filter. -/
theorem filter_erase {keep : κ → Bool} {key : κ} (h : keep key = false) (as : Assignment κ α) :
    (erase key as).filter (fun p => keep p.1) = as.filter fun p => keep p.1 := by
  rw [erase_filter, erase, List.filter_eq_self]
  rintro p hp
  have hkept := (List.mem_filter.mp hp).2
  have hne : p.1 ≠ key := by
    rintro rfl
    rw [h] at hkept
    cases hkept
  simpa using hne

theorem keys_put (key : κ) (a : α) (as : Assignment κ α) :
    (put key a as).map (·.1) =
      if key ∈ as.map (·.1) then as.map (·.1) else as.map (·.1) ++ [key] := by
  fun_induction put key a as with
  | case1 => simp
  | case2 => simp
  | case3 k b rest hne ih =>
    have hne' : key ≠ k := Ne.symm hne
    by_cases hmem : key ∈ rest.map (·.1)
    · rw [List.map_cons, ih, if_pos hmem, if_pos (by simp [hmem])]; rfl
    · rw [List.map_cons, ih, if_neg hmem, if_neg (by simpa [hne'] using hmem)]
      rfl

end Assignment

namespace Environment

/-- No frame has a variable twice. -/
theorem kept_nodup : Kept fun f => (f.map (·.1)).Nodup where
  put name v h := by
    rw [Assignment.keys_put]
    split
    · next hname => exact h.resolve_left (by rintro rfl; cases hname)
    · next hname =>
      have hnodup : (_ : List Symbol).Nodup := h.elim (by rintro rfl; exact List.nodup_nil) id
      exact List.concat_eq_append ▸ hnodup.concat hname
  erase _ h _ := h.sublist (List.filter_sublist.map _)

section Undoing

variable (keep : Path → Bool) (frames : Assignment Path Frame)

/-- Undoing a change shows only in the frame at its path. -/
theorem undo_filter (change : Change) :
    (undo frames change).filter (fun p => keep p.1) =
      if keep change.path then undo (frames.filter fun p => keep p.1) change
      else frames.filter fun p => keep p.1 := by
  cases hkeep : keep change.path with
  | true =>
    have hget : Assignment.get? change.path (frames.filter fun p => keep p.1) =
        frames.get? change.path := by
      rw [Assignment.get?_filter, hkeep, if_pos rfl]
    unfold undo
    rw [hget]
    cases frames.get? change.path with
    | none => rfl
    | some frame =>
      cases change.previous with
      | some v =>
        dsimp only
        split
        · exact Assignment.put_filter hkeep _ _
        · rfl
      | none =>
        dsimp only
        split
        · exact Assignment.erase_filter keep _ _
        · exact Assignment.put_filter hkeep _ _
  | false =>
    unfold undo
    cases frames.get? change.path with
    | none => rfl
    | some frame =>
      cases change.previous with
      | some v =>
        dsimp only
        split
        · exact Assignment.filter_put keep hkeep _ _
        · rfl
      | none =>
        dsimp only
        split
        · exact Assignment.filter_erase hkeep _
        · exact Assignment.filter_put keep hkeep _ _

theorem foldl_undo_filter (changes : List Change) :
    (changes.foldl undo frames).filter (fun p => keep p.1) =
      (changes.filter fun change => keep change.path).foldl undo
        (frames.filter fun p => keep p.1) := by
  induction changes generalizing frames with
  | nil => rfl
  | cons change rest ih =>
    rw [List.foldl_cons, ih, undo_filter, List.filter_cons]
    split <;> rfl

end Undoing

/-- Nothing is bound at or below `path`, and nothing was. -/
structure Untouched (path : Path) (env : Environment) : Prop where
  frames : ∀ p ∈ env.frames, p.1.isWithin path = false
  trail : ∀ change ∈ env.trail, change.path.isWithin path = false

/-- What operations since `start` make, and the marks that are taken meanwhile. A rollback goes to
one of these marks, and frames are dropped only at or below paths that `start` had not touched.
Reading a variable and copying a frame change nothing and are no steps. -/
inductive Since (start : Environment) : List Nat → Environment → Prop
  | here : Since start [] start
  | mark {marks : List Nat} {env : Environment} :
      Since start marks env → Since start (env.mark :: marks) env
  | bind {marks : List Nat} {env : Environment} (path : Path) (name : Symbol) (v : Value) :
      Since start marks env → Since start marks (env.bind path name v)
  | setCursor {marks : List Nat} {env : Environment} (path : Path) (i : Nat) :
      Since start marks env → Since start marks (env.setCursor path i)
  | advance {marks : List Nat} {env : Environment} (path : Path) :
      Since start marks env → Since start marks (env.advance path)
  | dropCursor {marks : List Nat} {env : Environment} (path : Path) :
      Since start marks env → Since start marks (env.dropCursor path)
  | dropFrames {marks : List Nat} {env : Environment} {path : Path} :
      start.Untouched path → Since start marks env → Since start marks (env.dropFrames path)
  | rollback {marks : List Nat} {env : Environment} {mark : Nat} :
      mark ∈ marks → Since start marks env → Since start marks (env.rollback mark)

/-- The changes on top of the trail of `start` lead back to the frames of `start`. -/
structure Traces (start env : Environment) (recent : List Change) : Prop where
  trail : env.trail = recent ++ start.trail
  frames : recent.foldl undo env.frames = start.frames

namespace Traces

variable {start env : Environment} {recent : List Change}

theorem mark_le (h : Traces start env recent) : start.mark ≤ env.mark := by
  rw [mark, mark, h.trail, List.length_append]
  exact Nat.le_add_left _ _

theorem bind (h : Traces start env recent) (hc : env.Compact) (path : Path) (name : Symbol)
    (v : Value) :
    Traces start (env.bind path name v) (⟨path, name, (env.frame path).get? name⟩ :: recent) where
  trail := congrArg (_ :: ·) h.trail
  frames := by rw [List.foldl_cons, undo_bind hc, h.frames]

theorem dropFrames (h : Traces start env recent) {path : Path} (hpath : start.Untouched path) :
    Traces start (env.dropFrames path)
      (recent.filter fun change => !change.path.isWithin path) where
  trail := by
    have hstart : start.trail.filter (fun change => !change.path.isWithin path) = start.trail :=
      List.filter_eq_self.mpr fun change hchange => by simp [hpath.trail change hchange]
    calc (env.dropFrames path).trail
      _ = env.trail.filter fun change => !change.path.isWithin path := rfl
      _ = _ ++ start.trail := by rw [h.trail, List.filter_append, hstart]
  frames := by
    have hstart : start.frames.filter (fun p => !p.1.isWithin path) = start.frames :=
      List.filter_eq_self.mpr fun p hp => by simp [hpath.frames p hp]
    calc (recent.filter fun change => !change.path.isWithin path).foldl undo
          (env.frames.filter fun p => !p.1.isWithin path)
      _ = (recent.foldl undo env.frames).filter fun p => !p.1.isWithin path :=
        (foldl_undo_filter (fun p => !p.isWithin path) env.frames recent).symm
      _ = start.frames := by rw [h.frames, hstart]

/-- A rollback to a mark from later on takes back the newest of the changes. -/
theorem rollback (h : Traces start env recent) {mark : Nat} (hmark : start.mark ≤ mark) :
    Traces start (env.rollback mark) (recent.drop (env.trail.length - mark)) := by
  have hcount : env.trail.length - mark ≤ recent.length := by
    rw [h.trail, List.length_append]
    exact Nat.sub_le_iff_le_add.mpr (Nat.add_le_add_left hmark _)
  generalize hn : env.trail.length - mark = n at hcount ⊢
  refine ⟨?_, ?_⟩
  · show env.trail.drop (env.trail.length - mark) = _
    rw [hn, h.trail, List.drop_append_of_le_length hcount]
  · show (recent.drop n).foldl undo ((env.trail.take (env.trail.length - mark)).foldl undo _) = _
    rw [hn, h.trail, List.take_append_of_le_length hcount, ← List.foldl_append,
      List.take_append_drop, h.frames]

/-- A rollback to the mark of `start` takes back all of them. -/
theorem rollback_eq (h : Traces start env recent) :
    env.rollback start.mark = { start with cursors := env.cursors } := by
  have hcount : env.trail.length - start.mark = recent.length := by
    rw [h.trail, List.length_append]
    exact Nat.add_sub_cancel _ _
  have hback := h.rollback (Nat.le_refl _)
  rw [hcount, List.drop_length] at hback
  have htrail : (env.rollback start.mark).trail = start.trail := hback.trail
  have hframes : (env.rollback start.mark).frames = start.frames := hback.frames
  rw [← htrail, ← hframes]
  rfl

end Traces

theorem Since.reachable {start env : Environment} {marks : List Nat} (h : Since start marks env)
    (hstart : start.Reachable) : env.Reachable := by
  induction h with
  | here => exact hstart
  | mark _ ih => exact ih
  | bind path name v _ ih => exact ih.bind path name v
  | setCursor path i _ ih => exact ih.setCursor path i
  | advance path _ ih => exact ih.setCursor path _
  | dropCursor path _ ih => exact ih.dropCursor path
  | dropFrames _ _ ih => exact ih.dropFrames _
  | rollback _ _ ih => exact ih.rollback _

theorem Since.traces {start env : Environment} {marks : List Nat} (h : Since start marks env)
    (hstart : start.Reachable) :
    (∃ recent, Traces start env recent) ∧ ∀ mark ∈ marks, start.mark ≤ mark := by
  induction h with
  | here => exact ⟨⟨[], rfl, rfl⟩, by simp⟩
  | mark _ ih =>
    obtain ⟨⟨recent, hrecent⟩, hmarks⟩ := ih
    exact ⟨⟨recent, hrecent⟩, List.forall_mem_cons.mpr ⟨hrecent.mark_le, hmarks⟩⟩
  | bind path name v h ih =>
    obtain ⟨⟨recent, hrecent⟩, hmarks⟩ := ih
    exact ⟨⟨_, hrecent.bind (h.reachable hstart).compact path name v⟩, hmarks⟩
  | setCursor path i _ ih | advance path _ ih | dropCursor path _ ih =>
    obtain ⟨⟨recent, hrecent⟩, hmarks⟩ := ih
    exact ⟨⟨recent, hrecent.trail, hrecent.frames⟩, hmarks⟩
  | dropFrames hpath _ ih =>
    obtain ⟨⟨recent, hrecent⟩, hmarks⟩ := ih
    exact ⟨⟨_, hrecent.dropFrames hpath⟩, hmarks⟩
  | rollback hmark _ ih =>
    obtain ⟨⟨recent, hrecent⟩, hmarks⟩ := ih
    exact ⟨⟨_, hrecent.rollback (hmarks _ hmark)⟩, hmarks⟩

/-- The frames of an environment have bindings, and no variable twice. A rollback to its mark brings
back its frames and its trail after whatever operations, and keeps the cursors that they left. -/
theorem rollback_since {start : Environment} (h : start.Reachable) :
    (∀ p ∈ start.frames, p.2 ≠ [] ∧ (p.2.map (·.1)).Nodup) ∧
      ∀ {marks : List Nat} {env : Environment}, Since start marks env →
        env.rollback start.mark = { start with cursors := env.cursors } := by
  refine ⟨fun p hp => ⟨h.compact p hp, kept_nodup.of_reachable h p hp⟩, fun hsince => ?_⟩
  obtain ⟨⟨recent, hrecent⟩, -⟩ := hsince.traces h
  exact hrecent.rollback_eq

/-- Two variables are bound anew, one of them for the second time, and a mark is taken. Then an
inner frame goes, so that the mark lies behind the end of the trail, and the rollback to it comes
when the trail has grown again. -/
theorem rollback_since_stale :
    let outer := Path.ofTask 0
    let inner := outer.child (.node 7)
    let start := Environment.empty.bind outer ⟨10⟩ (.bool true)
    let marked := ((start.bind outer ⟨10⟩ (.bool false)).bind inner ⟨11⟩ (.bool true)).bind
      outer ⟨12⟩ (.bool true)
    let grown := (((marked.dropFrames inner).setCursor inner 3).bind outer ⟨13⟩ .unbound).bind
      outer ⟨14⟩ (.bool true)
    let env := grown.rollback marked.mark
    start.Reachable ∧ Since start [marked.mark] env ∧ env.trail.length = 4 ∧
      env.rollback start.mark = { start with cursors := env.cursors } := by
  intro outer inner start marked grown env
  have hstart : start.Reachable := .bind outer ⟨10⟩ (.bool true) .empty
  have huntouched : start.Untouched inner := by constructor <;> decide
  have hmarked : Since start [marked.mark] marked :=
    .mark (.bind outer ⟨12⟩ (.bool true) (.bind inner ⟨11⟩ (.bool true)
      (.bind outer ⟨10⟩ (.bool false) .here)))
  have hgrown : Since start [marked.mark] grown :=
    .bind outer ⟨14⟩ (.bool true) (.bind outer ⟨13⟩ .unbound
      (.setCursor inner 3 (.dropFrames huntouched hmarked)))
  have hsince : Since start [marked.mark] env := .rollback List.mem_cons_self hgrown
  exact ⟨hstart, hsince, rfl, (rollback_since hstart).2 hsince⟩

end Environment

end TaskNetwork
