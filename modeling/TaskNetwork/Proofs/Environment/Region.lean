import TaskNetwork.Proofs.Environment.Undo

/-! The part of an environment at or below a path. A node that becomes active finds this part clear
and uses nothing else but the frame that it binds in, so leaving the node brings back what was
there before. -/

namespace TaskNetwork

namespace Path

variable {p q top : Path} {s t : Segment}

theorem isWithin_refl (p : Path) : p.isWithin p := isWithin_iff.mpr (List.suffix_refl _)

theorem isWithin_trans (h : p.isWithin q) (h' : q.isWithin top) : p.isWithin top :=
  isWithin_iff.mpr ((isWithin_iff.mp h').trans (isWithin_iff.mp h))

theorem child_isWithin (p : Path) (s : Segment) : (p.child s).isWithin p :=
  isWithin_iff.mpr (List.suffix_cons _ _)

/-- Nothing lies below two children of one path. -/
theorem eq_of_isWithin_child (hs : p.isWithin (top.child s)) (ht : p.isWithin (top.child t)) :
    s = t := by
  have hs' : s :: top.segments <:+ p.segments := isWithin_iff.mp hs
  have ht' : t :: top.segments <:+ p.segments := isWithin_iff.mp ht
  have hsuffix := List.suffix_of_suffix_length_le hs' ht' (by simp)
  exact (List.cons.inj (hsuffix.eq_of_length (by simp))).1

/-- What `p` lies below does not lie below a child of `p`. -/
theorem not_isWithin_child (h : p.isWithin top) (s : Segment) : top.isWithin (p.child s) = false := by
  rw [← Bool.not_eq_true, isWithin_iff]
  intro h'
  have hle := h'.length_le
  have hle' := (isWithin_iff.mp h).length_le
  simp only [child, List.length_cons] at hle
  omega

theorem child_ne_of_isWithin (h : p.isWithin top) (s : Segment) : p.child s ≠ top := by
  intro heq
  have hself := not_isWithin_child h s
  rw [heq, isWithin_refl] at hself
  cases hself

end Path

namespace Environment

theorem get?_frames_leave (env : Environment) (top p : Path) :
    (env.leave top).frames.get? p = if p.isWithin top then none else env.frames.get? p := by
  have h := Assignment.get?_filter (fun q : Path => !q.isWithin top) p env.frames
  cases hp : p.isWithin top <;> simpa [leave, dropCursor, dropFrames, hp] using h

theorem value_congr {env env' : Environment} {p : Path} (h : env'.frames.get? p = env.frames.get? p)
    (name : Symbol) : env'.value p name = env.value p name := by
  rw [value, value, frame, frame, h]

theorem frame_congr {env env' : Environment} {p : Path} (h : env'.frames.get? p = env.frames.get? p) :
    env'.frame p = env.frame p := by
  rw [frame, frame, h]

/-- Nothing is kept at or below `top`. -/
structure Clear (top : Path) (env : Environment) : Prop where
  frames : ∀ p : Path, p.isWithin top → env.frames.get? p = none
  cursors : ∀ p : Path, p.isWithin top → env.cursors.get? p = none
  trail : ∀ change ∈ env.trail, change.path.isWithin top = false

theorem clear_empty (top : Path) : Clear top {} :=
  ⟨fun _ _ => rfl, fun _ _ => rfl, by simp⟩

namespace Clear

variable {top : Path} {env : Environment}

theorem below (h : Clear top env) {p : Path} (hp : p.isWithin top) : Clear p env where
  frames q hq := h.frames q (Path.isWithin_trans hq hp)
  cursors q hq := h.cursors q (Path.isWithin_trans hq hp)
  trail change hchange := by
    rw [← Bool.not_eq_true]
    intro hq
    have hout := h.trail change hchange
    rw [Path.isWithin_trans hq hp] at hout
    cases hout

theorem child (h : Clear top env) (s : Segment) : Clear (top.child s) env :=
  h.below (Path.child_isWithin top s)

theorem frame_eq_nil (h : Clear top env) : env.frame top = [] := by
  simp [frame, h.frames top (Path.isWithin_refl top)]

theorem dropFrames_eq (h : Clear top env) : env.dropFrames top = env := by
  have hframes : (env.frames.filter fun p => !p.1.isWithin top) = env.frames := by
    rw [List.filter_eq_self]
    intro p hp
    cases hin : p.1.isWithin top with
    | false => rfl
    | true => exact absurd rfl (Assignment.get?_eq_none_iff.mp (h.frames p.1 hin) p hp)
  have htrail : (env.trail.filter fun change => !change.path.isWithin top) = env.trail := by
    rw [List.filter_eq_self]
    intro change hchange
    simpa using h.trail change hchange
  show { env with frames := _, trail := _ } = env
  rw [hframes, htrail]

theorem leave_eq (h : Clear top env) : env.leave top = env := by
  rw [leave, h.dropFrames_eq, dropCursor,
    Assignment.erase_of_get?_eq_none (h.cursors top (Path.isWithin_refl top))]

end Clear

/-- `after` is `before` after work at or below `top` and bindings in the frame at `own`: what lies
elsewhere is as it was. -/
structure Grown (top own : Path) (before after : Environment) : Prop where
  compact : after.Compact
  frames : ∀ p : Path, p.isWithin top = false → p ≠ own →
    after.frames.get? p = before.frames.get? p
  cursors : ∀ p : Path, p.isWithin top = false → after.cursors.get? p = before.cursors.get? p
  trail : ∀ change ∈ after.trail,
    change ∈ before.trail ∨ change.path.isWithin top ∨ change.path = own

namespace Grown

variable {top own : Path} {before after : Environment}

theorem refl (h : before.Compact) : Grown top own before before :=
  ⟨h, fun _ _ _ => rfl, fun _ _ => rfl, fun _ h => .inl h⟩

theorem trans {last : Environment} (h : Grown top own before after)
    (h' : Grown top own after last) : Grown top own before last where
  compact := h'.compact
  frames p hp hne := (h'.frames p hp hne).trans (h.frames p hp hne)
  cursors p hp := (h'.cursors p hp).trans (h.cursors p hp)
  trail change hchange := by
    rcases h'.trail change hchange with hold | hnew
    · exact h.trail change hold
    · exact .inr hnew

/-- Work below `top` that binds in a frame there, or in the frame at `own`, is work below `top`. -/
theorem widen {inner own' : Path} (h : Grown inner own' before after) (hin : inner.isWithin top)
    (hown : own' = own ∨ own'.isWithin top) : Grown top own before after where
  compact := h.compact
  frames p hp hne := by
    refine h.frames p ?_ ?_
    · rw [← Bool.not_eq_true] at hp ⊢
      exact fun hp' => hp (Path.isWithin_trans hp' hin)
    · rintro rfl
      rcases hown with rfl | hown
      · exact hne rfl
      · rw [hown] at hp; cases hp
  cursors p hp := by
    refine h.cursors p ?_
    rw [← Bool.not_eq_true] at hp ⊢
    exact fun hp' => hp (Path.isWithin_trans hp' hin)
  trail change hchange := by
    rcases h.trail change hchange with hold | hnew | rfl
    · exact .inl hold
    · exact .inr (.inl (Path.isWithin_trans hnew hin))
    · rcases hown with rfl | hown
      · exact .inr (.inr rfl)
      · exact .inr (.inl hown)

theorem clear (h : Grown top own before after) {p : Path} (hp : Clear p before)
    (hapart : ∀ q : Path, q.isWithin p → q.isWithin top = false)
    (hown : own.isWithin p = false) : Clear p after where
  frames q hq := by
    rw [h.frames q (hapart q hq) (by rintro rfl; rw [hown] at hq; cases hq)]
    exact hp.frames q hq
  cursors q hq := by
    rw [h.cursors q (hapart q hq)]
    exact hp.cursors q hq
  trail change hchange := by
    rcases h.trail change hchange with hold | hnew | hnew
    · exact hp.trail change hold
    · rw [← Bool.not_eq_true]
      intro hq
      rw [hapart _ hq] at hnew
      cases hnew
    · rwa [hnew]

end Grown

/-- `after` is `before` but for the cursor at `top`, which stands at `i`. -/
structure CursorAt (top : Path) (i : Nat) (before after : Environment) : Prop where
  dropCursor_eq : after.dropCursor top = before
  cursor_eq : after.cursor top = i

namespace CursorAt

variable {top : Path} {i : Nat} {before after : Environment}

theorem start (h : Clear top before) : CursorAt top 0 before before where
  dropCursor_eq := by
    rw [dropCursor, Assignment.erase_of_get?_eq_none (h.cursors top (Path.isWithin_refl top))]
  cursor_eq := by simp [cursor, h.cursors top (Path.isWithin_refl top)]

theorem setCursor (h : Clear top before) (i : Nat) :
    CursorAt top i before (before.setCursor top i) where
  dropCursor_eq := by
    rw [dropCursor, Environment.setCursor,
      Assignment.erase_put (h.cursors top (Path.isWithin_refl top))]
  cursor_eq := cursor_setCursor before top i

theorem erase_put_eq_erase (as : Assignment Path Nat) (i : Nat) :
    (as.put top i).erase top = as.erase top :=
  Assignment.filter_put (fun p => decide (p ≠ top)) (by simp) i as

theorem advance (h : CursorAt top i before after) :
    CursorAt top (i + 1) before (after.advance top) where
  dropCursor_eq := by
    rw [Environment.advance, Environment.setCursor, dropCursor, erase_put_eq_erase]
    exact h.dropCursor_eq
  cursor_eq := by rw [Environment.advance, cursor_setCursor, h.cursor_eq]

theorem frames_eq (h : CursorAt top i before after) : after.frames = before.frames := by
  rw [← h.dropCursor_eq]
  rfl

theorem trail_eq (h : CursorAt top i before after) : after.trail = before.trail := by
  rw [← h.dropCursor_eq]
  rfl

theorem get?_cursors (h : CursorAt top i before after) {p : Path} (hp : p ≠ top) :
    after.cursors.get? p = before.cursors.get? p := by
  rw [← h.dropCursor_eq]
  exact (Assignment.get?_erase_of_ne hp.symm after.cursors).symm

theorem compact (h : CursorAt top i before after) (hc : before.Compact) : after.Compact := by
  rw [Compact, h.frames_eq]
  exact hc

theorem grown (h : CursorAt top i before after) (hc : before.Compact) (own : Path) :
    Grown top own before after where
  compact := h.compact hc
  frames p _ _ := by rw [h.frames_eq]
  cursors p hp := by
    refine h.get?_cursors ?_
    rintro rfl
    rw [Path.isWithin_refl] at hp
    cases hp
  trail change hchange := .inl (h.trail_eq ▸ hchange)

theorem clear_child (h : CursorAt top i before after) (hclear : Clear top before) (s : Segment) :
    Clear (top.child s) after where
  frames p hp := by
    rw [h.frames_eq]
    exact (hclear.child s).frames p hp
  cursors p hp := by
    rw [h.get?_cursors]
    · exact (hclear.child s).cursors p hp
    · rintro rfl
      have hself := Path.not_isWithin_child (Path.isWithin_refl p) s
      rw [hp] at hself
      cases hself
  trail := by
    rw [h.trail_eq]
    exact (hclear.child s).trail

theorem leave_eq (h : CursorAt top i before after) (hclear : Clear top before) :
    after.leave top = before := by
  have hsplit : after.leave top = (after.dropCursor top).leave top := by
    simp [leave, dropCursor, dropFrames, Assignment.erase]
  rw [hsplit, h.dropCursor_eq, hclear.leave_eq]

end CursorAt

namespace Binds

variable {path top : Path} {before after : Environment}

theorem get?_frames (h : Binds path before after) {p : Path} (hp : p ≠ path) :
    after.frames.get? p = before.frames.get? p := by
  induction h with
  | refl => rfl
  | bind _ _ _ _ ih => exact (Assignment.get?_put_of_ne hp.symm _ _).trans ih

theorem mem_trail (h : Binds path before after) {change : Change} (hchange : change ∈ after.trail) :
    change ∈ before.trail ∨ change.path = path := by
  induction h with
  | refl => exact .inl hchange
  | bind name v _ _ ih =>
    rcases List.mem_cons.mp hchange with rfl | hold
    · exact .inr rfl
    · exact ih hold

theorem grown (h : Binds path before after) (hc : before.Compact) (top : Path) :
    Grown top path before after where
  compact := h.compact hc
  frames _ _ hne := h.get?_frames hne
  cursors p _ := by rw [h.cursors_eq]
  trail change hchange := by
    rcases h.mem_trail hchange with hold | hnew
    · exact .inl hold
    · exact .inr (.inr hnew)

theorem clear_child (h : Binds path before after) (hclear : Clear path before) (s : Segment) :
    Clear (path.child s) after where
  frames p hp := by
    rw [h.get?_frames]
    · exact (hclear.child s).frames p hp
    · rintro rfl
      have hself := Path.not_isWithin_child (Path.isWithin_refl p) s
      rw [hp] at hself
      cases hself
  cursors := by
    rw [h.cursors_eq]
    exact (hclear.child s).cursors
  trail change hchange := by
    rcases h.mem_trail hchange with hold | rfl
    · exact (hclear.child s).trail change hold
    · exact Path.not_isWithin_child (Path.isWithin_refl _) s

/-- Leaving a node drops what was bound in frames at or below it. -/
theorem leave_eq (h : Binds path before after) (hin : path.isWithin top) :
    after.leave top = before.leave top := by
  induction h with
  | refl => rfl
  | @bind env name v _ _ ih =>
    rw [← ih]
    have hframes : (env.bind path name v).dropFrames top = env.dropFrames top := by
      have hrefused : (!path.isWithin top) = false := by simp [hin]
      have hput := Assignment.filter_put (fun p : Path => !p.isWithin top) hrefused
        ((env.frame path).put name v) env.frames
      simp only [dropFrames, Environment.bind]
      rw [hput, List.filter_cons_of_neg (by simp [hin])]
    rw [leave, hframes, leave]

theorem leave_of_clear (h : Binds path before after) (hclear : Clear path before) :
    after.leave path = before :=
  (h.leave_eq (Path.isWithin_refl path)).trans hclear.leave_eq

/-- Work below a node in its own frame, after bindings there, is work below the node for any frame
further out. -/
theorem grown_inner {last : Environment} {own : Path} (h : Binds path before after)
    (hc : before.Compact) {s : Segment} (hinner : Grown (path.child s) path after last) :
    Grown path own before last :=
  ((h.grown hc path).widen (Path.isWithin_refl path) (.inr (Path.isWithin_refl path))).trans
    (hinner.widen (Path.child_isWithin path s) (.inr (Path.isWithin_refl path)))

theorem value_eq (h : Binds path before after) {p : Path} {name : Symbol}
    (hbound : (before.value p name).isBound) : after.value p name = before.value p name := by
  induction h with
  | refl => rfl
  | @bind env name' v _ hfree ih =>
    by_cases hp : p = path
    · subst hp
      have hne : name' ≠ name := by
        rintro rfl
        rw [ih, hbound] at hfree
        cases hfree
      rw [← ih]
      simp [value, frame, Environment.bind, Frame.value, Assignment.get?_put_self,
        Assignment.get?_put_of_ne hne]
    · rw [← ih]
      exact value_congr (Assignment.get?_put_of_ne (Ne.symm hp) _ _) name

end Binds

/-- What a search may leave behind that ends in an error: new bindings in the frames that `spill`
names, and none of them in place of another value. -/
structure Spilled (spill : Path → Prop) (before after : Environment) : Prop where
  cursors : after.cursors = before.cursors
  frames : ∀ p : Path, ¬spill p → after.frames.get? p = before.frames.get? p
  values : ∀ (p : Path) (name : Symbol), (before.value p name).isBound →
    after.value p name = before.value p name

namespace Spilled

variable {spill : Path → Prop} {before after : Environment}

theorem refl (spill : Path → Prop) (env : Environment) : Spilled spill env env :=
  ⟨rfl, fun _ _ => rfl, fun _ _ _ => rfl⟩

theorem of_binds {path : Path} (hpath : spill path) (h : Binds path before after) :
    Spilled spill before after where
  cursors := h.cursors_eq
  frames p hp := h.get?_frames (by rintro rfl; exact hp hpath)
  values _ _ hbound := h.value_eq hbound

theorem trans {last : Environment} (h : Spilled spill before after)
    (h' : Spilled spill after last) : Spilled spill before last where
  cursors := h'.cursors.trans h.cursors
  frames p hp := (h'.frames p hp).trans (h.frames p hp)
  values p name hbound := by
    have heq := h.values p name hbound
    rw [h'.values p name (by rw [heq]; exact hbound), heq]

theorem mono {spill' : Path → Prop} (h : Spilled spill before after)
    (hle : ∀ p, spill p → spill' p) : Spilled spill' before after where
  cursors := h.cursors
  frames p hp := h.frames p fun hs => hp (hle p hs)
  values := h.values

/-- What was left in frames at or below a node goes when the node is left. -/
theorem leave {top : Path} {i : Nat} {start : Environment} (hclear : Clear top start)
    (hcursor : CursorAt top i start before)
    (h : Spilled (fun p => spill p ∨ p.isWithin top) before after) :
    Spilled spill start (after.leave top) where
  cursors := by
    show after.cursors.erase top = start.cursors
    rw [h.cursors]
    exact congrArg Environment.cursors hcursor.dropCursor_eq
  frames p hp := by
    rw [get?_frames_leave]
    cases hin : p.isWithin top with
    | true => exact (hclear.frames p hin).symm
    | false =>
      have hkeep := h.frames p (by simp [hp, hin])
      rw [hcursor.frames_eq] at hkeep
      simpa using hkeep
  values p name hbound := by
    have hstart : before.value p name = start.value p name :=
      value_congr (by rw [hcursor.frames_eq]) name
    cases hin : p.isWithin top with
    | true =>
      rw [value, frame, hclear.frames p hin] at hbound
      cases hbound
    | false =>
      have hleave : (after.leave top).value p name = after.value p name :=
        value_congr (by rw [get?_frames_leave, hin]; rfl) name
      rw [hleave, h.values p name (by rw [hstart]; exact hbound), hstart]

end Spilled

end Environment

end TaskNetwork
