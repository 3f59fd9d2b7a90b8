import TaskNetwork.Domain.Basic

/-! Paths of active nodes. A search enters and leaves nodes at the inner end of a path, so the
innermost one stands first. The depth of a path is kept with it, by which most paths are told apart
without a look at their nodes. -/

namespace TaskNetwork

/-- One step of a path: a task, numbered within a planning call, or a node of the domain. -/
inductive Segment where
  | task (scope : Nat)
  | node (id : NodeId)
deriving DecidableEq

/-- The active nodes, innermost first, and their number. -/
structure Path where
  depth : Nat
  segments : List Segment
  length_segments : segments.length = depth

namespace Path

theorem eq_of_segments_eq {p q : Path} (h : p.segments = q.segments) : p = q := by
  obtain ⟨_, _, rfl⟩ := p
  obtain ⟨_, _, rfl⟩ := q
  subst h
  rfl

/-- A path is known again without a look at its nodes, and paths of different depths differ. -/
instance : DecidableEq Path := fun p q =>
  withPtrEqDecEq p q fun _ =>
    if hd : p.depth = q.depth then
      if hs : p.segments = q.segments then .isTrue (eq_of_segments_eq hs)
      else .isFalse fun h => hs (congrArg segments h)
    else .isFalse fun h => hd (congrArg depth h)

def empty : Path := ⟨0, [], rfl⟩

instance : Inhabited Path := ⟨empty⟩

def child (p : Path) (s : Segment) : Path :=
  ⟨p.depth + 1, s :: p.segments, congrArg (· + 1) p.length_segments⟩

/-- The path of a task, which is active at the root. -/
def ofTask (scope : Nat) : Path := empty.child (.task scope)

def contains (p : Path) (s : Segment) : Bool := p.segments.contains s

/-- Whether `p` is `top` or lies below it. -/
def isWithin (p top : Path) : Bool :=
  decide (top.depth ≤ p.depth) && p.segments.drop (p.depth - top.depth) == top.segments

theorem isWithin_iff {p top : Path} : p.isWithin top ↔ top.segments <:+ p.segments := by
  rw [isWithin, ← p.length_segments, ← top.length_segments, List.suffix_iff_eq_drop]
  simp only [Bool.and_eq_true, decide_eq_true_eq, beq_iff_eq]
  constructor
  · exact fun h => h.2.symm
  · intro h
    refine ⟨?_, h.symm⟩
    rw [h, List.length_drop]
    omega

end Path

end TaskNetwork
