import TaskNetwork.Assignment
import TaskNetwork.Path

/-! Bindings and cursors of a search. Every active node has a path from the task at its root, and
variables live in the frame at the path of the branch or clause that owns them. A node that tries
candidates keeps its cursor at its own path. Bindings are noted on a trail, by which they can be
taken back to an earlier mark. -/

namespace TaskNetwork

/-- Variables and their values in the order of binding. -/
abbrev Frame := Assignment Symbol Value

/-- The value of a variable, `unbound` if it has none. -/
def Frame.value (f : Frame) (name : Symbol) : Value := (f.get? name).getD .unbound

/-- A binding that was made, with the value that it replaced. -/
structure Change where
  path : Path
  name : Symbol
  previous : Option Value

/-- Frames and cursors by path, and the changes to frames, newest first. -/
structure Environment where
  frames : Assignment Path Frame := []
  cursors : Assignment Path Nat := []
  trail : List Change := []

namespace Environment

def empty : Environment := {}

instance : Inhabited Environment := ⟨empty⟩

def frame (env : Environment) (path : Path) : Frame := (env.frames.get? path).getD []

def value (env : Environment) (path : Path) (name : Symbol) : Value := (env.frame path).value name

/-- Binds a variable and notes the value that it had. -/
def bind (env : Environment) (path : Path) (name : Symbol) (v : Value) : Environment :=
  let frame := env.frame path
  { env with
    frames := env.frames.put path (frame.put name v)
    trail := ⟨path, name, frame.get? name⟩ :: env.trail }

theorem value_bind (env : Environment) (path : Path) (name : Symbol) (v : Value) :
    (env.bind path name v).value path name = v := by
  simp [value, bind, frame, Frame.value, Assignment.get?_put_self]

/-- The cursor at a path; it starts at 0. -/
def cursor (env : Environment) (path : Path) : Nat := (env.cursors.get? path).getD 0

def setCursor (env : Environment) (path : Path) (i : Nat) : Environment :=
  { env with cursors := env.cursors.put path i }

theorem cursor_setCursor (env : Environment) (path : Path) (i : Nat) :
    (env.setCursor path i).cursor path = i := by
  simp [cursor, setCursor, Assignment.get?_put_self]

def advance (env : Environment) (path : Path) : Environment :=
  env.setCursor path (env.cursor path + 1)

def dropCursor (env : Environment) (path : Path) : Environment :=
  { env with cursors := env.cursors.erase path }

/-- Drops the frames at or below a path together with their changes. -/
def dropFrames (env : Environment) (path : Path) : Environment :=
  { env with
    frames := env.frames.filter fun (p, _) => !p.isWithin path
    trail := env.trail.filter fun change => !change.path.isWithin path }

def mark (env : Environment) : Nat := env.trail.length

/-- Takes one change back. A frame without bindings does not stay. -/
def undo (frames : Assignment Path Frame) (change : Change) : Assignment Path Frame :=
  match frames.get? change.path with
  | none => frames
  | some frame =>
    match change.previous with
    | some v =>
      if (frame.get? change.name).isSome then frames.put change.path (frame.put change.name v)
      else frames
    | none =>
      let frame := frame.erase change.name
      if frame.isEmpty then frames.erase change.path else frames.put change.path frame

/-- Takes back all changes since a mark, the newest first. -/
def rollback (env : Environment) (mark : Nat) : Environment :=
  let n := env.trail.length - mark
  { env with
    frames := (env.trail.take n).foldl undo env.frames
    trail := env.trail.drop n }

def size (env : Environment) : Nat :=
  env.frames.length + env.cursors.length + env.trail.length

def isEmpty (env : Environment) : Bool := env.size == 0

/-- Whether a node may become active below `parent`: it must not be active already. -/
def admits (parent : Path) (segment : Segment) : Bool := !parent.contains segment

/-- Drops what a node at `path` and the nodes below it have bound, and its cursor. -/
def leave (env : Environment) (path : Path) : Environment := (env.dropFrames path).dropCursor path

end Environment

end TaskNetwork
