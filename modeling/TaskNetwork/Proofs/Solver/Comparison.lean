import TaskNetwork.Proofs.Domain.Built
import TaskNetwork.Proofs.Solver.Answers

/-! The answers of a condition in two worlds. How the rows of the worlds compare, so do the answers,
if the comparison is kept when every member of a list is taken further. For a domain with negations
it also has to tell whether a list is empty. -/

namespace TaskNetwork

/-- A comparison of lists that holds of equal lists and is kept when each member is replaced by a
list. -/
structure Comparison (R : (α : Type) → List α → List α → Prop) : Prop where
  refl : ∀ {α : Type} (xs : List α), R α xs xs
  flatMap : ∀ {α β : Type} {xs ys : List α} {f g : α → List β}, R α xs ys →
    (∀ x, R β (f x) (g x)) → R β (xs.flatMap f) (ys.flatMap g)

namespace Comparison

variable {R : (α : Type) → List α → List α → Prop} {α β : Type} {xs ys xs' ys' : List α}

theorem map (hR : Comparison R) (h : R α xs ys) (f : α → β) : R β (xs.map f) (ys.map f) := by
  rw [List.map_eq_flatMap, List.map_eq_flatMap]
  exact hR.flatMap h fun _ => hR.refl _

theorem filterMap (hR : Comparison R) (h : R α xs ys) (f : α → Option β) :
    R β (xs.filterMap f) (ys.filterMap f) := by
  rw [List.filterMap_eq_flatMap_toList, List.filterMap_eq_flatMap_toList]
  exact hR.flatMap h fun _ => hR.refl _

theorem append (hR : Comparison R) (h : R α xs ys) (h' : R α xs' ys') :
    R α (xs ++ xs') (ys ++ ys') := by
  have hboth := hR.flatMap (hR.refl [true, false]) (f := fun first => if first then xs else xs')
    (g := fun first => if first then ys else ys') fun first => by cases first <;> assumption
  simpa using hboth

theorem flatMap_mem (hR : Comparison R) {f g : α → List β} (h : ∀ x ∈ xs, R β (f x) (g x)) :
    R β (xs.flatMap f) (xs.flatMap g) := by
  induction xs with
  | nil => exact hR.refl _
  | cons x xs ih =>
    rw [List.flatMap_cons, List.flatMap_cons]
    exact hR.append (h x List.mem_cons_self) (ih fun x hx => h x (List.mem_cons_of_mem _ hx))

end Comparison

/-- The rows of each fact compare, arity by arity. -/
def World.Compares (w : World) (R : (α : Type) → List α → List α → Prop) (w' : World) : Prop :=
  ∀ fact arity, R Row (w.rows fact arity).toList (w'.rows fact arity).toList

/-- Lists that compare are both empty, or neither is. -/
def KeepsEmpty (R : (α : Type) → List α → List α → Prop) : Prop :=
  ∀ {α : Type} {xs ys : List α}, R α xs ys → xs.isEmpty = ys.isEmpty

/-- No negation is in the condition. -/
def Condition.Positive (c : Condition) : Prop := ∀ id child, .not id child ∉ c.nodes

/-- No branch and no clause has a negation. -/
structure Domain.Positive (d : Domain) : Prop where
  branches : ∀ m ∈ d.methods, ∀ b ∈ m.branches, ∀ c, b.condition = some c → c.Positive
  clauses : ∀ c ∈ d.clauses, c.condition.Positive

theorem Condition.Positive.inner {c x : Condition} (h : c.Positive) (hx : x ∈ c.nodes) :
    x.Positive :=
  fun id child hmem => h id child (Condition.nodes_trans hx hmem)

section Worlds

variable {R : (α : Type) → List α → List α → Prop} {d : Domain} {w w' : World}

theorem factAnswers_compare (hR : Comparison R) (hrows : w.Compares R w') (name : Symbol)
    (args : List Term) (f : Frame) :
    R Frame (factAnswers d w name args f) (factAnswers d w' name args f) := by
  unfold factAnswers
  split
  · exact hR.refl _
  · exact hR.filterMap (hrows name args.length) _

theorem callAnswers_compare (hR : Comparison R) {body body' : Clause → Frame → List Frame}
    {name : Symbol} {args : List Term}
    (hbody : ∀ c ∈ d.clausesOf name args.length, ∀ f, R Frame (body c f) (body' c f)) (f : Frame) :
    R Frame (callAnswers d body name args f) (callAnswers d body' name args f) := by
  unfold callAnswers
  split
  · exact hR.refl _
  · next actuals _ =>
    refine hR.flatMap_mem fun c hc => ?_
    unfold Clause.answers
    split
    · exact hR.refl _
    · exact hR.filterMap (hbody c (by simpa using hc) _) _

variable {call call' : Symbol → List Term → Frame → List Frame}

mutual

theorem Condition.answersWith_compare (hR : Comparison R) (hrows : w.Compares R w')
    (hcall : ∀ name args f, R Frame (call name args f) (call' name args f)) :
    (c : Condition) → (KeepsEmpty R ∨ c.Positive) → (f : Frame) →
      R Frame (c.answersWith d w call f) (c.answersWith d w' call' f)
  | .fact _ name args, _, f => factAnswers_compare hR hrows name args f
  | .derived _ name args, _, f => hcall name args f
  | .all _ children, hneg, f =>
    Condition.answersAll_compare hR hrows hcall children
      (fun _ hc => hneg.imp_right (·.inner (Condition.mem_nodes_of_mem_all hc))) f
  | .any _ children, hneg, f =>
    Condition.answersAny_compare hR hrows hcall children
      (fun _ hc => hneg.imp_right (·.inner (Condition.mem_nodes_of_mem_any hc))) f
  | .not id child, hneg, f => by
    rcases hneg with hempty | hpositive
    · rw [Condition.answersWith, Condition.answersWith,
        hempty (Condition.answersWith_compare hR hrows hcall child (.inl hempty) f)]
      exact hR.refl _
    · exact absurd (Condition.self_mem_nodes _) (hpositive id child)

theorem Condition.answersAll_compare (hR : Comparison R) (hrows : w.Compares R w')
    (hcall : ∀ name args f, R Frame (call name args f) (call' name args f)) :
    (cs : List Condition) → (∀ c ∈ cs, KeepsEmpty R ∨ c.Positive) → (f : Frame) →
      R Frame (Condition.answersAll d w call cs f) (Condition.answersAll d w' call' cs f)
  | [], _, f => hR.refl [f]
  | c :: cs, hneg, f =>
    hR.flatMap (Condition.answersWith_compare hR hrows hcall c (hneg c List.mem_cons_self) f)
      (Condition.answersAll_compare hR hrows hcall cs
        fun c hc => hneg c (List.mem_cons_of_mem _ hc))

theorem Condition.answersAny_compare (hR : Comparison R) (hrows : w.Compares R w')
    (hcall : ∀ name args f, R Frame (call name args f) (call' name args f)) :
    (cs : List Condition) → (∀ c ∈ cs, KeepsEmpty R ∨ c.Positive) → (f : Frame) →
      R Frame (Condition.answersAny d w call cs f) (Condition.answersAny d w' call' cs f)
  | [], _, _ => hR.refl []
  | c :: cs, hneg, f =>
    hR.append (Condition.answersWith_compare hR hrows hcall c (hneg c List.mem_cons_self) f)
      (Condition.answersAny_compare hR hrows hcall cs
        (fun c hc => hneg c (List.mem_cons_of_mem _ hc)) f)

end

theorem axiomAnswers_compare (hR : Comparison R) (hrows : w.Compares R w')
    (hneg : KeepsEmpty R ∨ d.Positive) (spare : Nat) :
    ∀ (used : List NodeId) (name : Symbol) (args : List Term) (f : Frame),
      R Frame (axiomAnswers d w spare used name args f)
        (axiomAnswers d w' spare used name args f) := by
  induction spare with
  | zero => exact fun _ _ _ _ => hR.refl []
  | succ spare ih =>
    intro used name args f
    refine callAnswers_compare hR (fun c hc g => ?_) f
    split
    · exact hR.refl []
    · exact c.condition.answersWith_compare hR hrows (ih (c.id :: used))
        (hneg.imp_right (·.clauses c (Domain.mem_of_mem_clausesOf hc))) g

/-- The answers of a branch compare as the rows of the worlds do. -/
theorem Branch.answers_compare (hR : Comparison R) (hrows : w.Compares R w')
    (hneg : KeepsEmpty R ∨ d.Positive) {m : Method} (hm : m ∈ d.methods) {b : Branch}
    (hb : b ∈ m.branches) (actuals : List Value) :
    R Frame (b.answers d w m actuals) (b.answers d w' m actuals) := by
  unfold Branch.answers
  split
  · exact hR.refl []
  · next f _ =>
    cases hcondition : b.condition with
    | none => exact hR.refl [f]
    | some c =>
      exact c.answersWith_compare hR hrows (axiomAnswers_compare hR hrows hneg _ [])
        (hneg.imp_right (·.branches m hm b hb c hcondition)) f

end Worlds

end TaskNetwork
