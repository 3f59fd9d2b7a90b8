import TaskNetwork.Proofs.Domain.Lookup
import TaskNetwork.Proofs.Environment.Region
import TaskNetwork.Proofs.World.Matching
import TaskNetwork.Solver.Condition

/-! The answers of a condition, by the meaning of its parts. An answer is a frame, and the answers
of a condition from a frame are a list: a conjunction takes each answer of one conjunct to the next,
a disjunction puts the answers of its parts one after the other, and a call of an axiom works in a
new frame for each clause. No path, cursor or trail takes part; a clause that is in use already
holds of nothing. -/

namespace TaskNetwork

/-- Binds a variable of a frame, or compares its value if it is bound. -/
def Frame.unify? (name : Symbol) (v : Value) (f : Frame) : Option Frame :=
  if (f.value name).isBound then if f.value name == v then some f else none
  else some (f.put name v)

/-- Treats the pairs of two lists from left to right. -/
def Frame.eachPair? {α β : Type} (treat : α → β → Frame → Option Frame) :
    List α → List β → Frame → Option Frame
  | a :: as, b :: bs, f => (treat a b f).bind (eachPair? treat as bs)
  | _, _, f => some f

/-- The variable of a query takes the value of its column. -/
def Term.column? : Term → Value → Frame → Option Frame
  | .literal _, _, f | .constant .., _, f | .var .wildcard _, _, f => some f
  | .var _ name, v, f => f.unify? name v

/-- A parameter takes the value of an argument. -/
def Term.enter? (d : Domain) : Term → Value → Frame → Option Frame
  | .var .wildcard _, _, f | .var .output _, _, f => some f
  | .var .input name, v, f => if v.isBound then f.unify? name v else none
  | .var .inOut name, v, f => if v.isBound then f.unify? name v else some f
  | t, v, f => (t.fixed? d).bind fun expected =>
    if !v.isBound || expected == v then some f else none

/-- A parameter that has a value in `callee` at the end of a call gives it to the variable that is
its argument. -/
def Term.handBack? (d : Domain) (callee : Frame) (param arg : Term) (f : Frame) : Option Frame :=
  let deliver (target : Symbol) (v : Value) := if v.isBound then f.unify? target v else some f
  match arg with
  | .literal _ | .constant .. | .var .wildcard _ => some f
  | .var _ target =>
    match param with
    | .var .inOut name | .var .output name => deliver target (callee.value name)
    | .var .input _ | .var .wildcard _ => some f
    | t => (t.fixed? d).bind (deliver target)

theorem length_of_evalAll? {d : Domain} {lookup : Symbol → Value} {ts : List Term}
    {vs : List Value} (h : evalAll? d lookup ts = some vs) : vs.length = ts.length := by
  induction ts generalizing vs with
  | nil =>
    cases h
    rfl
  | cons t ts ih =>
    rw [evalAll?, List.mapM_cons] at h
    cases ht : t.eval? d lookup with
    | none =>
      rw [ht] at h
      cases h
    | some v =>
      cases hts : evalAll? d lookup ts with
      | none =>
        rw [evalAll?] at hts
        rw [ht, hts] at h
        cases h
      | some rest =>
        rw [evalAll?] at hts
        rw [ht, hts] at h
        cases h
        rw [List.length_cons, List.length_cons, ih hts]

def rowAnswer? (args : List Term) (query : List Value) (f : Frame) (row : Row) : Option Frame :=
  (row.fill? query).bind fun values => Frame.eachPair? Term.column? args values f

/-- The answers of a fact: its rows that match the query, whose arguments are read once. -/
def factAnswers (d : Domain) (w : World) (name : Symbol) (args : List Term) (f : Frame) :
    List Frame :=
  match evalAll? d f.value args with
  | none => []
  | some query => (w.rows name args.length).toList.filterMap (rowAnswer? args query f)

/-- The answers of one clause for the values of the arguments. Its condition is answered by `body`,
from a frame with the parameters only. -/
def Clause.answers (d : Domain) (body : Clause → Frame → List Frame) (c : Clause)
    (actuals : List Value) (args : List Term) (f : Frame) : List Frame :=
  match Frame.eachPair? (Term.enter? d) c.params actuals [] with
  | none => []
  | some callee => (body c callee).filterMap fun callee =>
    Frame.eachPair? (Term.handBack? d callee) c.params args f

/-- The answers of a call: those of the clauses of that name and arity, in turn. -/
def callAnswers (d : Domain) (body : Clause → Frame → List Frame) (name : Symbol)
    (args : List Term) (f : Frame) : List Frame :=
  match evalAll? d f.value args with
  | none => []
  | some actuals => (d.clausesOf name args.length).toList.flatMap fun c =>
    c.answers d body actuals args f

mutual

/-- The answers of a condition, with those of axioms given by `call`. -/
def Condition.answersWith (d : Domain) (w : World) (call : Symbol → List Term → Frame → List Frame) :
    Condition → Frame → List Frame
  | .fact _ name args, f => factAnswers d w name args f
  | .derived _ name args, f => call name args f
  | .all _ children, f => Condition.answersAll d w call children f
  | .any _ children, f => Condition.answersAny d w call children f
  | .not _ child, f => if (child.answersWith d w call f).isEmpty then [f] else []

/-- Each answer of one conjunct is taken to the next. -/
def Condition.answersAll (d : Domain) (w : World) (call : Symbol → List Term → Frame → List Frame) :
    List Condition → Frame → List Frame
  | [], f => [f]
  | c :: cs, f => (c.answersWith d w call f).flatMap (Condition.answersAll d w call cs)

/-- The answers of the alternatives, one after the other. -/
def Condition.answersAny (d : Domain) (w : World) (call : Symbol → List Term → Frame → List Frame) :
    List Condition → Frame → List Frame
  | [], _ => []
  | c :: cs, f => c.answersWith d w call f ++ Condition.answersAny d w call cs f

end

/-- The answers of an axiom while the clauses in `used` are in use, and at most `spare` others can
come into use below one another. -/
def axiomAnswers (d : Domain) (w : World) : Nat → List NodeId → Symbol → List Term → Frame →
    List Frame
  | 0, _, _, _, _ => []
  | spare + 1, used, name, args, f =>
    callAnswers d (fun c callee =>
      if c.id ∈ used then []
      else c.condition.answersWith d w (axiomAnswers d w spare (c.id :: used)) callee) name args f

/-- The answers of a condition that is entered while no clause is in use. -/
def Condition.answers (d : Domain) (w : World) (c : Condition) (f : Frame) : List Frame :=
  c.answersWith d w (axiomAnswers d w d.clauses.size []) f

def guardAnswers (d : Domain) (w : World) (c : Option Condition) (f : Frame) : List Frame :=
  match c with
  | none => [f]
  | some c => c.answers d w f

/-- The answers of a branch for the values of a task's arguments. -/
def Branch.answers (d : Domain) (w : World) (m : Method) (b : Branch) (actuals : List Value) :
    List Frame :=
  match Frame.eachPair? (Term.enter? d) m.params actuals [] with
  | none => []
  | some f => guardAnswers d w b.condition f

namespace Solver

open Environment

/-- A step that binds in the frame at `path` does there what a step on frames does. -/
def Follows (path : Path) (step : Bool × Environment) (frame? : Option Frame) : Prop :=
  frame? = if step.1 then some (step.2.frame path) else none

theorem follows_refl (path : Path) (env : Environment) :
    Follows path (true, env) (some (env.frame path)) := rfl

theorem frame_bind (env : Environment) (path : Path) (name : Symbol) (v : Value) :
    (env.bind path name v).frame path = (env.frame path).put name v := by
  simp [frame, Environment.bind, Assignment.get?_put_self]

theorem unify_follows (path : Path) (name : Symbol) (v : Value) (env : Environment) :
    Follows path (unify path name v env) ((env.frame path).unify? name v) := by
  have hvalue : env.value path name = (env.frame path).value name := rfl
  cases h : ((env.frame path).value name).isBound
  · simp [Follows, unify, Frame.unify?, hvalue, h, frame_bind]
  · simp [Follows, unify, Frame.unify?, hvalue, h]

/-- The pairs of two lists are treated alike, if each pair is, as long as `keep` holds. -/
theorem eachPair_follows {α β : Type} {path : Path} (keep : Environment → Prop)
    {treat : α → β → Environment → Bool × Environment} {treat? : α → β → Frame → Option Frame}
    (hkeep : ∀ a b env, keep env → keep (treat a b env).2)
    (h : ∀ a b env, keep env → Follows path (treat a b env) (treat? a b (env.frame path)))
    (as : List α) (bs : List β) {env : Environment} (henv : keep env) :
    Follows path (eachPair treat as bs env) (Frame.eachPair? treat? as bs (env.frame path)) := by
  fun_induction eachPair treat as bs env with
  | case1 a as b bs env env' heq ih =>
    have hstep := h a b env henv
    have hnext := hkeep a b env henv
    rw [heq] at hstep hnext
    rw [Frame.eachPair?, hstep]
    exact ih hnext
  | case2 a as b bs env env' heq =>
    have hstep := h a b env henv
    rw [heq] at hstep
    rw [Frame.eachPair?, hstep]
    rfl
  | case3 as bs env hne =>
    rw [Frame.eachPair?]
    · exact follows_refl path env
    · exact hne

theorem column_follows (path : Path) (v : Value) (env : Environment) : (t : Term) →
    Follows path (bindColumn path t v env) (t.column? v (env.frame path))
  | .literal _ | .constant .. | .var .wildcard _ => follows_refl path env
  | .var .input name | .var .output name | .var .inOut name => unify_follows path name v env

theorem bindRow_follows (path : Path) (args : List Term) (row : List Value) (env : Environment) :
    Follows path (bindRow path args row env)
      (Frame.eachPair? Term.column? args row (env.frame path)) :=
  eachPair_follows (fun _ => True) (fun _ _ _ _ => trivial)
    (fun t v env _ => column_follows path v env t) args row trivial

theorem deliver_follows (path : Path) (target : Symbol) (v : Value) (env : Environment) :
    Follows path (if v.isBound then unify path target v env else (true, env))
      (if v.isBound then (env.frame path).unify? target v else some (env.frame path)) := by
  split
  · exact unify_follows path target v env
  · exact follows_refl path env

theorem enterParam_follows (d : Domain) (path : Path) (v : Value) (env : Environment) (t : Term) :
    Follows path (enterParam d path t v env) (t.enter? d v (env.frame path)) := by
  cases t with
  | literal | constant =>
    unfold enterParam Term.enter?
    dsimp only
    generalize Term.fixed? d _ = fixed?
    cases fixed? with
    | none => rfl
    | some expected => rfl
  | var role name =>
    cases role with
    | wildcard | output => exact follows_refl path env
    | inOut => exact deliver_follows path name v env
    | input =>
      show Follows path (if v.isBound then unify path name v env else (false, env))
        (if v.isBound then (env.frame path).unify? name v else none)
      split
      · exact unify_follows path name v env
      · rfl

theorem enterParams_follows (d : Domain) (path : Path) (params : List Term) (actuals : List Value)
    (env : Environment) : Follows path (enterParams d path params actuals env)
      (Frame.eachPair? (Term.enter? d) params actuals (env.frame path)) :=
  eachPair_follows (fun _ => True) (fun _ _ _ _ => trivial)
    (fun t v env _ => enterParam_follows d path v env t) params actuals trivial

/-- A node that was clear has its parameters in its frame, or they do not agree with the values. -/
theorem enterParams_of_clear (d : Domain) {path : Path} {env : Environment} (hclear : Clear path env)
    (params : List Term) (actuals : List Value) :
    ∃ entered after, enterParams d path params actuals env = (entered, after) ∧
      Binds path env after ∧ Frame.eachPair? (Term.enter? d) params actuals [] =
        if entered then some (after.frame path) else none := by
  refine ⟨_, _, rfl, binds_enterParams d path params actuals env, ?_⟩
  rw [← hclear.frame_eq_nil]
  exact enterParams_follows d path params actuals env

theorem handBack_follows (d : Domain) (callee caller : Path) (param arg : Term)
    (env : Environment) : Follows caller (handBack d callee caller param arg env)
      (Term.handBack? d (env.frame callee) param arg (env.frame caller)) := by
  cases arg with
  | literal | constant => exact follows_refl caller env
  | var role target =>
    have hdeliver (v : Value) := deliver_follows caller target v env
    cases role with
    | wildcard => exact follows_refl caller env
    | input | output | inOut =>
      cases param with
      | literal | constant =>
        unfold handBack Term.handBack?
        dsimp only
        generalize Term.fixed? d _ = fixed?
        cases fixed? with
        | none => rfl
        | some v => exact hdeliver v
      | var role name =>
        cases role with
        | inOut | output => exact hdeliver _
        | input | wildcard => exact follows_refl caller env

theorem handBackAll_follows (d : Domain) {callee caller : Path} (hne : callee ≠ caller)
    (params args : List Term) (env : Environment) :
    Follows caller (handBackAll d callee caller params args env)
      (Frame.eachPair? (Term.handBack? d (env.frame callee)) params args (env.frame caller)) := by
  refine eachPair_follows (fun env' => env'.frame callee = env.frame callee)
    (fun param arg env' henv => ?_) (fun param arg env' henv => ?_) params args rfl
  · rw [← henv]
    exact frame_congr ((binds_handBack d callee caller param arg env').get?_frames hne)
  · rw [← henv]
    exact handBack_follows d callee caller param arg env'

end Solver

end TaskNetwork
