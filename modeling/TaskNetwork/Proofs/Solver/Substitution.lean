import Mathlib
import TaskNetwork.Proofs.Value.Equality
import TaskNetwork.Proofs.Solver.Extension
import TaskNetwork.Proofs.Solver.Refinement

/-! A bound variable as an argument, and its value in its place. A query of a fact has the same
answers with either. So has a call of an axiom, unless a clause takes that argument as an output:
the value of an output is handed back to a variable, with which it has to agree, but not to a
value. -/

namespace TaskNetwork

/-- The arguments of a query or of a call. -/
def Condition.args : Condition → List Term
  | .fact _ _ args | .derived _ _ args => args
  | .all .. | .any .. | .not .. => []

/-- The query or call with another argument in place of one. -/
def Condition.setArg (i : Nat) (t : Term) : Condition → Condition
  | .fact id name args => .fact id name (args.set i t)
  | .derived id name args => .derived id name (args.set i t)
  | c => c

theorem Condition.id_setArg (i : Nat) (t : Term) (c : Condition) : (c.setArg i t).id = c.id := by
  cases c <;> rfl

theorem Condition.size_setArg (i : Nat) (t : Term) (c : Condition) :
    (c.setArg i t).size = c.size := by
  cases c <;> rfl

theorem Condition.nodeIds_setArg (i : Nat) (t : Term) (c : Condition) :
    (c.setArg i t).nodeIds = c.nodeIds := by
  cases c <;> rfl

theorem Condition.Narrow.setArg {c : Condition} (h : c.Narrow) (i : Nat) (t : Term) :
    (c.setArg i t).Narrow := by
  cases c with
  | fact id name args =>
    intro id' name' args' hmem
    obtain ⟨-, -, rfl⟩ := Condition.fact.inj (List.mem_singleton.mp hmem)
    rw [List.length_set]
    exact h id name args (Condition.self_mem_nodes _)
  | derived id name args =>
    intro id' name' args' hmem
    cases List.mem_singleton.mp hmem
  | all | any | not => exact h

/-- Some clause that is called takes the argument as an output. -/
def Condition.HasOutput (d : Domain) (i : Nat) : Condition → Prop
  | .derived _ name args =>
    ∃ clause ∈ d.clausesOf name args.length, ∃ y, clause.params[i]? = some (.var .output y)
  | _ => False

section Terms

variable {d : Domain} {α β : Type}

theorem mapM_set_eq {f : α → Option β} {as : List α} {i : Nat} {a b : α}
    (ha : as[i]? = some a) (h : f b = f a) : (as.set i b).mapM f = as.mapM f := by
  induction as generalizing i with
  | nil => cases ha
  | cons first as ih =>
    cases i with
    | zero =>
      obtain rfl := Option.some.inj ha
      simp [List.mapM_cons, h]
    | succ i => simp [List.mapM_cons, ih ha]

theorem getElem?_of_mapM {f : α → Option β} {as : List α} {bs : List β} {i : Nat} {a : α}
    (h : as.mapM f = some bs) (ha : as[i]? = some a) : bs[i]? = f a := by
  induction as generalizing i bs with
  | nil => cases ha
  | cons first as ih =>
    rw [List.mapM_cons] at h
    obtain ⟨b, hb, h⟩ := Option.bind_eq_some_iff.mp h
    obtain ⟨rest, hrest, h⟩ := Option.bind_eq_some_iff.mp h
    obtain rfl := Option.some.inj h
    cases i with
    | zero =>
      obtain rfl := Option.some.inj ha
      exact hb.symm
    | succ i =>
      rw [List.getElem?_cons_succ]
      exact ih hrest ha

end Terms

namespace Frame

section Pairs

variable {f g : Frame} {α β : Type} {treat : α → β → Frame → Option Frame}

theorem eachPair?_flip (as : List α) (bs : List β) (f : Frame) :
    eachPair? (fun b a => treat a b) bs as f = eachPair? treat as bs f := by
  induction as generalizing bs f with
  | nil => cases bs <;> rfl
  | cons a as ih =>
    cases bs with
    | nil => rfl
    | cons b bs => exact congrArg _ (funext fun g => ih bs g)

variable (keep : Frame → Prop) {as : List α} {bs : List β} {i : Nat} {b' : β}

/-- With another element in one place, the treatment of all pairs has the same result, if the
treatment of its pair has. -/
theorem eachPair?_set (hkeep : ∀ a b f g, treat a b f = some g → keep f → keep g)
    (h : ∀ a b f, as[i]? = some a → bs[i]? = some b → keep f → treat a b' f = treat a b f)
    (hf : keep f) : eachPair? treat as (bs.set i b') f = eachPair? treat as bs f := by
  induction as generalizing bs f i with
  | nil => rfl
  | cons a as ih =>
    cases bs with
    | nil => rfl
    | cons b bs =>
      cases i with
      | zero => simp only [List.set_cons_zero, eachPair?, h a b _ rfl rfl hf]
      | succ i =>
        simp only [List.set_cons_succ, eachPair?]
        cases hfirst : treat a b _ with
        | none => rfl
        | some f' => exact ih h (hkeep _ _ _ _ hfirst hf)

/-- It has a result where it had one, if the treatment of its pair has. -/
theorem eachPair?_set_of_some (hkeep : ∀ a b f g, treat a b f = some g → keep f → keep g)
    (h : ∀ a b f g, as[i]? = some a → bs[i]? = some b → keep f → treat a b f = some g →
      treat a b' f = some g)
    (hf : keep f) (hg : eachPair? treat as bs f = some g) :
    eachPair? treat as (bs.set i b') f = some g := by
  induction as generalizing bs f i with
  | nil => exact hg
  | cons a as ih =>
    cases bs with
    | nil => exact hg
    | cons b bs =>
      obtain ⟨f', hfirst, hrest⟩ := Option.bind_eq_some_iff.mp hg
      cases i with
      | zero => exact Option.bind_eq_some_iff.mpr ⟨f', h _ _ _ _ rfl rfl hf hfirst, hrest⟩
      | succ i =>
        exact Option.bind_eq_some_iff.mpr ⟨f', hfirst, ih h (hkeep _ _ _ _ hfirst hf) hrest⟩

end Pairs

end Frame

section Bound

variable {d : Domain} {f g callee : Frame} {x : Symbol} {role : Role} {v : Value}

theorem Frame.unify?_eq_of_bound (hx : (f.value x).isBound) (hg : f.unify? x v = some g) :
    g = f := by
  simp only [Frame.unify?, hx, ↓reduceIte] at hg
  split at hg
  · exact (Option.some.inj hg).symm
  · cases hg

theorem Frame.unify?_self (hx : (f.value x == v) = true) (hbound : (f.value x).isBound) :
    f.unify? x v = some f := by
  simp [Frame.unify?, hbound, hx]

/-- A parameter that hands a value back hands back one that agrees with `v`. -/
def Term.Agrees (d : Domain) (v : Value) (callee : Frame) : Term → Prop
  | .var .inOut y => (callee.value y == v) = true
  | .var .output _ => False
  | .var .input _ | .var .wildcard _ => True
  | t => ∃ u, t.fixed? d = some u ∧ (u == v) = true

theorem Term.Agrees.extends {param : Term} (h : param.Agrees d v f) (hext : f.Extends g) :
    param.Agrees d v g := by
  cases param with
  | literal | constant => exact h
  | var role y =>
    cases role with
    | output | input | wildcard => exact h
    | inOut =>
      have hsame : (f.value y == v) = true := h
      have hbound : (f.value y).isBound := Value.isBound_of_beq hsame
      show (g.value y == v) = true
      rw [hext y hbound]
      exact hsame

/-- A parameter that is no output agrees with the value that it was given. -/
theorem enter?_agrees {param : Term} (hv : (v == v) = true) (hparam : ∀ y, param ≠ .var .output y)
    (hg : param.enter? d v f = some g) : param.Agrees d v g := by
  have hbound := Value.isBound_of_beq hv
  cases param with
  | literal | constant =>
    simp only [Term.enter?, hbound, Bool.not_true, Bool.false_or] at hg
    obtain ⟨u, hu, hsame⟩ := Option.bind_eq_some_iff.mp hg
    refine ⟨u, hu, ?_⟩
    split at hsame
    · assumption
    · cases hsame
  | var role y =>
    cases role with
    | output => exact absurd rfl (hparam y)
    | input | wildcard => trivial
    | inOut =>
      simp only [Term.enter?, hbound, ↓reduceIte, Frame.unify?] at hg
      show (g.value y == v) = true
      split at hg
      · split at hg
        · next hsame =>
          cases hg
          exact hsame
        · cases hg
      · cases hg
        rw [Frame.value_put]
        exact hv

/-- A value handed back to a variable that is bound changes nothing, as one for an argument that is
no variable. -/
theorem handBack?_eq_of_bound {param : Term} (hx : (f.value x).isBound)
    (hg : param.handBack? d callee (.var role x) f = some g) : g = f := by
  rcases handBack?_delivers hg with rfl | ⟨_, _, u, heq, hdeliver⟩
  · rfl
  · obtain ⟨-, rfl⟩ := Term.var.inj heq
    split at hdeliver
    · exact Frame.unify?_eq_of_bound hx hdeliver
    · exact (Option.some.inj hdeliver).symm

theorem handBack?_of_agrees {param : Term} (hx : (f.value x).isBound)
    (hparam : param.Agrees d (f.value x) callee) :
    param.handBack? d callee (.var role x) f = some f := by
  have hdeliver {u : Value} (h : (u == f.value x) = true) :
      (if u.isBound then f.unify? x u else some f) = some f := by
    split
    · exact Frame.unify?_self ((Value.beq_comm _ _).trans h) hx
    · rfl
  cases role with
  | wildcard => cases param <;> rfl
  | input | output | inOut =>
    cases param with
    | literal | constant =>
      obtain ⟨u, hu, hsame⟩ := hparam
      simp only [Term.handBack?, hu, Option.bind_some]
      exact hdeliver hsame
    | var role' y =>
      cases role' with
      | input | wildcard => rfl
      | output => cases hparam
      | inOut => exact hdeliver hparam

end Bound

namespace Solver

section Replaced

variable {d : Domain} {w : World} {name : Symbol} {args : List Term} {f : Frame} {i : Nat}
  {role : Role} {x : Symbol}

/-- A bound variable reads as its value. -/
theorem eval?_of_bound (hrole : role ≠ .wildcard) (hx : (f.value x).isBound) :
    (Term.literal (f.value x)).eval? d f.value = (Term.var role x).eval? d f.value := by
  cases role with
  | wildcard => exact absurd rfl hrole
  | input => simp [Term.eval?, hx]
  | output | inOut => rfl

theorem evalAll?_set (harg : args[i]? = some (.var role x)) (hrole : role ≠ .wildcard)
    (hx : (f.value x).isBound) :
    evalAll? d f.value (args.set i (.literal (f.value x))) = evalAll? d f.value args :=
  mapM_set_eq harg (eval?_of_bound hrole hx)

theorem getElem?_of_evalAll? {actuals : List Value} (harg : args[i]? = some (.var role x))
    (hrole : role ≠ .wildcard) (hx : (f.value x).isBound)
    (h : evalAll? d f.value args = some actuals) : actuals[i]? = some (f.value x) := by
  rw [getElem?_of_mapM h harg, ← eval?_of_bound hrole hx]
  rfl

/-- A bound position of a query keeps its value. -/
theorem fill?_of_bound {row : Row} {query values : List Value} {v u : Value}
    (hfill : row.fill? query = some values) (hquery : query[i]? = some v) (hv : v.isBound)
    (hu : values[i]? = some u) : u = v := by
  unfold Row.fill? at hfill
  split at hfill
  · obtain rfl := Option.some.inj hfill
    exact Option.some.inj (hu.symm.trans (row.getElem?_fill_of_bound hquery hv))
  · cases hfill

theorem column?_of_bound {v : Value} (hx : (f.value x).isBound) (hv : (f.value x == v) = true) :
    (Term.var role x).column? v f = some f := by
  cases role with
  | wildcard => rfl
  | input | output | inOut => exact Frame.unify?_self hv hx

theorem rowAnswer?_set {query : List Value} {row : Row} (harg : args[i]? = some (.var role x))
    (hx : (f.value x == f.value x) = true) (hquery : query[i]? = some (f.value x)) :
    rowAnswer? (args.set i (.literal (f.value x))) query f row = rowAnswer? args query f row := by
  have hbound := Value.isBound_of_beq hx
  unfold rowAnswer?
  cases hfill : row.fill? query with
  | none => rfl
  | some values =>
    simp only [Option.bind_some]
    rw [← Frame.eachPair?_flip, ← Frame.eachPair?_flip args]
    refine Frame.eachPair?_set (fun g => g.value x = f.value x) ?_ ?_ rfl
    · exact fun u t g g' hstep hg => (column?_extends hstep x (by rw [hg]; exact hbound)).trans hg
    · intro u t g hu ht hg
      obtain rfl := Option.some.inj (harg.symm.trans ht)
      rw [fill?_of_bound hfill hquery hbound hu, ← hg]
      rw [← hg] at hbound hx
      exact (column?_of_bound hbound hx).symm

theorem factAnswers_set (harg : args[i]? = some (.var role x)) (hrole : role ≠ .wildcard)
    (hx : (f.value x == f.value x) = true) :
    factAnswers d w name (args.set i (.literal (f.value x))) f = factAnswers d w name args f := by
  have hbound := Value.isBound_of_beq hx
  unfold factAnswers
  rw [evalAll?_set harg hrole hbound, List.length_set]
  cases hquery : evalAll? d f.value args with
  | none => rfl
  | some query =>
    have hread := getElem?_of_evalAll? harg hrole hbound hquery
    exact congrArg (List.filterMap · _) (funext fun row => rowAnswer?_set harg hx hread)

variable {body : Clause → Frame → List Frame} {c : Clause} {actuals : List Value}

/-- What a clause answers to a bound variable, it answers to its value. -/
theorem clauseAnswers_sublist (harg : args[i]? = some (.var role x)) (hx : (f.value x).isBound) :
    (c.answers d body actuals args f).Sublist
      (c.answers d body actuals (args.set i (.literal (f.value x))) f) := by
  unfold Clause.answers
  split
  · exact List.nil_sublist _
  · rw [List.filterMap_eq_flatMap_toList, List.filterMap_eq_flatMap_toList]
    refine .flatMap_right _ fun callee _ => ?_
    cases hback : Frame.eachPair? (Term.handBack? d callee) c.params args f with
    | none => exact List.nil_sublist _
    | some g =>
      have hset : Frame.eachPair? (Term.handBack? d callee) c.params
          (args.set i (.literal (f.value x))) f = some g := by
        refine Frame.eachPair?_set_of_some (fun g => g.value x = f.value x) ?_ ?_ rfl hback
        · exact fun _ _ g g' hstep hg =>
            (handBack?_extends hstep x (by rw [hg]; exact hx)).trans hg
        · intro param t g g' _ ht hg hstep
          obtain rfl := Option.some.inj (harg.symm.trans ht)
          obtain rfl := handBack?_eq_of_bound (by rw [hg]; exact hx) hstep
          rfl
      rw [hset]

/-- It answers nothing else to the value, if it does not take it as an output. -/
theorem clauseAnswers_set (hbody : ∀ callee g, g ∈ body c callee → callee.Extends g)
    (harg : args[i]? = some (.var role x)) (hx : (f.value x == f.value x) = true)
    (hactual : actuals[i]? = some (f.value x))
    (hparam : ∀ y, c.params[i]? ≠ some (.var .output y)) :
    c.answers d body actuals (args.set i (.literal (f.value x))) f =
      c.answers d body actuals args f := by
  have hbound := Value.isBound_of_beq hx
  unfold Clause.answers
  cases henter : Frame.eachPair? (Term.enter? d) c.params actuals [] with
  | none => rfl
  | some entered =>
    have hentered (param : Term) (hp : c.params[i]? = some param) :
        param.Agrees d (f.value x) entered := by
      refine Frame.eachPair?_settles (fun callee => param.Agrees d (f.value x) callee) ?_ ?_ hp
        hactual ?_ henter
      · exact fun _ _ _ _ hg => enter?_extends hg
      · exact fun _ _ hext h => h.extends hext
      · exact fun _ _ hg => enter?_agrees hx (fun y hy => hparam y (hy ▸ hp)) hg
    refine List.filterMap_congr fun callee hcallee => ?_
    refine Frame.eachPair?_set (fun g => g.value x = f.value x) ?_ ?_ rfl
    · exact fun _ _ g g' hstep hg =>
        (handBack?_extends hstep x (by rw [hg]; exact hbound)).trans hg
    · intro param t g hp ht hg
      obtain rfl := Option.some.inj (harg.symm.trans ht)
      -- The value that was entered is in the callee's frame, also at the end of the call.
      have hagrees : param.Agrees d (f.value x) callee :=
        (hentered param hp).extends (hbody entered callee hcallee)
      rw [← hg] at hagrees hbound
      exact (handBack?_of_agrees hbound hagrees).symm

theorem callAnswers_sublist (harg : args[i]? = some (.var role x)) (hrole : role ≠ .wildcard)
    (hx : (f.value x).isBound) :
    (callAnswers d body name args f).Sublist
      (callAnswers d body name (args.set i (.literal (f.value x))) f) := by
  unfold callAnswers
  rw [evalAll?_set harg hrole hx, List.length_set]
  split
  · exact List.nil_sublist _
  · exact .flatMap_right _ fun c _ => clauseAnswers_sublist harg hx

theorem callAnswers_set (hbody : ∀ c callee g, g ∈ body c callee → callee.Extends g)
    (harg : args[i]? = some (.var role x)) (hrole : role ≠ .wildcard)
    (hx : (f.value x == f.value x) = true)
    (hparam : ∀ c ∈ d.clausesOf name args.length, ∀ y, c.params[i]? ≠ some (.var .output y)) :
    callAnswers d body name (args.set i (.literal (f.value x))) f =
      callAnswers d body name args f := by
  have hbound := Value.isBound_of_beq hx
  unfold callAnswers
  rw [evalAll?_set harg hrole hbound, List.length_set]
  cases heval : evalAll? d f.value args with
  | none => rfl
  | some actuals =>
    have hread := getElem?_of_evalAll? harg hrole hbound heval
    exact List.flatMap_congr fun c hc =>
      clauseAnswers_set (hbody c) harg hx hread (hparam c (by simpa using hc))

variable {c : Condition}

theorem pathAnswers_setArg (harg : c.args[i]? = some (.var role x)) (hrole : role ≠ .wildcard)
    (hx : (f.value x == f.value x) = true) (hout : ¬c.HasOutput d i) (depth : Nat) (parent : Path) :
    pathAnswers d w depth (c.setArg i (.literal (f.value x))) parent f =
      pathAnswers d w depth c parent f := by
  cases depth with
  | zero => rfl
  | succ depth =>
    unfold pathAnswers
    rw [Condition.id_setArg]
    split
    · rfl
    · cases c with
      | fact id name args => exact factAnswers_set harg hrole hx
      | derived id name args =>
        refine callAnswers_set (fun clause callee g hg => ?_) harg hrole hx
          fun clause hclause y hy => hout ⟨clause, hclause, y, hy⟩
        split at hg
        · cases hg
        · exact pathAnswers_extends depth _ _ hg
      | all | any | not => cases harg

theorem pathAnswers_setArg_sublist (harg : c.args[i]? = some (.var role x))
    (hrole : role ≠ .wildcard) (hx : (f.value x == f.value x) = true) (depth : Nat) (parent : Path) :
    (pathAnswers d w depth c parent f).Sublist
      (pathAnswers d w depth (c.setArg i (.literal (f.value x))) parent f) := by
  cases depth with
  | zero => exact List.nil_sublist _
  | succ depth =>
    unfold pathAnswers
    rw [Condition.id_setArg]
    split
    · exact List.nil_sublist _
    · cases c with
      | fact id name args =>
        have hset : factAnswers d w name (args.set i (.literal (f.value x))) f =
            factAnswers d w name args f := factAnswers_set harg hrole hx
        show (factAnswers d w name args f).Sublist (factAnswers d w name (args.set i _) f)
        rw [hset]
      | derived id name args =>
        exact callAnswers_sublist harg hrole (Value.isBound_of_beq hx)
      | all | any | not => cases harg

end Replaced

/-- A search that keeps all solutions comes to its end with all answers. -/
theorem gather_delivered {offered : Environment → Prop} {own : Path} {fs found found' : List Frame}
    {reply : Reply}
    (h : Delivered (fun _ => False) offered own (gather own) fs found reply found') :
    reply = .more ∧ found' = found ++ fs := by
  induction h with
  | none => simp
  | halt _ h => exact h.elim
  | next _ hk _ ih =>
    cases hk
    simpa using ih
  | last _ hk hreply =>
    cases hk
    exact absurd rfl hreply

open Environment

section Search

variable {d : Domain} {c : Condition} {parent own : Path} {env : Environment} {rounds : Nat}

theorem solve_gathers (hd : d.nodeIds.Nodup) (hnarrow : d.Narrow) (w : World) (hc : c.nodeIds.Nodup)
    (hcnarrow : c.Narrow) (hrounds : candidateBound d w c ≤ rounds) (hown : parent.isWithin own)
    (henv : env.Compact) (hclear : Clear (parent.child (.node c.id)) env) :
    let (reply, t) := solve d w rounds c parent own (gather own) ⟨env, {}, []⟩
    reply = .more ∧ t.memory = pathAnswers d w (nestingBound d c) c parent (env.frame own) := by
  have hnone : ∀ e, ¬Halts d w rounds c e := by
    refine not_halts hrounds fun x hx id name args heq => ?_
    rcases hx with hx | ⟨clause, hclause, hx⟩
    · exact hcnarrow id name args (heq ▸ hx)
    · exact hnarrow.clauses clause hclause id name args (heq ▸ hx)
  obtain ⟨-, hdelivered⟩ := solve_serves (s := ⟨env, {}, []⟩) w rounds hc (fun clause hclause =>
    (List.nodup_cons.mp (Domain.clause_nodeIds_nodup hd hclause)).2) hown henv hclear
    (fun _ => True) (gather own) trivial fun t _ => .of_eq rfl _
  exact gather_delivered (hdelivered.mono_halts hnone)

/-- All solutions of a query or a call are found again, in the same order, with the value of a bound
variable in place of the variable, and no others if no clause takes that argument as an output. -/
theorem solve_setArg {declarations : List Declaration}
    (hbuilt : Domain.ofDeclarations declarations = .ok d) (hd : d.nodeIds.Nodup) (w : World)
    (hc : c ∈ d.conditions) (hrounds : candidateBound d w c ≤ rounds) (hown : parent.isWithin own)
    (henv : env.Reachable) (hclear : Clear (parent.child (.node c.id)) env) {i : Nat} {role : Role}
    {x : Symbol} (harg : c.args[i]? = some (.var role x)) (hrole : role ≠ .wildcard)
    (hx : (env.value own x == env.value own x) = true) :
    let found (c : Condition) := solve d w rounds c parent own (gather own) ⟨env, {}, []⟩
    let c' := c.setArg i (.literal (env.value own x))
    (found c).1 = .more ∧ (found c').1 = .more ∧
      (found c).2.memory.Sublist (found c').2.memory ∧
      (¬c.HasOutput d i → (found c').2.memory = (found c).2.memory) := by
  intro found c'
  have hnarrow := Domain.narrow_of_declarations hbuilt
  have hcnarrow := hnarrow.condition hc
  have hsize : nestingBound d c' = nestingBound d c := by
    rw [nestingBound, nestingBound, Condition.size_setArg]
  have hrounds' : candidateBound d w c' ≤ rounds := by
    rw [candidateBound, hsize]
    exact hrounds
  obtain ⟨hmore, hmemory⟩ := solve_gathers hd hnarrow w (Domain.condition_nodeIds_nodup hd hc)
    hcnarrow hrounds hown henv.compact hclear
  obtain ⟨hmore', hmemory'⟩ := solve_gathers (c := c') hd hnarrow w
    (Condition.nodeIds_setArg i _ c ▸ Domain.condition_nodeIds_nodup hd hc) (hcnarrow.setArg i _)
    hrounds' hown henv.compact (Condition.id_setArg i _ c ▸ hclear)
  have hfound : (found c).2.memory = _ := hmemory
  have hfound' : (found c').2.memory = _ := hmemory'
  rw [hsize] at hfound'
  refine ⟨hmore, hmore', ?_, fun hout => ?_⟩
  · rw [hfound, hfound']
    exact pathAnswers_setArg_sublist harg hrole hx _ parent
  · rw [hfound, hfound']
    exact pathAnswers_setArg harg hrole hx hout _ parent

end Search

open Roads in
/-- Whether a way leads from place 0 to place 2 may be asked with a variable or with the place. -/
theorem solve_setArg_roads :
    let path := branchPath 0 (leave wayCalled) (walk wayCalled)
    let env := Environment.empty.bind path ⟨11⟩ (place 2)
    let c := wayCalled 6 [.literal (place 0), var 11]
    let found (c : Condition) :=
      solve domain world 20 c (path.child (.node 9)) path (gather path) ⟨env, {}, []⟩
    (found c).2.memory = [[(⟨11⟩, place 2)]] ∧
      (found (c.setArg 1 (.literal (env.value path ⟨11⟩)))).2.memory = (found c).2.memory := by
  intro path env c found
  have hmem : c ∈ domain.conditions := List.mem_cons_of_mem _ List.mem_cons_self
  have hrounds : candidateBound domain world c ≤ 20 := by decide
  have hbinds : Binds path {} env := .bind ⟨11⟩ (place 2) .refl rfl
  have hclear : Clear ((path.child (.node 9)).child (.node c.id)) env :=
    (hbinds.clear_child (clear_empty path) (.node 9)).child (.node 6)
  have hout : ¬c.HasOutput domain 1 := by
    rintro ⟨clause, hclause, y, hy⟩
    have hcases : clause ∈ onward wayCalled :=
      List.mem_toArray.mp (Domain.mem_of_mem_clausesOf hclause)
    simp only [onward, List.mem_cons, List.not_mem_nil, or_false] at hcases
    rcases hcases with rfl | rfl <;> cases hy
  have henv : env.Reachable := .bind path ⟨11⟩ (place 2) .empty
  have hx : (env.value path ⟨11⟩ == env.value path ⟨11⟩) = true := rfl
  obtain ⟨-, -, -, hsame⟩ := solve_setArg domain_built domain_distinct world hmem hrounds
    (Path.child_isWithin path _) henv hclear (i := 1) rfl nofun hx
  have hsame := hsame hout
  beta_reduce at hsame
  refine ⟨?_, by simpa only [found] using hsame⟩
  simp only [found, c, env, path]
  cbv

/-! A call of an axiom with an output. To a variable that is bound only the output that agrees with
it is handed back, and a value takes every output. -/

namespace Outputs

def declarations : List Declaration :=
  [.clause ⟨1, ⟨1⟩, [.var .output ⟨11⟩], Roads.road 0 [Roads.var 11]⟩,
    .method ⟨4, ⟨4⟩, [Roads.var 10],
      [⟨3, ⟨20⟩, some (Roads.way 2 [Roads.var 10]), [⟨⟨5⟩, []⟩]⟩]⟩ false]

def call : Condition := Roads.wayCalled 2 [Roads.var 10]

def domain : Domain :=
  .ofLists [] [⟨1, ⟨1⟩, [.var .output ⟨11⟩], Roads.road 0 [Roads.var 11]⟩]
    [⟨4, ⟨4⟩, [Roads.var 10], [⟨3, ⟨20⟩, some call, [⟨⟨5⟩, []⟩]⟩]⟩] none

def world : World := .attemptAll .empty [⟨⟨0⟩, [Roads.place 1]⟩, ⟨⟨0⟩, [Roads.place 2]⟩]

end Outputs

open Outputs Roads in
/-- With an output the value is answered once more than the variable. -/
theorem setArg_adds_solution :
    let path := Path.ofTask 0
    let env := Environment.empty.bind path ⟨10⟩ (place 1)
    let found (c : Condition) :=
      solve Outputs.domain Outputs.world 20 c path path (gather path) ⟨env, {}, []⟩
    Domain.ofDeclarations Outputs.declarations = .ok Outputs.domain ∧
      Outputs.domain.nodeIds.Nodup ∧ call ∈ Outputs.domain.conditions ∧
      call.args[0]? = some (var 10) ∧ env.value path ⟨10⟩ = place 1 ∧ (place 1).isGround ∧
      (place 1 == place 1) = true ∧
      (found call).2.memory = [[(⟨10⟩, place 1)]] ∧
      (found (call.setArg 0 (.literal (place 1)))).2.memory =
        [[(⟨10⟩, place 1)], [(⟨10⟩, place 1)]] := by
  refine ⟨rfl, by decide, List.mem_cons_self, rfl, rfl, rfl, rfl, ?_, ?_⟩ <;> cbv

end Solver

end TaskNetwork
