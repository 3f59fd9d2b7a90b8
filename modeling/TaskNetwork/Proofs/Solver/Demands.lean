import TaskNetwork.Proofs.Value.Equality
import TaskNetwork.Proofs.Solver.Extension
import Mathlib.Data.Option.Basic

/-! What an answer demands. A row that fits the literals of a query demands of each variable of the
query that it equals the value in its column. A conjunction demands at once what its conjuncts do, a
disjunction what one of its parts does. The answers of such a condition are the ways to meet its
demands, and to meet demands is to find the least frame above the given one that has the values, so
the order of the demands does not matter to it. -/

namespace TaskNetwork

/-- A variable, and the value that it has to equal. -/
abbrev Demand := Symbol × Value

namespace Frame

/-- What the first frame binds, the second binds to an equal value. -/
def Below (f g : Frame) : Prop := ∀ x, (f.value x).isBound → (f.value x == g.value x) = true

/-- Two frames bind the same variables, and to equal values. -/
def Same (f g : Frame) : Prop := f.Below g ∧ g.Below f

/-- The variables have the values that are demanded of them. -/
def Meets (f : Frame) (demands : List Demand) : Prop :=
  ∀ x v, (x, v) ∈ demands → (f.value x == v) = true

/-- Meets demands one after the other, by binding variables that are free. -/
def meet? (f : Frame) : List Demand → Option Frame
  | [] => some f
  | (x, v) :: demands => (f.unify? x v).bind (·.meet? demands)

theorem meet?_append (f : Frame) (demands demands' : List Demand) :
    f.meet? (demands ++ demands') = (f.meet? demands).bind (·.meet? demands') := by
  induction demands generalizing f with
  | nil => rfl
  | cons p demands ih =>
    obtain ⟨x, v⟩ := p
    simp only [List.cons_append, meet?, Option.bind_assoc, ih]

section Bounds

variable {f g h : Frame} {x : Symbol} {v : Value} {demands demands' : List Demand}

/-- A frame whose values equal themselves is below every frame that keeps them. -/
theorem Below.of_extends (hf : f.Below f) (hfg : f.Extends g) : f.Below g := fun x hx => by
  rw [hfg x hx]
  exact hf x hx

/-- A variable that is free takes the value; one that is bound has an equal one already, if some
frame above has. -/
theorem unify?_below (hfh : f.Below h) (hx : (h.value x == v) = true) :
    ∃ g, f.unify? x v = some g ∧ g.Below h := by
  unfold unify?
  split
  · next hbound => exact ⟨f, if_pos (Value.beq_trans _ _ _ (hfh x hbound) hx), hfh⟩
  · refine ⟨f.put x v, rfl, fun y hy => ?_⟩
    by_cases hne : x = y
    · subst hne
      rw [value_put]
      exact (Value.beq_comm _ _).trans hx
    · have hkeep : Frame.value (f.put x v) y = f.value y := by
        rw [Frame.value, Frame.value, Assignment.get?_put_of_ne hne]
      rw [hkeep] at hy ⊢
      exact hfh y hy

theorem unify?_meets (hf : f.Below f) (hv : (v == v) = true) (hg : f.unify? x v = some g) :
    g.Below g ∧ (g.value x == v) = true := by
  unfold unify? at hg
  split at hg
  · split at hg
    · next heq =>
      cases hg
      exact ⟨hf, heq⟩
    · cases hg
  · cases hg
    refine ⟨fun y hy => ?_, by rw [value_put]; exact hv⟩
    by_cases hne : x = y
    · subst hne
      rw [value_put]
      exact hv
    · rw [Frame.value, Assignment.get?_put_of_ne hne] at hy ⊢
      exact hf y hy

/-- Demands that some frame above meets can be met below it. -/
theorem meet?_below (hfh : f.Below h) (hmeets : h.Meets demands) :
    ∃ g, f.meet? demands = some g ∧ g.Below h := by
  induction demands generalizing f with
  | nil => exact ⟨f, rfl, hfh⟩
  | cons p demands ih =>
    obtain ⟨x, v⟩ := p
    obtain ⟨f', hfirst, hbelow⟩ := unify?_below hfh (hmeets x v List.mem_cons_self)
    obtain ⟨g, hrest, hg⟩ := ih hbelow fun y u hy => hmeets y u (List.mem_cons_of_mem _ hy)
    exact ⟨g, Option.bind_eq_some_iff.mpr ⟨f', hfirst, hrest⟩, hg⟩

theorem meet?_extends (hg : f.meet? demands = some g) : f.Extends g := by
  induction demands generalizing f with
  | nil =>
    cases hg
    exact .refl _
  | cons p demands ih =>
    obtain ⟨f', hfirst, hrest⟩ := Option.bind_eq_some_iff.mp hg
    exact (unify?_extends hfirst).trans (ih hrest)

/-- The frame that is found meets the demands, if values equal themselves. -/
theorem meet?_meets (hf : f.Below f) (hdemands : ∀ p ∈ demands, (p.2 == p.2) = true)
    (hg : f.meet? demands = some g) : g.Below g ∧ g.Meets demands := by
  induction demands generalizing f with
  | nil =>
    cases hg
    exact ⟨hf, fun _ _ h => nomatch h⟩
  | cons p demands ih =>
    obtain ⟨x, v⟩ := p
    obtain ⟨f', hfirst, hrest⟩ := Option.bind_eq_some_iff.mp hg
    obtain ⟨hf', hvalue⟩ := unify?_meets hf (hdemands _ List.mem_cons_self) hfirst
    obtain ⟨hself, hmeets⟩ := ih hf' (fun p hp => hdemands p (List.mem_cons_of_mem _ hp)) hrest
    refine ⟨hself, fun y u hy => ?_⟩
    rcases List.mem_cons.mp hy with heq | hy
    · cases heq
      have hbound : (f'.value x).isBound := Value.isBound_of_beq hvalue
      rw [meet?_extends hrest x hbound]
      exact hvalue
    · exact hmeets y u hy

/-- The same demands in another order, and as often as may be, are met by the same frame. -/
theorem meet?_congr (hf : f.Below f) (hdemands : ∀ p ∈ demands, (p.2 == p.2) = true)
    (hmem : ∀ p, p ∈ demands ↔ p ∈ demands') :
    Option.Rel Same (f.meet? demands) (f.meet? demands') := by
  have hle {ds es : List Demand} {g : Frame} (hds : ∀ p ∈ ds, (p.2 == p.2) = true)
      (hsub : es ⊆ ds) (hg : f.meet? ds = some g) : ∃ g', f.meet? es = some g' ∧ g'.Below g := by
    obtain ⟨hself, hmeets⟩ := meet?_meets hf hds hg
    exact meet?_below (hf.of_extends (meet?_extends hg)) fun x v hx => hmeets x v (hsub hx)
  have hdemands' : ∀ p ∈ demands', (p.2 == p.2) = true := fun p hp => hdemands p ((hmem p).mpr hp)
  cases hg : f.meet? demands with
  | some g =>
    obtain ⟨g', hg', hbelow⟩ := hle hdemands (fun p hp => (hmem p).mpr hp) hg
    obtain ⟨g'', hg'', hbelow'⟩ := hle hdemands' (fun p hp => (hmem p).mp hp) hg'
    obtain rfl := Option.some.inj (hg.symm.trans hg'')
    rw [hg']
    exact .some ⟨hbelow', hbelow⟩
  | none =>
    cases hg' : f.meet? demands' with
    | none => exact .none
    | some g' =>
      obtain ⟨g, hg'', -⟩ := hle hdemands' (fun p hp => (hmem p).mp hp) hg'
      rw [hg] at hg''
      cases hg''

end Bounds

end Frame

/-- What a column with value `v` demands of the variable of a query. -/
def Term.demands : Term → Value → List Demand
  | .literal _, _ | .constant .., _ | .var .wildcard _, _ => []
  | .var _ x, v => [(x, v)]

theorem Term.value_of_mem_demands {t : Term} {v : Value} {p : Demand} (h : p ∈ t.demands v) :
    p.2 = v := by
  cases t with
  | literal | constant => cases h
  | var role x =>
    cases role with
    | wildcard => cases h
    | input | output | inOut => rw [List.mem_singleton.mp h]

/-- What a row demands of the variables of a query, if it fits the other arguments, which are given
in `fixed`. -/
def rowDemands? (args : List Term) (fixed : List Value) (row : Row) : Option (List Demand) :=
  (row.fill? fixed).map fun _ => (args.zip row).flatMap fun (t, v) => t.demands v

/-- The demands of the rows of a fact. -/
def factDemands (d : Domain) (w : World) (name : Symbol) (args : List Term) : List (List Demand) :=
  match evalAll? d (fun _ => .unbound) args with
  | none => []
  | some fixed => (w.rows name args.length).toList.filterMap (rowDemands? args fixed)

mutual

/-- The demands each of which makes an answer of a condition that is entered below `parent`. -/
def Condition.demands (d : Domain) (w : World) : Condition → Path → List (List Demand)
  | .fact id name args, parent =>
    if parent.contains (.node id) then [] else factDemands d w name args
  | .all id children, parent =>
    if parent.contains (.node id) then []
    else Condition.demandsAll d w children (parent.child (.node id))
  | .any id children, parent =>
    if parent.contains (.node id) then []
    else Condition.demandsAny d w children (parent.child (.node id))
  | .derived .., _ | .not .., _ => []

def Condition.demandsAll (d : Domain) (w : World) : List Condition → Path → List (List Demand)
  | [], _ => [[]]
  | c :: cs, path => (c.demands d w path).flatMap fun ds =>
    (Condition.demandsAll d w cs path).map (ds ++ ·)

def Condition.demandsAny (d : Domain) (w : World) : List Condition → Path → List (List Demand)
  | [], _ => []
  | c :: cs, path => c.demands d w path ++ Condition.demandsAny d w cs path

end

/-- Conditions of queries, conjunctions and disjunctions. No query is wider than facts are, and none
needs a variable to be bound. -/
inductive Condition.Plain : Condition → Prop
  | fact (id : NodeId) (name : Symbol) {args : List Term} (narrow : args.length ≤ maxArity)
      (free : ∀ x, .var .input x ∉ args) : Plain (.fact id name args)
  | all (id : NodeId) {children : List Condition} (inner : ∀ c ∈ children, Plain c) :
      Plain (.all id children)
  | any (id : NodeId) {children : List Condition} (inner : ∀ c ∈ children, Plain c) :
      Plain (.any id children)

/-- The values in the rows equal themselves. -/
def World.Regular (w : World) : Prop :=
  ∀ name arity, ∀ row ∈ w.rows name arity, ∀ v ∈ row, (v == v) = true

namespace Solver

section Rows

variable {d : Domain} {f g : Frame} {args : List Term}

theorem fill?_cons (v q : Value) (row : Row) (query : List Value) :
    Row.fill? (v :: row) (q :: query) = if !q.isBound || q == v
      then (row.fill? query).map ((if q.isBound then q else v) :: ·) else none := by
  unfold Row.fill?
  rw [Row.fits, List.zip_cons_cons, List.all_cons, ← Row.fits, Row.fill]
  by_cases hfirst : (!q.isBound || q == v) = true
  · simp only [hfirst, Bool.true_and, ↓reduceIte]
    split <;> rfl
  · simp [hfirst]

theorem rowAnswer?_cons (t : Term) (args : List Term) (q : Value) (query : List Value) (g : Frame)
    (v : Value) (row : Row) : rowAnswer? (t :: args) (q :: query) g (v :: row) =
      (if !q.isBound || q == v then t.column? (if q.isBound then q else v) g else none).bind
        fun g => rowAnswer? args query g row := by
  unfold rowAnswer?
  rw [fill?_cons]
  split
  · cases row.fill? query with
    | none => exact (Option.bind_fun_none _).symm
    | some values => rfl
  · rfl

theorem bind_rowDemands?_cons (t : Term) (args : List Term) (a : Value) (fixed : List Value)
    (g : Frame) (v : Value) (row : Row) :
    (rowDemands? (t :: args) (a :: fixed) (v :: row)).bind g.meet? =
      (if !a.isBound || a == v then g.meet? (t.demands v) else none).bind
        fun g => (rowDemands? args fixed row).bind g.meet? := by
  unfold rowDemands?
  rw [fill?_cons]
  split
  · cases row.fill? fixed with
    | none => exact (Option.bind_fun_none _).symm
    | some values => exact Frame.meet?_append g _ _
  · rfl

/-- A column that fits the query as it is read binds what it demands, if it fits the rest of the
query. -/
theorem column?_eq_meet? (hf : f.Below f) (hfg : f.Extends g) {t : Term} {a q : Value}
    (ha : t.fixed? d = some a) (hq : t.eval? d f.value = some q) (v : Value) :
    (if !q.isBound || q == v then t.column? (if q.isBound then q else v) g else none) =
      if !a.isBound || a == v then g.meet? (t.demands v) else none := by
  cases t with
  | literal | constant =>
    obtain rfl : a = q := Option.some.inj (ha.symm.trans hq)
    rfl
  | var role x =>
    cases role with
    | wildcard =>
      obtain rfl : a = q := Option.some.inj (ha.symm.trans hq)
      rfl
    | input => cases ha
    | inOut | output =>
      obtain rfl : Value.unbound = a := Option.some.inj ha
      obtain rfl : f.value x = q := Option.some.inj hq
      have hfree : (!Value.unbound.isBound || Value.unbound == v) = true := rfl
      have hmeet : g.meet? [(x, v)] = g.unify? x v := Option.bind_fun_some _
      simp only [hfree, ↓reduceIte, Term.demands, hmeet]
      cases hx : (f.value x).isBound with
      | false => rfl
      | true =>
        -- The value that was read is compared with the column, and then with itself.
        have hgx := hfg x hx
        simp only [Bool.not_true, Bool.false_or, ↓reduceIte, Term.column?, Frame.unify?, hgx, hx]
        split
        · rw [hf x hx]
          rfl
        · rfl

/-- A row answers a query by meeting its demands. -/
theorem rowAnswer?_eq_meet? (hf : f.Below f) {fixed query : List Value}
    (hfixed : evalAll? d (fun _ => .unbound) args = some fixed)
    (hquery : evalAll? d f.value args = some query) (hfg : f.Extends g) {row : Row}
    (hlength : row.length = args.length) :
    rowAnswer? args query g row = (rowDemands? args fixed row).bind g.meet? := by
  induction args generalizing fixed query g row with
  | nil =>
    obtain rfl := List.length_eq_zero_iff.mp hlength
    cases hfixed
    cases hquery
    rfl
  | cons t args ih =>
    rw [evalAll?, List.mapM_cons] at hfixed hquery
    obtain ⟨a, ha, hfixed⟩ := Option.bind_eq_some_iff.mp hfixed
    obtain ⟨fixed', hfixed', hfixed⟩ := Option.bind_eq_some_iff.mp hfixed
    obtain ⟨q, hq, hquery⟩ := Option.bind_eq_some_iff.mp hquery
    obtain ⟨query', hquery', hquery⟩ := Option.bind_eq_some_iff.mp hquery
    cases hfixed
    cases hquery
    cases row with
    | nil => cases hlength
    | cons v row =>
      rw [rowAnswer?_cons, bind_rowDemands?_cons, column?_eq_meet? hf hfg ha hq v]
      refine Option.bind_congr fun g' hg' => ?_
      split at hg'
      · exact ih hfixed' hquery' (hfg.trans (Frame.meet?_extends hg')) (Nat.succ.inj hlength)
      · cases hg'

/-- Whether the arguments of a query can be read does not depend on the frame, if none is an
input. -/
theorem isSome_evalAll? (hfree : ∀ x, .var .input x ∉ args) (lookup lookup' : Symbol → Value) :
    (evalAll? d lookup args).isSome = (evalAll? d lookup' args).isSome := by
  induction args with
  | nil => rfl
  | cons t args ih =>
    have hrest := ih fun x hx => hfree x (List.mem_cons_of_mem _ hx)
    have hfirst : (t.eval? d lookup).isSome = (t.eval? d lookup').isSome := by
      cases t with
      | literal | constant => rfl
      | var role x =>
        cases role with
        | input => exact absurd List.mem_cons_self (hfree x)
        | inOut | output | wildcard => rfl
    have hcons (lookup : Symbol → Value) : (evalAll? d lookup (t :: args)).isSome =
        ((t.eval? d lookup).isSome && (evalAll? d lookup args).isSome) := by
      rw [evalAll?, List.mapM_cons, evalAll?]
      cases t.eval? d lookup with
      | none => rfl
      | some v => cases args.mapM (Term.eval? d lookup) <;> rfl
    rw [hcons, hcons, hfirst, hrest]

theorem factAnswers_eq_meet? {w : World} {name : Symbol} (hf : f.Below f)
    (hfree : ∀ x, .var .input x ∉ args) :
    factAnswers d w name args f = (factDemands d w name args).filterMap f.meet? := by
  have hread := isSome_evalAll? (d := d) hfree f.value fun _ => .unbound
  unfold factAnswers factDemands
  cases hquery : evalAll? d f.value args with
  | none =>
    rw [hquery] at hread
    cases hfixed : evalAll? d (fun _ => .unbound) args with
    | none => rfl
    | some fixed =>
      rw [hfixed] at hread
      cases hread
  | some query =>
    rw [hquery] at hread
    cases hfixed : evalAll? d (fun _ => .unbound) args with
    | none =>
      rw [hfixed] at hread
      cases hread
    | some fixed =>
      simp only [List.filterMap_filterMap]
      exact List.filterMap_congr fun row hrow => rowAnswer?_eq_meet? hf hfixed hquery (.refl f)
        (World.length_of_mem_rows (by simpa using hrow))

theorem factDemands_regular {w : World} {name : Symbol} (hw : w.Regular) {demands : List Demand}
    (h : demands ∈ factDemands d w name args) : ∀ p ∈ demands, (p.2 == p.2) = true := by
  intro p hp
  unfold factDemands at h
  split at h
  · cases h
  · obtain ⟨row, hrow, h⟩ := List.mem_filterMap.mp h
    obtain ⟨values, -, rfl⟩ := Option.map_eq_some_iff.mp h
    obtain ⟨⟨t, v⟩, hcolumn, hp⟩ := List.mem_flatMap.mp hp
    have hv : (v == v) = true :=
      hw name args.length row (by simpa using hrow) v (List.of_mem_zip hcolumn).2
    rw [Term.value_of_mem_demands hp]
    exact hv

end Rows

section Conditions

variable {d : Domain} {w : World}

mutual

/-- Only values of rows are demanded. -/
theorem demands_regular (hw : w.Regular) : (c : Condition) → ∀ (parent : Path)
    {demands : List Demand}, demands ∈ c.demands d w parent → ∀ p ∈ demands, (p.2 == p.2) = true
  | .fact id name args, parent, _, h => by
    rw [Condition.demands] at h
    split at h
    · cases h
    · exact factDemands_regular hw h
  | .all id children, parent, _, h => by
    rw [Condition.demands] at h
    split at h
    · cases h
    · exact demandsAll_regular hw children _ h
  | .any id children, parent, _, h => by
    rw [Condition.demands] at h
    split at h
    · cases h
    · exact demandsAny_regular hw children _ h
  | .derived .., _, _, h | .not .., _, _, h => by
    rw [Condition.demands] at h
    cases h

theorem demandsAll_regular (hw : w.Regular) : (cs : List Condition) → ∀ (path : Path)
    {demands : List Demand}, demands ∈ Condition.demandsAll d w cs path →
      ∀ p ∈ demands, (p.2 == p.2) = true
  | [], _, _, h => by
    rw [List.mem_singleton.mp h]
    exact fun _ hp => nomatch hp
  | c :: cs, path, _, h => by
    obtain ⟨ds, hds, h⟩ := List.mem_flatMap.mp h
    obtain ⟨rest, hrest, rfl⟩ := List.mem_map.mp h
    intro p hp
    rcases List.mem_append.mp hp with hp | hp
    · exact demands_regular hw c path hds p hp
    · exact demandsAll_regular hw cs path hrest p hp

theorem demandsAny_regular (hw : w.Regular) : (cs : List Condition) → ∀ (path : Path)
    {demands : List Demand}, demands ∈ Condition.demandsAny d w cs path →
      ∀ p ∈ demands, (p.2 == p.2) = true
  | [], _, _, h => nomatch h
  | c :: cs, path, _, h => by
    rcases List.mem_append.mp h with h | h
    · exact demands_regular hw c path h
    · exact demandsAny_regular hw cs path h

end

/-- To meet two demands one after the other, in every way in which both can be chosen. -/
theorem filterMap_meet?_product (f : Frame) (firsts seconds : List (List Demand)) :
    (firsts.flatMap fun ds => seconds.map (ds ++ ·)).filterMap f.meet? =
      (firsts.filterMap f.meet?).flatMap fun g => seconds.filterMap g.meet? := by
  induction firsts with
  | nil => rfl
  | cons ds firsts ih =>
    have hfirst : (seconds.map (ds ++ ·)).filterMap f.meet? =
        seconds.filterMap fun es => (f.meet? ds).bind (·.meet? es) := by
      rw [List.filterMap_map]
      exact List.filterMap_congr fun es _ => Frame.meet?_append f ds es
    rw [List.flatMap_cons, List.filterMap_append, ih, hfirst]
    cases hmeet : f.meet? ds with
    | none => simp [hmeet]
    | some g => simp [hmeet]

theorem foldr_eq_demandsAll (hw : w.Regular) {answers : Condition → Frame → List Frame}
    {path : Path} (children : List Condition) (h : ∀ c ∈ children, ∀ f : Frame, f.Below f →
      answers c f = (c.demands d w path).filterMap f.meet?) {f : Frame} (hf : f.Below f) :
    children.foldr (fun c rest f => (answers c f).flatMap rest) (fun f => [f]) f =
      (Condition.demandsAll d w children path).filterMap f.meet? := by
  induction children generalizing f with
  | nil => rfl
  | cons c cs ih =>
    rw [List.foldr_cons, Condition.demandsAll, filterMap_meet?_product, h c List.mem_cons_self f hf]
    refine List.flatMap_congr fun g hg => ?_
    obtain ⟨demands, hdemands, hmeet⟩ := List.mem_filterMap.mp hg
    exact ih (fun c hc => h c (List.mem_cons_of_mem _ hc))
      (Frame.meet?_meets hf (demands_regular hw c path hdemands) hmeet).1

theorem flatMap_eq_demandsAny {answers : Condition → List Frame} {path : Path} {f : Frame}
    (children : List Condition)
    (h : ∀ c ∈ children, answers c = (c.demands d w path).filterMap f.meet?) :
    children.flatMap answers = (Condition.demandsAny d w children path).filterMap f.meet? := by
  induction children with
  | nil => rfl
  | cons c cs ih =>
    rw [List.flatMap_cons, Condition.demandsAny, List.filterMap_append, h c List.mem_cons_self,
      ih fun c hc => h c (List.mem_cons_of_mem _ hc)]

theorem size_le_sizeAll {c : Condition} {children : List Condition} (h : c ∈ children) :
    c.size ≤ Condition.sizeAll children := by
  rw [← Condition.length_nodes, ← Condition.length_nodesAll]
  exact (Condition.nodes_sublist_nodesAll h).length_le

/-- The answers of a plain condition are the ways to meet its demands. -/
theorem pathAnswers_eq_meet? (hw : w.Regular) {c : Condition} (hc : c.Plain) :
    ∀ {depth : Nat} (parent : Path) {f : Frame}, c.size ≤ depth → f.Below f →
      pathAnswers d w depth c parent f = (c.demands d w parent).filterMap f.meet? := by
  induction hc with
  | @fact id name args narrow free =>
    intro depth parent f hdepth hf
    cases depth with
    | zero => cases hdepth
    | succ depth =>
      show (if parent.contains (.node id) then [] else factAnswers d w name args f) = _
      rw [Condition.demands]
      split
      · rfl
      · exact factAnswers_eq_meet? hf free
  | @all id children inner ih =>
    intro depth parent f hdepth hf
    rw [Condition.size] at hdepth
    cases depth with
    | zero => cases hdepth
    | succ depth =>
      show (if parent.contains (.node id) then []
        else children.foldr (fun child rest f => (pathAnswers d w depth child
          (parent.child (.node id)) f).flatMap rest) (fun f => [f]) f) = _
      rw [Condition.demands]
      split
      · rfl
      · refine foldr_eq_demandsAll hw children (fun c hc f hf => ih c hc _ ?_ hf) hf
        have hsize := size_le_sizeAll hc
        omega
  | @any id children inner ih =>
    intro depth parent f hdepth hf
    rw [Condition.size] at hdepth
    cases depth with
    | zero => cases hdepth
    | succ depth =>
      show (if parent.contains (.node id) then [] else children.flatMap _) = _
      rw [Condition.demands]
      split
      · rfl
      · refine flatMap_eq_demandsAny children fun c hc => ih c hc _ ?_ hf
        have hsize := size_le_sizeAll hc
        omega

end Conditions

end Solver

end TaskNetwork
