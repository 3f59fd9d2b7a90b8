import Mathlib
import TaskNetwork.Proofs.Solver.Limits
import TaskNetwork.Proofs.Solver.Refinement

/-! The search for a condition ends, however axioms call each other. A search that notes the path of
each node as it becomes active does what the search without notes does, and the nodes of every path
that it notes differ; there are only as many of them as the domain has. What would be done in place
of a node on any other path plays no part. -/

namespace TaskNetwork.Solver

open Environment

variable {σ : Type}

/-- The state without the paths that were noted. -/
def State.plain (s : State (σ × List Path)) : State σ := ⟨s.env, s.counters, s.memory.1⟩

@[simp]
theorem State.plain_env (s : State (σ × List Path)) : s.plain.env = s.env := rfl

def State.paths (s : State (σ × List Path)) : List Path := s.memory.2

def State.noted (s : State σ) (paths : List Path) : State (σ × List Path) :=
  ⟨s.env, s.counters, (s.memory, paths)⟩

def State.note (path : Path) (s : State (σ × List Path)) : State (σ × List Path) :=
  { s with memory := (s.memory.1, path :: s.memory.2) }

@[simp]
theorem State.plain_note (path : Path) (s : State (σ × List Path)) :
    (s.note path).plain = s.plain := rfl

/-- An action that notes nothing. -/
def silent (k : Action σ) : Action (σ × List Path) := fun s =>
  let (reply, t) := k s.plain
  (reply, t.noted s.paths)

/-- How nodes are made active, which `within` does for the search itself. -/
abbrev Entering (σ : Type) := Path → Segment → Action σ → (Path → Action σ) → Action σ

/-- Notes the path of each node as it becomes active. -/
def withinNoted : Entering (σ × List Path) := fun parent segment refused body =>
  within parent segment refused fun path s => body path (s.note path)

/-- Does `other` in place of a node that would become active on the path `p`. -/
def withinInstead (p : Path) (other : Action σ) : Entering σ := fun parent segment refused body =>
  if admits parent segment ∧ parent.child segment = p then other
  else within parent segment refused body

/-- `callAxiom`, with its clauses made active by `enter`. -/
def callAxiomVia (enter : Entering σ) (d : Domain) (rounds : Nat)
    (solveBody : Condition → Path → Path → Action σ → Action σ) (name : Symbol) (args : List Term)
    (path frame : Path) (k : Action σ) : Action σ := fun s =>
  match evalAll? d (s.env.value frame) args with
  | none => (.more, s)
  | some actuals =>
    let places := d.clausePlaces name args.length
    let call (i : Nat) : Action σ :=
      match places[i]?.bind (d.clauses[·]?) with
      | none => fun s => (.more, s)
      | some c =>
        enter path (.node c.id) blocked (callClause d solveBody c actuals args frame k)
    scan path places.length call rounds (s.count .axiomCall)

/-- `solveWithin`, with each node made active by `enter`. -/
def solveVia (enter : Entering σ) (d : Domain) (w : World) (rounds : Nat) :
    Nat → Condition → Path → Path → Action σ → Action σ
  | 0, _, _, _, _ => fun s => (.fail .unfinished, s)
  | depth + 1, c, parent, frame, k =>
    enter parent (.node c.id) blocked fun path =>
      match c with
      | .fact _ name args => queryFact d w rounds name args path frame k
      | .derived _ name args =>
        callAxiomVia enter d rounds (solveVia enter d w rounds depth) name args path frame k
      | .all _ children =>
        children.foldr (fun child k => solveVia enter d w rounds depth child path frame k) k
      | .any _ children =>
        let alternative (i : Nat) : Action σ :=
          match children[i]? with
          | none => fun s => (.more, s)
          | some child => solveVia enter d w rounds depth child path frame k
        scan path children.length alternative rounds
      | .not _ child => refute (solveVia enter d w rounds depth child path frame) k

theorem solveVia_within (d : Domain) (w : World) (rounds depth : Nat) :
    solveVia (σ := σ) within d w rounds depth = solveWithin d w rounds depth := by
  induction depth with
  | zero => rfl
  | succ depth ih =>
    funext c parent frame k
    rw [solveVia, solveWithin, ih]
    cases c <;> rfl

/-- `solveWithin`, with each path noted on which a node becomes active. -/
def solveNoted (d : Domain) (w : World) (rounds : Nat) : Nat → Condition → Path → Path →
    Action (σ × List Path) → Action (σ × List Path) := solveVia withinNoted d w rounds

/-- `solveWithin`, with `other` in place of a node that becomes active on the path `p`. -/
def solveInstead (p : Path) (other : Action σ) (d : Domain) (w : World) (rounds : Nat) :
    Nat → Condition → Path → Path → Action σ → Action σ :=
  solveVia (withinInstead p other) d w rounds

/-- The second action notes paths of which `holds`. The first one does the same, unless a path is
noted where it strays. -/
def Records (holds strays : Path → Prop) (k : Action σ) (k' : Action (σ × List Path)) : Prop :=
  ∀ s, (∀ p ∈ s.paths, holds p) →
    s.paths ⊆ (k' s).2.paths ∧ (∀ p ∈ (k' s).2.paths, holds p) ∧
      ((∀ p ∈ (k' s).2.paths, ¬strays p) → k s.plain = ((k' s).1, (k' s).2.plain))

section Parts

variable {holds strays : Path → Prop} {k : Action σ} {k' : Action (σ × List Path)}

theorem records_silent (k : Action σ) : Records holds strays k (silent k) :=
  fun _ hs => ⟨fun _ hp => hp, hs, fun _ => rfl⟩

theorem records_reply (reply : Reply) :
    Records (σ := σ) holds strays (fun s => (reply, s)) (fun s => (reply, s)) :=
  fun _ hs => ⟨fun _ hp => hp, hs, fun _ => rfl⟩

theorem records_count (h : Records holds strays k k') (f : Counters → Counters) :
    Records holds strays (fun s => k (s.count f)) (fun s => k' (s.count f)) :=
  fun s hs => h (s.count f) hs

/-- What a node does on its path is recorded where the node is made active by `enter`. -/
def RecordsEntering (holds strays : Path → Prop) (enter : Entering σ) : Prop :=
  ∀ {parent : Path} {segment : Segment} {body : Path → Action σ}
    {body' : Path → Action (σ × List Path)}, (admits parent segment →
      holds (parent.child segment) ∧
        Records holds strays (body (parent.child segment)) (body' (parent.child segment))) →
    Records holds strays (enter parent segment blocked body)
      (withinNoted parent segment blocked body')

theorem records_within (holds strays : Path → Prop) :
    RecordsEntering (σ := σ) holds strays within := by
  intro parent segment body body' h s hs
  unfold withinNoted within
  split
  · next hadmits =>
    obtain ⟨hholds, hbody⟩ := h hadmits
    have hnoted : ∀ p ∈ (s.note (parent.child segment)).paths, holds p :=
      List.forall_mem_cons.mpr ⟨hholds, hs⟩
    obtain ⟨hkept, hpaths, hsame⟩ := hbody _ hnoted
    refine ⟨fun p hp => hkept (List.mem_cons_of_mem _ hp), hpaths, fun hstrays => ?_⟩
    have heq := hsame hstrays
    rw [State.plain_note] at heq
    simp only [heq]
    rfl
  · exact ⟨fun _ hp => hp, hs, fun _ => rfl⟩

/-- The path is noted on which something else is done. -/
theorem records_withinInstead (p : Path) (other : Action σ) :
    RecordsEntering holds (· = p) (withinInstead p other) := by
  intro parent segment body body' h
  by_cases hother : admits parent segment ∧ parent.child segment = p
  · intro s hs
    obtain ⟨hadmits, rfl⟩ := hother
    obtain ⟨hkept, hpaths, -⟩ := records_within holds (· = parent.child segment) h s hs
    refine ⟨hkept, hpaths, fun hstrays => absurd rfl (hstrays _ ?_)⟩
    obtain ⟨hholds, hbody⟩ := h hadmits
    have hnoted := (hbody (s.note _) (List.forall_mem_cons.mpr ⟨hholds, hs⟩)).1
    unfold withinNoted within
    rw [if_pos hadmits]
    exact hnoted List.mem_cons_self
  · have hplain : withinInstead p other parent segment blocked body =
        within parent segment blocked body := if_neg hother
    rw [hplain]
    exact records_within holds (· = p) h

theorem records_binding (make : Environment → Bool × Environment) (h : Records holds strays k k') :
    Records holds strays (binding make k) (binding make k') := by
  intro s hs
  unfold binding
  rw [State.plain_env]
  generalize make s.env = result
  obtain ⟨made, env⟩ := result
  cases made with
  | false => exact ⟨fun _ hp => hp, hs, fun _ => rfl⟩
  | true =>
    obtain ⟨hkept, hpaths, hsame⟩ := h { s with env } hs
    have hsame' : _ → k { s.plain with env } = _ := hsame
    simp only [↓reduceIte]
    rcases hk : k' { s with env } with ⟨reply, t⟩
    rw [hk] at hkept hpaths hsame'
    cases reply with
    | stop | more => exact ⟨hkept, hpaths, fun hstrays => by rw [hsame' hstrays]; rfl⟩
    | fail => exact ⟨hkept, hpaths, fun hstrays => by rw [hsame' hstrays]⟩

theorem records_scan (path : Path) (count : Nat) {visit : Nat → Action σ}
    {visit' : Nat → Action (σ × List Path)} (h : ∀ i, Records holds strays (visit i) (visit' i))
    (rounds : Nat) :
    Records holds strays (scan path count visit rounds) (scan path count visit' rounds) := by
  induction rounds with
  | zero =>
    intro s hs
    unfold scan
    rw [State.plain_env]
    split <;> exact ⟨fun _ hp => hp, hs, fun _ => rfl⟩
  | succ rounds ih =>
    intro s hs
    unfold scan
    rw [State.plain_env]
    by_cases hlt : s.env.cursor path < count
    · rw [if_pos hlt, if_pos hlt]
      obtain ⟨hkept, hpaths, hsame⟩ := h (s.env.cursor path) s hs
      rcases hv : visit' (s.env.cursor path) s with ⟨reply, t⟩
      rw [hv] at hkept hpaths hsame
      cases reply with
      | more =>
        obtain ⟨hkept', hpaths', hsame'⟩ := ih (t.mapEnv (·.advance path)) hpaths
        refine ⟨fun p hp => hkept' (hkept hp), hpaths', fun hstrays => ?_⟩
        rw [hsame fun p hp => hstrays p (hkept' hp)]
        exact hsame' hstrays
      | stop | fail => exact ⟨hkept, hpaths, fun hstrays => by rw [hsame hstrays]⟩
    · rw [if_neg hlt, if_neg hlt]
      exact ⟨fun _ hp => hp, hs, fun _ => rfl⟩

theorem records_refute {search : Action σ → Action σ}
    {search' : Action (σ × List Path) → Action (σ × List Path)}
    (hsearch : ∀ {k k'}, Records holds strays k k' → Records holds strays (search k) (search' k'))
    (h : Records holds strays k k') :
    Records holds strays (refute search k) (refute search' k') := by
  intro s hs
  unfold refute
  obtain ⟨hkept, hpaths, hsame⟩ := hsearch (records_reply .stop) s hs
  rcases hv : search' (fun s => (.stop, s)) s with ⟨reply, t⟩
  rw [hv] at hkept hpaths hsame
  cases reply with
  | more =>
    obtain ⟨hkept', hpaths', hsame'⟩ := h (t.mapEnv (·.rollback s.env.mark)) hpaths
    refine ⟨fun p hp => hkept' (hkept hp), hpaths', fun hstrays => ?_⟩
    rw [hsame fun p hp => hstrays p (hkept' hp)]
    exact hsame' hstrays
  | stop => exact ⟨hkept, hpaths, fun hstrays => by rw [hsame hstrays]; rfl⟩
  | fail => exact ⟨hkept, hpaths, fun hstrays => by rw [hsame hstrays]⟩

end Parts

section Nodes

variable {holds strays : Path → Prop} {k : Action σ} {k' : Action (σ × List Path)} {rounds : Nat}

theorem records_queryFact (d : Domain) (w : World) (name : Symbol) (args : List Term)
    (path frame : Path) (h : Records holds strays k k') :
    Records holds strays (queryFact d w rounds name args path frame k)
      (queryFact d w rounds name args path frame k') := by
  intro s hs
  unfold queryFact
  rw [State.plain_env]
  split
  · exact ⟨fun _ hp => hp, hs, fun _ => rfl⟩
  · split
    · exact ⟨fun _ hp => hp, hs, fun _ => rfl⟩
    · refine records_scan path _ (fun i => ?_) rounds s hs
      unfold tryRow
      intro t ht
      split
      · exact ⟨fun _ hp => hp, ht, fun _ => rfl⟩
      · exact records_count (records_binding _ h) _ t ht

theorem records_callAxiom {enter : Entering σ} (henter : RecordsEntering holds strays enter)
    {d : Domain} {solveBody : Condition → Path → Path → Action σ → Action σ}
    {solveBody' : Condition → Path → Path → Action (σ × List Path) → Action (σ × List Path)}
    {name : Symbol} {args : List Term} {path frame : Path}
    (hbody : ∀ c ∈ d.clausesOf name args.length, admits path (.node c.id) →
      holds (path.child (.node c.id)) ∧ ∀ {k k'}, Records holds strays k k' →
        Records holds strays
          (solveBody c.condition (path.child (.node c.id)) (path.child (.node c.id)) k)
          (solveBody' c.condition (path.child (.node c.id)) (path.child (.node c.id)) k'))
    (h : Records holds strays k k') :
    Records holds strays (callAxiomVia enter d rounds solveBody name args path frame k)
      (callAxiomVia withinNoted d rounds solveBody' name args path frame k') := by
  intro s hs
  unfold callAxiomVia
  rw [State.plain_env]
  cases evalAll? d (s.env.value frame) args with
  | none => exact ⟨fun _ hp => hp, hs, fun _ => rfl⟩
  | some actuals =>
    refine records_count (records_scan path _ (fun i => ?_) rounds) .axiomCall s hs
    cases hc : (d.clausePlaces name args.length)[i]?.bind (d.clauses[·]?) with
    | none => exact records_reply .more
    | some c =>
      refine henter fun hadmits => ?_
      obtain ⟨hholds, hsolve⟩ := hbody c (Domain.mem_clausesOf_of_place hc) hadmits
      refine ⟨hholds, fun t ht => ?_⟩
      unfold callClause
      rw [State.plain_env]
      split
      · next env _ => exact hsolve (records_binding _ h) { t with env } ht
      · exact ⟨fun _ hp => hp, ht, fun _ => rfl⟩

theorem records_foldr {search : Condition → Action σ → Action σ}
    {search' : Condition → Action (σ × List Path) → Action (σ × List Path)}
    (children : List Condition) (hsearch : ∀ c ∈ children, ∀ {k k'}, Records holds strays k k' →
      Records holds strays (search c k) (search' c k')) (h : Records holds strays k k') :
    Records holds strays (children.foldr search k) (children.foldr search' k') := by
  induction children with
  | nil => exact h
  | cons c cs ih =>
    exact hsearch c List.mem_cons_self (ih fun c hc => hsearch c (List.mem_cons_of_mem _ hc))

end Nodes

/-- A path of different nodes of the domain, below one task. -/
structure Simple (d : Domain) (scope : Nat) (p : Path) : Prop where
  distinct : p.segments.Nodup
  segments : ∀ s ∈ p.segments, s = .task scope ∨ ∃ id ∈ d.nodeIds, s = .node id

namespace Simple

variable {d : Domain} {scope : Nat} {p : Path}

theorem child (h : Simple d scope p) {id : NodeId} (hid : id ∈ d.nodeIds)
    (hadmits : admits p (.node id)) : Simple d scope (p.child (.node id)) where
  distinct := by
    refine List.nodup_cons.mpr ⟨fun hmem => ?_, h.distinct⟩
    simp [admits, Path.contains, hmem] at hadmits
  segments s hs := by
    rcases List.mem_cons.mp hs with rfl | hs
    · exact .inr ⟨id, hid, rfl⟩
    · exact h.segments s hs

/-- Such a path is never longer than the task and all nodes together. -/
theorem depth_le (h : Simple d scope p) : p.depth ≤ 1 + d.nodeIds.length := by
  have hsub : p.segments ⊆ .task scope :: d.nodeIds.map .node := by
    intro s hs
    rcases h.segments s hs with rfl | ⟨id, hid, rfl⟩
    · exact List.mem_cons_self
    · exact List.mem_cons_of_mem _ (List.mem_map_of_mem hid)
  have hle := (List.subperm_of_subset h.distinct hsub).length_le
  rw [List.length_cons, List.length_map, p.length_segments] at hle
  omega

end Simple

theorem solveVia_records {strays : Path → Prop} {enter : Entering σ} {d : Domain} {scope : Nat}
    (henter : RecordsEntering (Simple d scope) strays enter) (w : World) (rounds depth : Nat) :
    ∀ (c : Condition) (parent frame : Path) {k : Action σ} {k' : Action (σ × List Path)},
      c.nodeIds ⊆ d.nodeIds → Simple d scope parent → Records (Simple d scope) strays k k' →
      Records (Simple d scope) strays (solveVia enter d w rounds depth c parent frame k)
        (solveNoted d w rounds depth c parent frame k') := by
  -- The guard of each node keeps the path simple on which the node becomes active.
  induction depth with
  | zero => exact fun _ _ _ _ _ _ _ _ => records_reply _
  | succ depth ih =>
    intro c parent frame k k' hids hparent h
    have hself : c.id ∈ d.nodeIds := hids (List.mem_map_of_mem c.self_mem_nodes)
    have hbelow {x : Condition} (hx : x ∈ c.nodes) : x.nodeIds ⊆ d.nodeIds :=
      fun _ hid => hids (((Condition.nodes_sublist c hx).map _).subset hid)
    refine henter fun hadmits => ?_
    have hpath := hparent.child hself hadmits
    refine ⟨hpath, ?_⟩
    generalize parent.child (.node c.id) = path at hpath
    cases c with
    | fact id name args => exact records_queryFact d w name args path frame h
    | derived id name args =>
      refine records_callAxiom henter (fun clause hclause hadmits => ?_) h
      have hmem : clause.nodeIds ⊆ d.nodeIds := fun _ hid =>
        List.mem_append_right _ (List.mem_flatMap.mpr
          ⟨clause, Array.mem_toList_iff.mpr (Domain.mem_of_mem_clausesOf hclause), hid⟩)
      have hcallee := hpath.child (hmem List.mem_cons_self) hadmits
      exact ⟨hcallee, fun hk => ih clause.condition _ _
        (fun _ hid => hmem (List.mem_cons_of_mem _ hid)) hcallee hk⟩
    | all id children =>
      exact records_foldr children
        (fun x hx _ _ => ih x path frame (hbelow (Condition.mem_nodes_of_mem_all hx)) hpath) h
    | any id children =>
      refine records_scan path _ (fun i => ?_) rounds
      cases hx : children[i]? with
      | none => exact records_reply .more
      | some x =>
        exact ih x path frame
          (hbelow (Condition.mem_nodes_of_mem_any (List.mem_of_getElem? hx))) hpath h
    | not id child =>
      exact records_refute (fun hk => ih child path frame
        (hbelow (Condition.mem_nodes_not id child)) hpath hk) h

section Branch

variable {d : Domain} {m : Method} {b : Branch} {c : Condition}

theorem method_nodeIds_subset (hm : m ∈ d.methods) : m.nodeIds ⊆ d.nodeIds := fun _ hid =>
  List.mem_append_left _ (List.mem_flatMap.mpr ⟨m, hm, hid⟩)

theorem simple_branchPath (hd : d.nodeIds.Nodup) (hm : m ∈ d.methods) (hb : b ∈ m.branches)
    (scope : Nat) : Simple d scope (branchPath scope m b) := by
  have htask : Simple d scope (Path.ofTask scope) := by
    refine ⟨List.nodup_singleton _, fun s hs => .inl ?_⟩
    exact List.mem_singleton.mp hs
  have hmethod := method_nodeIds_subset hm
  refine (htask.child (hmethod List.mem_cons_self) rfl).child
    (hmethod (Domain.branch_nodeIds_subset hb List.mem_cons_self)) ?_
  have hne : b.id ≠ m.id := fun heq =>
    Domain.method_not_mem_branch hd hm hb (heq ▸ List.mem_cons_self)
  have hroot : (Path.ofTask scope).contains (.node b.id) = false := rfl
  simp [admits, contains_child, hne, hroot]

theorem solve_finishes (hd : d.nodeIds.Nodup) (w : World) {rounds : Nat} (hm : m ∈ d.methods)
    (hb : b ∈ m.branches) (hc : b.condition = some c) (hrounds : candidateBound d w c ≤ rounds)
    (scope : Nat) {k : Action σ}
    (hk : ∀ t, (k t).1 ≠ .fail .unfinished ∧ (k t).2.env = t.env) {s : State σ}
    (hs : s.env.Compact) (hclear : Clear ((branchPath scope m b).child (.node c.id)) s.env) :
    (solve d w rounds c (branchPath scope m b) (branchPath scope m b) k s).1 ≠
      .fail .unfinished := by
  obtain ⟨-, hdelivered⟩ := solve_serves_answers hd w rounds hm hb hc scope hs hclear
    (fun _ => True) k trivial fun t _ => .of_eq (hk t).2 _
  intro hcut
  rw [hcut] at hdelivered
  rcases hdelivered.halts_or_fails with hhalts | ⟨t, _, _, hfails⟩
  · exact absurd hrounds (Nat.not_le.mpr hhalts)
  · exact (hk t).1 (by rw [hfails])

/-- The search for the condition of a branch ends: with rounds and depth enough it always has the
same outcome. Whatever the limits, if the paths are noted on which nodes become active, the segments
of each path differ, and there are no more of them than one task and all nodes of the domain. No
path is missing in the notes: to do anything else in place of a node on a path that is not noted
changes nothing. -/
theorem solve_terminates (hd : d.nodeIds.Nodup) (w : World) (hm : m ∈ d.methods)
    (hb : b ∈ m.branches) (hc : b.condition = some c) (scope : Nat) {k : Action σ}
    (hk : ∀ t, (k t).1 ≠ .fail .unfinished ∧ (k t).2.env = t.env) {s : State σ}
    (hs : s.env.Reachable) (hclear : Clear ((branchPath scope m b).child (.node c.id)) s.env) :
    let path := branchPath scope m b
    (∃ outcome, outcome.1 ≠ .fail .unfinished ∧ ∀ rounds depth, candidateBound d w c ≤ rounds →
      nestingBound d c ≤ depth → solveWithin d w rounds depth c path path k s = outcome) ∧
    ∀ rounds depth, ∃ paths,
      (solveNoted d w rounds depth c path path (silent k) (s.noted []) =
        let (reply, t) := solveWithin d w rounds depth c path path k s
        (reply, t.noted paths)) ∧
      (∀ p ∉ paths, ∀ other, solveInstead p other d w rounds depth c path path k s =
        solveWithin d w rounds depth c path path k s) ∧
      ∀ p ∈ path :: paths, p.segments.Nodup ∧ p.segments.length ≤ 1 + d.nodeIds.length := by
  intro path
  have hids : c.nodeIds ⊆ d.nodeIds := fun _ hid => method_nodeIds_subset hm
    (Domain.branch_nodeIds_subset hb (by
      rw [Branch.nodeIds, hc]
      exact List.mem_cons_of_mem _ hid))
  have hpath : Simple d scope path := simple_branchPath hd hm hb scope
  constructor
  · have hfinishes := solve_finishes hd w hm hb hc (Nat.le_refl _) scope hk hs.compact hclear
    refine ⟨_, hfinishes, fun rounds depth hrounds hdepth => ?_⟩
    exact ((solveWithin_approximates d w hrounds (nestingBound d c) c path path hdepth
      (.refl k)).eq_of_finished hfinishes).symm
  · intro rounds depth
    let noted := solveNoted d w rounds depth c path path (silent k) (s.noted [])
    have hrecords {strays : Path → Prop} {enter : Entering σ}
        (henter : RecordsEntering (Simple d scope) strays enter) :=
      solveVia_records henter w rounds depth c path path hids hpath (records_silent k) (s.noted [])
        (List.forall_mem_nil _)
    obtain ⟨-, hpaths, hsame⟩ := hrecords (records_within _ fun _ => False)
    have heq : solveWithin d w rounds depth c path path k s = (noted.1, noted.2.plain) := by
      rw [← solveVia_within]
      exact hsame fun _ _ => not_false
    refine ⟨noted.2.paths, ?_, fun p hp other => ?_, fun p hp => ?_⟩
    · rw [heq]
      rfl
    · obtain ⟨-, -, hsame⟩ := hrecords (records_withinInstead p other)
      exact (hsame fun q hq heq => hp (heq ▸ hq)).trans heq.symm
    · have hsimple : Simple d scope p := by
        rcases List.mem_cons.mp hp with rfl | hp
        · exact hpath
        · exact hpaths p hp
      exact ⟨hsimple.distinct, p.length_segments ▸ hsimple.depth_le⟩

end Branch

open Roads in
theorem depths_noted_roads :
    let path := branchPath 0 (leave wayCalled) (walk wayCalled)
    (solveNoted domain world 14 9 (reachable wayCalled) path path (silent (gather path))
        ⟨{}, {}, ([], [])⟩).2.paths.map (·.depth) =
      [6, 5, 10, 9, 8, 8, 7, 6, 6, 5, 7, 6, 5, 4] := by cbv

open Roads in
theorem solve_terminates_roads :
    let path := branchPath 0 (leave wayCalled) (walk wayCalled)
    let c := reachable wayCalled
    (∃ outcome, outcome.1 ≠ .fail .unfinished ∧
      ∀ rounds depth, candidateBound domain world c ≤ rounds → nestingBound domain c ≤ depth →
        solveWithin domain world rounds depth c path path (gather path) ⟨{}, {}, []⟩ = outcome) ∧
    (∀ rounds depth, ∃ paths,
      (solveNoted domain world rounds depth c path path (silent (gather path))
          ⟨{}, {}, ([], [])⟩ =
        let (reply, t) :=
          solveWithin domain world rounds depth c path path (gather path) ⟨{}, {}, []⟩
        (reply, t.noted paths)) ∧
      (∀ p ∉ paths, ∀ other,
        solveInstead p other domain world rounds depth c path path (gather path) ⟨{}, {}, []⟩ =
          solveWithin domain world rounds depth c path path (gather path) ⟨{}, {}, []⟩) ∧
      ∀ p ∈ path :: paths, p.segments.Nodup ∧ p.segments.length ≤ 1 + domain.nodeIds.length) ∧
    (solveNoted domain world 14 9 c path path (silent (gather path))
        ⟨{}, {}, ([], [])⟩).2.paths.map (·.depth) =
      [6, 5, 10, 9, 8, 8, 7, 6, 6, 5, 7, 6, 5, 4] := by
  intro path c
  obtain ⟨hends, hnoted⟩ := solve_terminates domain_distinct world (m := leave wayCalled)
    (b := walk wayCalled) List.mem_cons_self List.mem_cons_self rfl 0 (k := gather path)
    (fun _ => ⟨fun h => (by cases h), rfl⟩) (s := ⟨{}, {}, []⟩) .empty (clear_empty _)
  exact ⟨hends, hnoted, depths_noted_roads⟩

end TaskNetwork.Solver
