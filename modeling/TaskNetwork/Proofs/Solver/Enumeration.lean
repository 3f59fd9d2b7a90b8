import TaskNetwork.Proofs.Solver.Delivery

/-! The solver hands over the answers of a condition. Here an answer is found by the same rules as
in the solver, with the path of active nodes: `pathAnswers` holds of nothing at a node that is
active already. The main statement, `solveWithin_serves`, needs no more of a domain than that the
conjuncts of one conjunction differ. -/

namespace TaskNetwork.Solver

open Environment

/-- The answers of a condition that is entered below `parent`, with at most `depth` nodes below one
another. -/
def pathAnswers (d : Domain) (w : World) : Nat → Condition → Path → Frame → List Frame
  | 0, _, _, _ => []
  | depth + 1, c, parent, f =>
    if parent.contains (.node c.id) then []
    else
      let path := parent.child (.node c.id)
      match c with
      | .fact _ name args => factAnswers d w name args f
      | .derived _ name args =>
        callAnswers d (fun clause callee =>
          if path.contains (.node clause.id) then []
          else
            let inner := path.child (.node clause.id)
            pathAnswers d w depth clause.condition inner callee) name args f
      | .all _ children =>
        children.foldr (fun child rest f => (pathAnswers d w depth child path f).flatMap rest)
          (fun f => [f]) f
      | .any _ children => children.flatMap fun child => pathAnswers d w depth child path f
      | .not _ child => if (pathAnswers d w depth child path f).isEmpty then [f] else []

section Candidates

variable {σ : Type} {halts : SolveError → Prop} {top own : Path} {before : Environment}

/-- The candidates of a node are visited in turn, each from the environment in which the node was
entered but for the cursor. -/
theorem scan_delivered {spill : Path → Prop} {k : Action σ} {visit : Nat → Action σ}
    {groups : List (List Frame)} {count : Nat} (hcount : groups.length = count)
    (hclear : Clear top before)
    (hvisit : ∀ i fs, groups[i]? = some fs → ∀ s : State σ, CursorAt top i before s.env →
      Tidy spill (visit i) s ∧ Delivered halts (Grown top own before) own k fs s.memory
        (visit i s).1 (visit i s).2.memory) (rounds : Nat) :
    ∀ (i : Nat) (s : State σ), CursorAt top i before s.env → i ≤ count →
      (rounds + i < count → halts .unfinished) →
      Restored spill before (scan top count visit rounds s).1
          ((scan top count visit rounds s).2.env.leave top) ∧
        Delivered halts (Grown top own before) own k (groups.drop i).flatten s.memory
          (scan top count visit rounds s).1 (scan top count visit rounds s).2.memory := by
  have hspill {i : Nat} {reply : Reply} {start after : Environment}
      (hcursor : CursorAt top i before start) (h : Restored spill start reply after) :
      Restored spill before reply (after.leave top) :=
    .leave hclear hcursor (h.mono fun _ => .inl)
  -- Before each candidate only the cursor differs from the environment at entry.
  induction rounds with
  | zero =>
    intro i s hcursor hi hlimit
    have henv := hcursor.leave_eq hclear
    rcases Nat.lt_or_eq_of_le hi with hlt | rfl
    · have heq : scan top count visit 0 s = (.fail .unfinished, s) := by
        simp [scan, hcursor.cursor_eq, hlt]
      rw [heq]
      exact ⟨.of_eq henv _, .halt _ (hlimit (by omega))⟩
    · have heq : scan top i visit 0 s = (.more, s) := by simp [scan, hcursor.cursor_eq]
      rw [heq, ← hcount, List.drop_length]
      exact ⟨henv, .none _⟩
  | succ rounds ih =>
    intro i s hcursor hi hlimit
    rcases Nat.lt_or_eq_of_le hi with hlt | rfl
    · obtain ⟨fs, hfs⟩ : ∃ fs, groups[i]? = some fs := ⟨_, List.getElem?_eq_getElem (by omega)⟩
      obtain ⟨hget, rfl⟩ := List.getElem?_eq_some_iff.mp hfs
      obtain ⟨htidy, hdelivered⟩ := hvisit i _ hfs s hcursor
      rw [List.drop_eq_getElem_cons hget, List.flatten_cons]
      cases hv : visit i s with
      | mk reply t =>
        rw [Tidy, hv] at htidy
        rw [hv] at hdelivered
        cases reply with
        | more =>
          have heq : scan top count visit (rounds + 1) s =
              scan top count visit rounds (t.mapEnv (·.advance top)) := by
            simp [scan, hcursor.cursor_eq, hlt, hv]
          have hnext : CursorAt top (i + 1) before (t.mapEnv (·.advance top)).env := by
            have henv : t.env = s.env := htidy
            exact (henv ▸ hcursor : CursorAt top i before t.env).advance
          obtain ⟨hrest, hmore⟩ := ih (i + 1) _ hnext hlt fun h => hlimit (by omega)
          rw [heq]
          exact ⟨hrest, hdelivered.append_of_more hmore⟩
        | stop =>
          have heq : scan top count visit (rounds + 1) s = (.stop, t) := by
            simp [scan, hcursor.cursor_eq, hlt, hv]
          rw [heq]
          exact ⟨hspill hcursor htidy, hdelivered.append_of_ne (by simp) _⟩
        | fail e =>
          have heq : scan top count visit (rounds + 1) s = (.fail e, t) := by
            simp [scan, hcursor.cursor_eq, hlt, hv]
          rw [heq]
          exact ⟨hspill hcursor htidy, hdelivered.append_of_ne (by simp) _⟩
    · have heq : scan top i visit (rounds + 1) s = (.more, s) := by
        simp [scan, hcursor.cursor_eq]
      rw [heq, ← hcount, List.drop_length]
      exact ⟨hcursor.leave_eq hclear, .none _⟩

/-- A node that tries candidates serves the answers of all of them. -/
theorem serves_scan {visit : Action σ → Nat → Action σ} {groups : List (List Frame)} {count : Nat}
    {rounds : Nat} {s : State σ} (hcount : groups.length = count) (hclear : Clear top s.env)
    (hc : s.env.Compact) (hlimit : rounds < count → halts .unfinished)
    (hvisit : ∀ i fs, groups[i]? = some fs → ∀ t : State σ, CursorAt top i s.env t.env →
      Serves halts top own fs (fun k => visit k i) t) :
    ServesInside halts top own groups.flatten (fun k => scan top count (visit k) rounds) s := by
  intro spill k hown hk
  refine scan_delivered hcount hclear (fun i fs hfs t ht => ?_) rounds 0 s (.start hclear)
    (Nat.zero_le _) hlimit
  have hgrown := ht.grown hc own
  obtain ⟨htidy, hdelivered⟩ := hvisit i fs hfs t ht spill k hown fun u hu => hk u (hgrown.trans hu)
  exact ⟨htidy, hdelivered.mono fun _ hu => hgrown.trans hu⟩

end Candidates

section Nodes

variable {σ : Type} {halts : SolveError → Prop} {top own : Path} {s : State σ}

theorem serves_tryRow {w : World} {name : Symbol} {args : List Term} {query : List Value} {i : Nat}
    {row : Row} (hnarrow : args.length ≤ maxArity) (hlength : query.length = args.length)
    (hrow : (w.rows name args.length)[i]? = some row) (hc : s.env.Compact) :
    Serves halts top own (rowAnswer? args query (s.env.frame own) row).toList
      (fun k => tryRow w name args query own k i) s := by
  have hmatch : w.matchRow? name args.length i query = row.fill? query := by
    rw [World.matchRow?_eq hlength hnarrow, hrow, Option.bind_some]
  cases hfill : row.fill? query with
  | none =>
    rw [rowAnswer?, hfill]
    apply serves_nil
    intro k
    simp [tryRow, hmatch, hfill, State.count]
  | some values =>
    have hbinding : Serves halts top own _ (binding (bindRow own args values))
        (s.count (·.factProbe true)) :=
      serves_binding hc (binds_bindRow own args values s.env)
        (bindRow_follows own args values s.env)
    have heq (k : Action σ) : tryRow w name args query own k i s =
        binding (bindRow own args values) k (s.count (·.factProbe true)) := by
      simp [tryRow, hmatch, hfill]
    intro spill k hown hk
    simp only [Tidy, heq, rowAnswer?, hfill]
    exact hbinding spill k hown hk

theorem serves_queryFact (d : Domain) (w : World) {rounds : Nat} {name : Symbol} {args : List Term}
    (hclear : Clear top s.env) (hc : s.env.Compact)
    (hnarrow : maxArity < args.length → halts (.arityOutOfRange name args.length))
    (hlimit : rounds < (w.rows name args.length).size → halts .unfinished) :
    ServesInside halts top own (factAnswers d w name args (s.env.frame own))
      (queryFact d w rounds name args top own) s := by
  by_cases hwide : maxArity < args.length
  · intro spill k _ _
    have heq : queryFact d w rounds name args top own k s =
        (.fail (.arityOutOfRange name args.length), s) := by simp [queryFact, hwide]
    rw [heq]
    exact ⟨.of_eq hclear.leave_eq _, .halt _ (hnarrow hwide)⟩
  have hlookup : s.env.value own = (s.env.frame own).value := rfl
  cases hquery : evalAll? d (s.env.frame own).value args with
  | none =>
    rw [factAnswers, hquery]
    refine Serves.inside hclear (serves_nil fun k => ?_)
    simp [queryFact, hwide, hlookup, hquery]
  | some query =>
    let rows := w.rows name args.length
    let groups := rows.toList.map fun row => (rowAnswer? args query (s.env.frame own) row).toList
    have hanswers : factAnswers d w name args (s.env.frame own) = groups.flatten := by
      simp only [factAnswers, hquery, groups, rows, ← List.flatMap_def]
      exact (List.filterMap_eq_flatMap_toList _ _)
    have heq (k : Action σ) : queryFact d w rounds name args top own k s =
        scan top rows.size (tryRow w name args query own k) rounds s := by
      simp [queryFact, hwide, hlookup, hquery, rows, World.numRows_eq]
    have hscan : ServesInside halts top own groups.flatten
        (fun k => scan top rows.size (tryRow w name args query own k) rounds) s := by
      refine serves_scan (by simp [groups]) hclear hc hlimit fun i fs hfs t ht => ?_
      simp only [groups, List.getElem?_map, Option.map_eq_some_iff] at hfs
      obtain ⟨row, hrow, rfl⟩ := hfs
      rw [← frame_congr (congrArg (Assignment.get? own) ht.frames_eq)]
      exact serves_tryRow (Nat.le_of_not_lt hwide) (length_of_evalAll? hquery)
        (by simpa using hrow) (ht.compact hc)
    intro spill k hown hk
    rw [hanswers, heq]
    exact hscan spill k hown hk

/-- The parameters are handed back to the frame from which a clause was called, which is as it was
then. -/
theorem serves_handBackAll {d : Domain} {callee : Path} {segment : Segment} {params args : List Term}
    {entered : Environment} (hcallee : callee.isWithin own) (hne : callee ≠ own)
    (hbinds : Binds callee s.env entered) {t : State σ}
    (ht : Grown (callee.child segment) callee entered t.env) :
    Serves halts top own (Frame.eachPair? (Term.handBack? d (t.env.frame callee)) params args
      (s.env.frame own)).toList (binding (handBackAll d callee own params args)) t := by
  have hframe : t.env.frame own = s.env.frame own := by
    refine frame_congr ((ht.frames own ?_ hne.symm).trans (hbinds.get?_frames hne.symm))
    exact Path.not_isWithin_child hcallee segment
  rw [← hframe]
  exact serves_binding ht.compact (binds_handBackAll d callee own params args t.env)
    (handBackAll_follows d hne params args t.env)

/-- A clause that is called serves its answers, if its condition does so in the callee's frame. -/
theorem serves_callClause {d : Domain} {parent : Path} {c : Clause} {actuals : List Value}
    {args : List Term} {solveBody : Condition → Path → Path → Action σ → Action σ}
    {body : Clause → Frame → List Frame} (hown : parent.isWithin own)
    (hclear : Clear (parent.child (.node c.id)) s.env) (hc : s.env.Compact)
    (hbody : ∀ t : State σ, t.env.Compact →
      Clear ((parent.child (.node c.id)).child (.node c.condition.id)) t.env →
      Serves halts ((parent.child (.node c.id)).child (.node c.condition.id))
        (parent.child (.node c.id)) (body c (t.env.frame (parent.child (.node c.id))))
        (solveBody c.condition (parent.child (.node c.id)) (parent.child (.node c.id))) t) :
    ServesInside halts (parent.child (.node c.id)) own
      (c.answers d body actuals args (s.env.frame own))
      (fun k => callClause d solveBody c actuals args own k (parent.child (.node c.id))) s := by
  generalize hQ : parent.child (.node c.id) = callee at hclear hbody
  have hcallee : callee.isWithin own := by
    rw [← hQ]
    exact Path.isWithin_trans (Path.child_isWithin parent _) hown
  have hne : callee ≠ own := hQ ▸ Path.child_ne_of_isWithin hown _
  obtain ⟨entered, env, henter, hbinds, hparams⟩ :=
    enterParams_of_clear d hclear c.params actuals
  intro spill k hspill hk
  beta_reduce
  cases entered with
  | false =>
    have heq : callClause d solveBody c actuals args own k callee s = (.more, { s with env }) := by
      simp [callClause, henter]
    have hnone : c.answers d body actuals args (s.env.frame own) = [] := by
      simp [Clause.answers, hparams]
    rw [heq, hnone]
    exact ⟨hbinds.leave_of_clear hclear, .none _⟩
  | true =>
    let t : State σ := { s with env }
    -- The condition of the clause has its answers handed back before each goes on to `k`.
    let pass : Action σ := binding (handBackAll d callee own c.params args) k
    have heq : callClause d solveBody c actuals args own k callee s =
        solveBody c.condition callee callee pass t := by simp [callClause, henter, pass, t]
    have hanswers : c.answers d body actuals args (s.env.frame own) =
        (body c (env.frame callee)).filterMap fun f =>
          Frame.eachPair? (Term.handBack? d f) c.params args (s.env.frame own) := by
      simp [Clause.answers, hparams]
    have hpass (u : State σ) (hu : Grown (callee.child (.node c.condition.id)) callee env u.env) :
        Tidy spill pass u ∧ Delivered halts (Grown callee own s.env) own k
          (Frame.eachPair? (Term.handBack? d (u.env.frame callee)) c.params args
            (s.env.frame own)).toList u.memory (pass u).1 (pass u).2.memory := by
      have hgrown : Grown callee own s.env u.env := hbinds.grown_inner hc hu
      have hserves : Serves halts callee own _ (binding (handBackAll d callee own c.params args)) u :=
        serves_handBackAll hcallee hne hbinds hu
      obtain ⟨htidy, hdelivered⟩ := hserves spill k hspill fun v hv => hk v (hgrown.trans hv)
      exact ⟨htidy, hdelivered.mono fun _ hv => hgrown.trans hv⟩
    obtain ⟨htidy, hdelivered⟩ := hbody t (hbinds.compact hc) (hbinds.clear_child hclear _)
      (fun p => spill p ∨ p.isWithin callee) pass (.inr (Path.isWithin_refl _))
      fun u hu => (hpass u hu).1.mono fun _ => .inl
    rw [hanswers, heq, List.filterMap_eq_flatMap_toList]
    exact ⟨.leave_of_binds hclear hbinds htidy, hdelivered.bind fun u hu => (hpass u hu).2⟩

/-- An axiom serves the answers of its clauses, of which those that are active already have none. -/
theorem serves_callAxiom (d : Domain) {rounds : Nat} {name : Symbol} {args : List Term}
    {solveBody : Condition → Path → Path → Action σ → Action σ}
    {body : Clause → Frame → List Frame} (hown : top.isWithin own) (hclear : Clear top s.env)
    (hc : s.env.Compact) (hlimit : rounds < (d.clausesOf name args.length).size → halts .unfinished)
    (hactive : ∀ c ∈ d.clausesOf name args.length, top.contains (.node c.id) = true →
      ∀ f, body c f = [])
    (hbody : ∀ c ∈ d.clausesOf name args.length, top.contains (.node c.id) = false →
      ∀ t : State σ, t.env.Compact →
        Clear ((top.child (.node c.id)).child (.node c.condition.id)) t.env →
        Serves halts ((top.child (.node c.id)).child (.node c.condition.id)) (top.child (.node c.id))
          (body c (t.env.frame (top.child (.node c.id))))
          (solveBody c.condition (top.child (.node c.id)) (top.child (.node c.id))) t) :
    ServesInside halts top own (callAnswers d body name args (s.env.frame own))
      (callAxiom d rounds solveBody name args top own) s := by
  have hlookup : s.env.value own = (s.env.frame own).value := rfl
  cases heval : evalAll? d (s.env.frame own).value args with
  | none =>
    rw [callAnswers, heval]
    refine Serves.inside hclear (serves_nil fun k => ?_)
    simp [callAxiom, hlookup, heval]
  | some actuals =>
    let clauses := d.clausesOf name args.length
    let groups := clauses.toList.map fun c => c.answers d body actuals args (s.env.frame own)
    let call (k : Action σ) (i : Nat) : Action σ :=
      clauses[i]?.elim (fun s => (.more, s)) fun c =>
        within top (.node c.id) blocked (callClause d solveBody c actuals args own k)
    have hanswers : callAnswers d body name args (s.env.frame own) = groups.flatten := by
      simp only [callAnswers, heval, groups, clauses, ← List.flatMap_def]
    have heq (k : Action σ) : callAxiom d rounds solveBody name args top own k s =
        scan top clauses.size (call k) rounds (s.count .axiomCall) := by
      simp only [callAxiom, hlookup, heval, Domain.length_clausePlaces,
        Domain.getElem?_clausePlaces]
      congr 1
      funext i
      show _ = clauses[i]?.elim _ _
      cases clauses[i]? <;> rfl
    have hscan : ServesInside halts top own groups.flatten
        (fun k => scan top clauses.size (call k) rounds) (s.count .axiomCall) := by
      refine serves_scan (by simp [groups]) hclear hc hlimit fun i fs hfs t ht => ?_
      simp only [groups, List.getElem?_map, Option.map_eq_some_iff] at hfs
      obtain ⟨c, hget, rfl⟩ := hfs
      have hclause : clauses[i]? = some c := by simpa using hget
      have hmem : c ∈ clauses := Array.mem_of_getElem? hclause
      have hcall (k : Action σ) : call k i =
          within top (.node c.id) blocked (callClause d solveBody c actuals args own k) := by
        simp only [call, hclause, Option.elim]
      simp only [hcall]
      have hframe : t.env.frame own = s.env.frame own :=
        frame_congr (congrArg (Assignment.get? own) ht.frames_eq)
      cases hcontains : top.contains (.node c.id) with
      | true =>
        have hnone : c.answers d body actuals args (s.env.frame own) = [] := by
          unfold Clause.answers
          split
          · rfl
          · rw [hactive c hmem hcontains, List.filterMap_nil]
        rw [hnone]
        exact serves_blocked hcontains
      | false =>
        rw [← hframe]
        refine (serves_within hcontains ?_).widen (Path.child_isWithin top _)
        exact serves_callClause hown (ht.clear_child hclear _) (ht.compact hc)
          (hbody c hmem hcontains)
    intro spill k hspill hk
    rw [hanswers, heq]
    exact hscan spill k hspill hk

/-- Conjuncts that differ serve the answers of a conjunction. -/
theorem serves_conjuncts {search : Condition → Action σ → Action σ}
    {answers : Condition → Frame → List Frame} (hown : top.isWithin own)
    (children : List Condition) (hdistinct : (children.map (·.id)).Nodup)
    (hserves : ∀ c ∈ children, ∀ t : State σ, t.env.Compact →
      Clear (top.child (.node c.id)) t.env →
      Serves halts (top.child (.node c.id)) own (answers c (t.env.frame own)) (search c) t)
    (s : State σ) (hc : s.env.Compact)
    (hclear : ∀ c ∈ children, Clear (top.child (.node c.id)) s.env) :
    Serves halts top own
      (children.foldr (fun c rest f => (answers c f).flatMap rest) (fun f => [f]) (s.env.frame own))
      (fun k => children.foldr search k) s := by
  induction children generalizing s with
  | nil =>
    intro spill k _ hk
    have hgrown : Grown top own s.env s.env := .refl hc
    exact ⟨hk s hgrown, .call hgrown⟩
  | cons c cs ih =>
    rw [List.map_cons, List.nodup_cons] at hdistinct
    intro spill k hspill hk
    have hin : (top.child (.node c.id)).isWithin top := Path.child_isWithin top _
    have hrest (t : State σ) (ht : Grown (top.child (.node c.id)) own s.env t.env) :
        Tidy spill (cs.foldr search k) t ∧ Delivered halts (Grown top own s.env) own k
          (cs.foldr (fun c rest f => (answers c f).flatMap rest) (fun f => [f]) (t.env.frame own))
          t.memory (cs.foldr search k t).1 (cs.foldr search k t).2.memory := by
      have hgrown : Grown top own s.env t.env := ht.widen hin (.inl rfl)
      -- The other conjuncts find nothing of the first one, whose node is still active.
      have hstill (c' : Condition) (hc' : c' ∈ cs) : Clear (top.child (.node c'.id)) t.env := by
        refine ht.clear (hclear c' (List.mem_cons_of_mem _ hc')) (fun q hq => ?_)
          (Path.not_isWithin_child hown _)
        rw [← Bool.not_eq_true]
        intro hq'
        have heq : c'.id = c.id := by simpa using Path.eq_of_isWithin_child hq hq'
        exact hdistinct.1 (heq ▸ List.mem_map_of_mem hc')
      obtain ⟨htidy, hdelivered⟩ := ih hdistinct.2
        (fun c' hc' => hserves c' (List.mem_cons_of_mem _ hc')) t ht.compact hstill spill k hspill
        fun u hu => hk u (hgrown.trans hu)
      exact ⟨htidy, hdelivered.mono fun _ hu => hgrown.trans hu⟩
    obtain ⟨htidy, hdelivered⟩ := hserves c (by simp) s hc (hclear c (by simp)) spill
      (cs.foldr search k) hspill fun t ht => (hrest t ht).1
    exact ⟨htidy, hdelivered.bind fun t ht => (hrest t ht).2⟩

/-- A negation serves one answer if the inner search has none. -/
theorem serves_refute {inner : Path} {fs : List Frame} {search : Action σ → Action σ}
    (hc : s.env.Compact) (h : Serves halts inner own fs search s) :
    Serves halts top own (if fs.isEmpty then [s.env.frame own] else []) (refute search) s := by
  intro spill k hspill hk
  have hstop (t : State σ) : Tidy spill (fun s : State σ => (.stop, s)) t := rfl
  obtain ⟨htidy, hdelivered⟩ := h spill _ hspill fun t _ => hstop t
  cases hsearch : search (fun s => (.stop, s)) s with
  | mk reply t =>
    rw [Tidy, hsearch] at htidy
    rw [hsearch] at hdelivered
    have hback (henv : t.env = s.env) : t.mapEnv (·.rollback s.env.mark) = t := by
      simp only [State.mapEnv, henv]
      rw [rollback_mark, ← henv]
    obtain ⟨hmemory, hsome, hnone⟩ :
        t.memory = s.memory ∧ (reply = .stop → fs ≠ []) ∧ (reply = .more → fs = []) :=
      hdelivered.stopped
    cases reply with
    | fail e =>
      have heq : refute search k s = (.fail e, t) := by simp [refute, hsearch]
      have hhalts : halts e := by
        rcases hdelivered.halts_or_fails with hhalts | ⟨_, _, _, hk⟩
        · exact hhalts
        · cases hk
      simp only [Tidy, heq, hmemory]
      exact ⟨htidy, .halt _ hhalts⟩
    | stop =>
      have heq : refute search k s = (.more, t) := by simp [refute, hsearch, hback htidy]
      simp only [Tidy, heq, List.isEmpty_iff, hsome rfl, ↓reduceIte, hmemory]
      exact ⟨htidy, .none _⟩
    | more =>
      have heq : refute search k s = k t := by simp [refute, hsearch, hback htidy]
      have henv : t.env = s.env := htidy
      have hgrown : Grown top own s.env t.env := by
        rw [henv]
        exact .refl hc
      have hcall : Delivered halts (Grown top own s.env) own k [t.env.frame own] t.memory (k t).1
          (k t).2.memory := .call hgrown
      have hktidy := hk t hgrown
      rw [henv, hmemory] at hcall
      rw [Tidy, henv] at hktidy
      simp only [Tidy, heq, hnone rfl, List.isEmpty_nil, ↓reduceIte]
      exact ⟨hktidy, hcall⟩

end Nodes

/-- The number of conditions of a list that are not active on a path. -/
def unused (ids : List NodeId) (path : Path) : Nat := ids.countP fun id => !path.contains (.node id)

theorem unused_le_length (ids : List NodeId) (path : Path) : unused ids path ≤ ids.length :=
  List.countP_le_length

theorem contains_child (path : Path) (s t : Segment) :
    (path.child s).contains t = (t == s || path.contains t) :=
  List.contains_cons

theorem unused_child_le (ids : List NodeId) (path : Path) (s : Segment) :
    unused ids (path.child s) ≤ unused ids path := by
  refine List.countP_mono_left fun id _ => ?_
  simp [contains_child]

theorem unused_child_lt {ids : List NodeId} {path : Path} {id : NodeId} (hid : id ∈ ids)
    (hnew : path.contains (.node id) = false) :
    unused ids (path.child (.node id)) < unused ids path := by
  induction ids with
  | nil => cases hid
  | cons i ids ih =>
    simp only [unused, List.countP_cons] at ih ⊢
    have hle := unused_child_le ids path (.node id)
    simp only [unused] at hle
    by_cases hi : i = id
    · subst hi
      simp only [contains_child, hnew, beq_self_eq_true, Bool.true_or, Bool.not_true,
        Bool.false_eq_true, ↓reduceIte, Bool.not_false] at hle ⊢
      omega
    · have hlt := ih ((List.mem_cons.mp hid).resolve_left (Ne.symm hi))
      have hsame : (path.child (.node id)).contains (.node i) = path.contains (.node i) := by
        simp [contains_child, hi]
      rw [hsame]
      omega

/-- What the search for one condition needs, besides its parts: an identity among `ids`, conjuncts
that differ, and otherwise that an error which it may end in is one of `halts`. -/
structure Admissible (rounds : Nat) (halts : SolveError → Prop) (ids : List NodeId)
    (c : Condition) : Prop where
  mem_ids : c.id ∈ ids
  siblings : ∀ id children, c = .all id children → (children.map (·.id)).Nodup
  narrow : ∀ id name args, c = .fact id name args → maxArity < args.length →
    halts (.arityOutOfRange name args.length)
  alternatives : ∀ id children, c = .any id children → rounds < children.length →
    halts .unfinished

/-- What the search for conditions needs of the domain and the world. -/
structure Setting (d : Domain) (w : World) (rounds : Nat) (halts : SolveError → Prop)
    (ids : List NodeId) : Prop where
  clauses : ∀ c ∈ d.clauses, ∀ x ∈ c.condition.nodes, Admissible rounds halts ids x
  calls : rounds < d.clauses.size → halts .unfinished
  rows : ∀ name arity, rounds < (w.rows name arity).size → halts .unfinished

theorem solveWithin_serves {σ : Type} {d : Domain} {w : World} {rounds : Nat}
    {halts : SolveError → Prop} {ids : List NodeId} (hset : Setting d w rounds halts ids)
    (depth : Nat) : ∀ (c : Condition) (parent own : Path) (s : State σ),
      (∀ x ∈ c.nodes, Admissible rounds halts ids x) → unused ids parent < depth →
      parent.isWithin own → s.env.Compact → Clear (parent.child (.node c.id)) s.env →
      Serves halts (parent.child (.node c.id)) own
        (pathAnswers d w depth c parent (s.env.frame own))
        (solveWithin d w rounds depth c parent own) s := by
  -- A node that becomes active leaves one identity fewer for the nodes below it.
  induction depth with
  | zero => exact fun _ _ _ _ _ h => absurd h (Nat.not_lt_zero _)
  | succ depth ih =>
    intro c parent own s hnodes hdepth hown hc hclear
    have hself := hnodes c c.self_mem_nodes
    unfold pathAnswers
    cases hactive : parent.contains (.node c.id) with
    | true => exact serves_blocked hactive
    | false =>
      have hinner : unused ids (parent.child (.node c.id)) < depth := by
        have := unused_child_lt hself.mem_ids hactive
        omega
      have hown' : (parent.child (.node c.id)).isWithin own :=
        Path.isWithin_trans (Path.child_isWithin parent _) hown
      -- One step deeper, below the path of `c`.
      have hchild (x : Condition) (hx : x ∈ c.nodes) (t : State σ) (ht : t.env.Compact)
          (htclear : Clear ((parent.child (.node c.id)).child (.node x.id)) t.env) :=
        ih x (parent.child (.node c.id)) own t
          (fun y hy => hnodes y (Condition.nodes_trans hx hy)) hinner hown' ht htclear
      refine serves_within hactive ?_
      generalize parent.child (.node c.id) = path at *
      simp only [Bool.false_eq_true, ↓reduceIte]
      cases c with
      | fact id name args =>
        exact serves_queryFact d w hclear hc (hself.narrow id name args rfl) (hset.rows name _)
      | derived id name args =>
        have hclauses := d.size_clausesOf_le name args.length
        refine serves_callAxiom d hown' hclear hc (fun h => hset.calls (by omega))
          (fun clause _ hin f => by simp [hin]) fun clause hmem hout t ht htclear => ?_
        have hin : clause ∈ d.clauses := Domain.mem_of_mem_clausesOf hmem
        have hless : unused ids (path.child (.node clause.id)) < depth := by
          have := unused_child_le ids path (.node clause.id)
          omega
        simp only [hout, Bool.false_eq_true, ↓reduceIte]
        exact ih clause.condition _ _ t (hset.clauses clause hin) hless (Path.isWithin_refl _) ht
          htclear
      | all id children =>
        refine Serves.inside hclear ?_
        exact serves_conjuncts hown' children (hself.siblings id children rfl)
          (fun x hx => hchild x (Condition.mem_nodes_of_mem_all hx)) s hc
          fun x _ => hclear.child (.node x.id)
      | any id children =>
        let groups := children.map fun x => pathAnswers d w depth x path (s.env.frame own)
        have hanswers : (children.flatMap fun x => pathAnswers d w depth x path (s.env.frame own)) =
            groups.flatten := List.flatMap_def ..
        simp only [hanswers]
        refine serves_scan (by simp [groups]) hclear hc (hself.alternatives id children rfl)
          fun i fs hfs t ht => ?_
        simp only [groups, List.getElem?_map, Option.map_eq_some_iff] at hfs
        obtain ⟨x, hx, rfl⟩ := hfs
        simp only [hx]
        rw [← frame_congr (congrArg (Assignment.get? own) ht.frames_eq)]
        exact (hchild x (Condition.mem_nodes_of_mem_any (List.mem_of_getElem? hx)) t (ht.compact hc)
          (ht.clear_child hclear _)).widen (Path.child_isWithin path _)
      | not id child =>
        have hinside := hchild child (Condition.mem_nodes_not id child) s hc (hclear.child _)
        exact Serves.inside hclear (serves_refute hc hinside)

/-- The identities of the conditions that can become active while `c` is solved. -/
def conditionIds (d : Domain) (c : Condition) : List NodeId :=
  c.nodeIds ++ d.clauses.toList.flatMap (·.condition.nodeIds)

/-- Rounds that suffice for each node while `c` is solved. -/
def candidateBound (d : Domain) (w : World) (c : Condition) : Nat :=
  w.rowCount + d.clauses.size + nestingBound d c

/-- The errors in which the search for `c` may end by itself: a query in `c` or in a clause that is
wider than facts are and, with too few rounds, a search that is cut off. -/
def Halts (d : Domain) (w : World) (rounds : Nat) (c : Condition) : SolveError → Prop
  | .arityOutOfRange name arity => maxArity < arity ∧ ∃ id args, args.length = arity ∧
      (.fact id name args ∈ c.nodes ∨ ∃ clause ∈ d.clauses, .fact id name args ∈ clause.condition.nodes)
  | .unfinished => rounds < candidateBound d w c

theorem nestingBound_eq (d : Domain) (c : Condition) :
    nestingBound d c = (conditionIds d c).length + 1 := by
  have hsum (clauses : List Clause) (n : Nat) :
      clauses.foldl (fun n clause => n + clause.condition.size) n =
        n + (clauses.flatMap (·.condition.nodeIds)).length := by
    induction clauses generalizing n with
    | nil => rfl
    | cons clause clauses ih =>
      rw [List.foldl_cons, ih, List.flatMap_cons, List.length_append, Condition.nodeIds,
        List.length_map, Condition.length_nodes]
      omega
  rw [nestingBound, ← Array.foldl_toList, hsum, conditionIds, List.length_append,
    Condition.nodeIds, List.length_map, Condition.length_nodes]

theorem not_halts {d : Domain} {w : World} {rounds : Nat} {c : Condition}
    (hrounds : candidateBound d w c ≤ rounds)
    (hnarrow : ∀ x, x ∈ c.nodes ∨ (∃ clause ∈ d.clauses, x ∈ clause.condition.nodes) →
      ∀ id name args, x = .fact id name args → args.length ≤ maxArity) :
    ∀ e, ¬Halts d w rounds c e
  | .arityOutOfRange name arity, ⟨hwide, id, args, hlength, hmem⟩ => by
    have := hnarrow _ hmem id name args rfl
    omega
  | .unfinished, h => by
    simp only [Halts] at h
    omega

section Whole

variable {d : Domain} {c : Condition}

theorem admissible_of_mem (w : World) (rounds : Nat) {y x : Condition}
    (hy : y = c ∨ ∃ clause ∈ d.clauses, y = clause.condition) (hdistinct : y.nodeIds.Nodup)
    (hx : x ∈ y.nodes) : Admissible rounds (Halts d w rounds c) (conditionIds d c) x where
  mem_ids := by
    have hid : x.id ∈ y.nodeIds := List.mem_map_of_mem hx
    rw [conditionIds, List.mem_append]
    rcases hy with rfl | ⟨clause, hclause, rfl⟩
    · exact .inl hid
    · exact .inr (List.mem_flatMap.mpr ⟨clause, by simpa using hclause, hid⟩)
  siblings id children heq := Condition.siblings_nodup hdistinct (heq ▸ hx)
  narrow id name args heq hwide := by
    refine ⟨hwide, id, args, rfl, ?_⟩
    rcases hy with rfl | ⟨clause, hclause, rfl⟩
    · exact .inl (heq ▸ hx)
    · exact .inr ⟨clause, hclause, heq ▸ hx⟩
  alternatives id children heq hmany := by
    have hsize := Condition.length_le_size_any (heq ▸ hx : .any id children ∈ y.nodes)
    have hbound : y.size ≤ (conditionIds d c).length := by
      rw [← Condition.length_nodes, ← List.length_map (f := (·.id)), conditionIds]
      rcases hy with rfl | ⟨clause, hclause, rfl⟩
      · exact (List.sublist_append_left _ _).length_le
      · refine List.Sublist.length_le (List.Sublist.trans ?_ (List.sublist_append_right _ _))
        exact List.sublist_flatten_of_mem (List.mem_map.mpr ⟨clause, by simpa using hclause, rfl⟩)
    show rounds < candidateBound d w c
    rw [candidateBound, nestingBound_eq]
    omega

/-- A search for a condition serves its answers, if conjuncts differ. -/
theorem solve_serves {σ : Type} (w : World) (rounds : Nat) (hdistinct : c.nodeIds.Nodup)
    (hclauses : ∀ clause ∈ d.clauses, clause.condition.nodeIds.Nodup) {parent own : Path}
    {s : State σ} (hown : parent.isWithin own) (hc : s.env.Compact)
    (hclear : Clear (parent.child (.node c.id)) s.env) :
    Serves (Halts d w rounds c) (parent.child (.node c.id)) own
      (pathAnswers d w (nestingBound d c) c parent (s.env.frame own))
      (solve d w rounds c parent own) s := by
  have hset : Setting d w rounds (Halts d w rounds c) (conditionIds d c) := by
    constructor
    · exact fun clause hclause x hx =>
        admissible_of_mem w rounds (.inr ⟨clause, hclause, rfl⟩) (hclauses clause hclause) hx
    · intro h
      show rounds < candidateBound d w c
      rw [candidateBound]
      omega
    · intro name arity h
      have := w.size_rows_le name arity
      show rounds < candidateBound d w c
      rw [candidateBound]
      omega
  refine solveWithin_serves hset (nestingBound d c) c parent own s
    (fun x hx => admissible_of_mem w rounds (.inl rfl) hdistinct hx) ?_ hown hc hclear
  rw [nestingBound_eq]
  exact Nat.lt_succ_of_le (unused_le_length _ _)

end Whole

end TaskNetwork.Solver
