import TaskNetwork.Proofs.Decomposition.Boundary
import TaskNetwork.Proofs.Decomposition.Derivation
import TaskNetwork.Proofs.Solver.Refinement

/-! Choosing a branch. The solution of a branch after some others is the answer at that place, and
it is known whether another one follows. The branch that is taken for a task is the one at the first
choice, from the task's own on, at which its method has an answer. -/

namespace TaskNetwork.Decomposition

open Solver Environment

/-- What is selected of a list of answers that is handed over without an error. -/
theorem select_delivered {halts : SolveError → Prop} {offered : Environment → Prop} {path : Path}
    {fs : List Frame} {m m' : Selection} {reply : Reply}
    (h : Delivered halts offered path (select path) fs m reply m')
    (hreply : ∀ e, reply ≠ .fail e) (hmore : m.more = false) :
    (m.taken = none → m'.taken = fs[m.skip]? ∧ m'.more = decide (m.skip + 1 < fs.length)) ∧
      ∀ g, m.taken = some g → m.skip = 0 → m'.taken = some g ∧ m'.more = !fs.isEmpty := by
  induction h with
  | none m =>
    refine ⟨fun htaken => ⟨htaken, ?_⟩, fun g htaken _ => ⟨htaken, hmore⟩⟩
    simpa using hmore
  | halt m he => exact absurd rfl (hreply _)
  | @next fs s t reply m' hs hk rest ih =>
    unfold select at hk
    split at hk
    · next skip hskip =>
      cases hk
      obtain ⟨hfirst, -⟩ := ih hreply hmore
      refine ⟨fun hnone => ?_, fun g _ hzero => ?_⟩
      · rw [hskip]
        simpa using hfirst hnone
      · rw [hskip] at hzero
        cases hzero
    · next hskip htaken =>
      cases hk
      obtain ⟨-, hsecond⟩ := ih hreply hmore
      obtain ⟨hgot, hrest⟩ := hsecond _ rfl hskip
      refine ⟨fun _ => ?_, fun g hsome _ => ?_⟩
      · rw [hskip, hgot, hrest]
        cases fs <;> simp
      · rw [htaken] at hsome
        cases hsome
    · cases hk
  | @last fs s t reply hs hk hstop =>
    unfold select at hk
    split at hk
    · cases hk
      exact absurd rfl hstop
    · cases hk
      exact absurd rfl hstop
    · next hskip htaken =>
      cases hk
      refine ⟨fun hnone => ?_, fun g hsome _ => ⟨hsome, rfl⟩⟩
      rw [htaken] at hnone
      cases hnone

section Branch

variable {d : Domain} {m : Method} {b : Branch}

/-- The errors in which the search of a branch may end. -/
def BranchHalts (d : Domain) (w : World) (rounds : Nat) (b : Branch) (e : SolveError) : Prop :=
  ∃ c, b.condition = some c ∧ Halts d w rounds c e

theorem branchSearch_delivers (hd : d.nodeIds.Nodup) (w : World) (rounds : Nat) (hm : m ∈ d.methods)
    (hb : b ∈ m.branches) (actuals : List Value) (scope : Nat) {s : State Selection}
    (hs : s.env.Compact) (hclear : Clear (branchPath scope m b) s.env) {reply : Reply}
    {t : State Selection}
    (h : branchSearch d w rounds m b actuals (branchPath scope m b) s = (reply, t)) :
    Delivered (BranchHalts d w rounds b) (fun _ => True) (branchPath scope m b)
        (select (branchPath scope m b)) (b.answers d w m actuals) s.memory reply t.memory ∧
      ((∀ e, reply ≠ .fail e) → t.env.leave (branchPath scope m b) = s.env) := by
  obtain ⟨path, hpath⟩ : ∃ path, branchPath scope m b = path := ⟨_, rfl⟩
  rw [hpath] at hclear h ⊢
  obtain ⟨entered, env, henter, hbinds, hparams⟩ :=
    enterParams_of_clear d hclear m.params actuals
  have hleave {u : State Selection} (hu : u.env = env) : u.env.leave path = s.env := by
    rw [hu]
    exact hbinds.leave_of_clear hclear
  unfold branchSearch at h
  rw [henter] at h
  rw [Branch.answers, hparams]
  cases entered with
  | false =>
    cases h
    exact ⟨.none _, fun _ => hleave rfl⟩
  | true =>
    let start : State Selection := { s with env }
    cases hcondition : b.condition with
    | none =>
      have hcall : Delivered (BranchHalts d w rounds b) (fun _ => True) path (select path)
          [start.env.frame path] start.memory (select path start).1
          (select path start).2.memory := .call trivial
      have henv := select_env path start
      rw [hcondition] at h
      have heq : select path start = (reply, t) := h
      rw [heq] at hcall henv
      exact ⟨hcall, fun _ => hleave henv⟩
    | some c =>
      rw [hcondition] at h
      have heq : solve d w rounds c path path (select path) start = (reply, t) := h
      have hserves := solve_serves_answers hd w rounds hm hb hcondition scope (s := start)
        (hbinds.compact hs) (hpath ▸ hbinds.clear_child hclear _)
      rw [hpath] at hserves
      obtain ⟨htidy, hdelivered⟩ := hserves (fun _ => True) (select path) trivial
        fun u _ => .of_eq (select_env path u) _
      rw [Tidy, heq] at htidy
      rw [heq] at hdelivered
      refine ⟨?_, fun hreply => hleave (htidy.eq_of_ne_fail hreply)⟩
      exact (hdelivered.mono fun _ _ => trivial).mono_halts fun e he => ⟨c, hcondition, he⟩

/-- A branch gives the answer at the place it is asked for, if the search ends without an error. -/
theorem solution?_eq (hd : d.nodeIds.Nodup) (w : World) (rounds : Nat) (hm : m ∈ d.methods)
    (hb : b ∈ m.branches) (actuals : List Value) (scope skip : Nat) {s : State Unit}
    (hs : s.env.Compact) (hclear : Clear (branchPath scope m b) s.env)
    {result : Except SolveError (Option Solution)} {t : State Unit}
    (h : solution? d w rounds ((Path.ofTask scope).child (.node m.id)) m b actuals skip s =
      (result, t)) :
    (∃ e, result = .error e ∧ BranchHalts d w rounds b e) ∨
      result = .ok ((b.answers d w m actuals)[skip]?.map
        (⟨·, decide (skip + 1 < (b.answers d w m actuals).length)⟩)) ∧ t.env = s.env := by
  have hne : b.id ≠ m.id := by
    intro heq
    exact Domain.method_not_mem_branch hd hm hb (heq ▸ List.mem_cons_self)
  have hadmits : ((Path.ofTask scope).child (.node m.id)).contains (.node b.id) = false := by
    have hroot : (Path.ofTask scope).contains (.node b.id) = false := rfl
    simp [contains_child, hroot, hne]
  unfold solution? at h
  cases hsearch : branchSearch d w rounds m b actuals (branchPath scope m b)
      ⟨s.env, s.counters, { skip }⟩ with
  | mk reply u =>
    obtain ⟨hdelivered, hleave⟩ := branchSearch_delivers hd w rounds hm hb actuals scope
      (s := ⟨s.env, s.counters, { skip }⟩) hs hclear hsearch
    have hwithin : within ((Path.ofTask scope).child (.node m.id)) (.node b.id)
        (fun s => (.more, s)) (branchSearch d w rounds m b actuals) ⟨s.env, s.counters, { skip }⟩ =
        (reply, u.mapEnv (·.leave (branchPath scope m b))) := by
      rw [branchPath] at hsearch ⊢
      simp only [within, admits, hadmits, Bool.not_false, ↓reduceIte, hsearch]
    dsimp only at h
    rw [hwithin] at h
    cases reply with
    | fail e =>
      cases h
      refine .inl ⟨e, rfl, ?_⟩
      rcases hdelivered.halts_or_fails with hhalts | ⟨v, v', _, hfail⟩
      · exact hhalts
      · unfold select at hfail
        split at hfail <;> cases hfail
    | stop =>
      cases h
      obtain ⟨hselected, -⟩ := select_delivered hdelivered (by simp) rfl
      obtain ⟨htaken, hmore⟩ := hselected rfl
      refine .inr ⟨?_, hleave (by simp)⟩
      simp only [State.mapEnv, htaken, hmore]
    | more =>
      cases h
      obtain ⟨hselected, -⟩ := select_delivered hdelivered (by simp) rfl
      obtain ⟨htaken, hmore⟩ := hselected rfl
      refine .inr ⟨?_, hleave (by simp)⟩
      simp only [State.mapEnv, htaken, hmore]

end Branch

/-- The branch is taken at the first choice from `first` on at which the method has an answer. -/
structure Takes (d : Domain) (w : World) (m : Method) (actuals : List Value) (first : Choice)
    (taken : TakenBranch) : Prop where
  offers : Offers d w m actuals taken.choice taken.branch taken.solution.bindings
  from_le : first ≤ taken.choice
  least : ∀ c b g, Offers d w m actuals c b g → first ≤ c → taken.choice ≤ c
  more_eq : taken.solution.more =
    decide (taken.choice.solution + 1 < (taken.branch.answers d w m actuals).length)

section Method

variable {d : Domain} {w : World} {rounds scope i : Nat} {m : Method} {b : Branch}
  {actuals : List Value} {choice : Choice}

/-- One branch is taken at its first answer from the choice on, or has none. -/
theorem tryBranch_takes (hd : d.nodeIds.Nodup) (hm : m ∈ d.methods) (hi : m.branches[i]? = some b)
    (hle : choice.branch ≤ i) {s t : State (Option TakenBranch)} (hs : s.env.Compact)
    (hclear : Clear (branchPath scope m b) s.env) {reply : Reply}
    (h : tryBranch d w rounds m actuals choice ((Path.ofTask scope).child (.node m.id)) i s =
      (reply, t)) :
    (∃ e, reply = .fail e ∧ BranchHalts d w rounds b e) ∨
      (reply = .more ∧ t.env = s.env ∧ t.memory = s.memory ∧
        ∀ c b g, Offers d w m actuals c b g → choice ≤ c → c.branch ≠ i) ∨
      ∃ taken, reply = .stop ∧ t.memory = some taken ∧ taken.choice.branch = i ∧
        choice ≤ taken.choice ∧
        Offers d w m actuals taken.choice taken.branch taken.solution.bindings ∧
        taken.solution.more =
          decide (taken.choice.solution + 1 < (taken.branch.answers d w m actuals).length) ∧
        ∀ c b g, Offers d w m actuals c b g → choice ≤ c → c.branch = i → taken.choice ≤ c := by
  obtain ⟨skip, hskip⟩ : ∃ skip, (if i = choice.branch then choice.solution else 0) = skip :=
    ⟨_, rfl⟩
  -- From the choice on means from `skip` on in this branch.
  have hfrom (c : Choice) (hc : choice ≤ c) (hbranch : c.branch = i) : skip ≤ c.solution := by
    rw [Choice.le_def] at hc
    subst hskip
    split <;> omega
  have hchoice : choice ≤ ⟨i, skip⟩ := by
    rw [Choice.le_def]
    subst hskip
    show choice.branch < i ∨
      choice.branch = i ∧ choice.solution ≤ if i = choice.branch then choice.solution else 0
    split <;> omega
  have hb : b ∈ m.branches := List.mem_of_getElem? hi
  unfold tryBranch at h
  rw [hi] at h
  dsimp only at h
  rw [hskip] at h
  cases hsolution : solution? d w rounds ((Path.ofTask scope).child (.node m.id)) m b actuals skip
      ⟨s.env, s.counters, ()⟩ with
  | mk result u =>
    rw [hsolution] at h
    rcases solution?_eq hd w rounds hm hb actuals scope skip (s := ⟨s.env, s.counters, ()⟩) hs hclear
      hsolution with ⟨e, rfl, hhalts⟩ | ⟨hresult, henv⟩
    · cases h
      exact .inl ⟨e, rfl, hhalts⟩
    · cases hanswer : (b.answers d w m actuals)[skip]? with
      | none =>
        rw [hanswer] at hresult
        subst hresult
        cases h
        refine .inr (.inl ⟨rfl, henv, rfl, fun c b' g hoffers hc hbranch => ?_⟩)
        obtain ⟨hb', hg⟩ := hoffers
        rw [hbranch, hi] at hb'
        cases hb'
        have hskip := hfrom c hc hbranch
        have hlength := List.getElem?_eq_none_iff.mp hanswer
        rw [List.getElem?_eq_none (by omega)] at hg
        cases hg
      | some g =>
        rw [hanswer] at hresult
        subst hresult
        cases h
        refine .inr (.inr ⟨_, rfl, rfl, rfl, hchoice, ⟨hi, hanswer⟩, rfl, fun c b' g' _ hc hbranch => ?_⟩)
        rw [Choice.le_def]
        exact .inr ⟨hbranch.symm, hfrom c hc hbranch⟩

/-- The branches from the cursor on are tried in turn. -/
theorem scan_takes (hd : d.nodeIds.Nodup) (hm : m ∈ d.methods) {before : Environment}
    (hbefore : before.Compact) (hclear : Clear ((Path.ofTask scope).child (.node m.id)) before)
    (left : Nat) {i : Nat} {s t : State (Option TakenBranch)} {reply : Reply}
    (hcursor : CursorAt ((Path.ofTask scope).child (.node m.id)) i before s.env)
    (hle : choice.branch ≤ i) (hleft : m.branches.length ≤ left + i) (hmemory : s.memory = none)
    (hpassed : ∀ c b g, Offers d w m actuals c b g → choice ≤ c → i ≤ c.branch)
    (h : scan ((Path.ofTask scope).child (.node m.id)) m.branches.length
      (tryBranch d w rounds m actuals choice ((Path.ofTask scope).child (.node m.id))) left s =
        (reply, t)) :
    (∃ e, reply = .fail e ∧ ∃ b ∈ m.branches, BranchHalts d w rounds b e) ∨
      (reply = .more ∧ t.memory = none ∧ ∀ c b g, Offers d w m actuals c b g → ¬choice ≤ c) ∨
      ∃ taken, reply = .stop ∧ t.memory = some taken ∧ Takes d w m actuals choice taken := by
  obtain ⟨path, hpath⟩ : ∃ path, (Path.ofTask scope).child (.node m.id) = path := ⟨_, rfl⟩
  rw [hpath] at h hcursor hclear
  -- No branch is left when the cursor is at the end.
  have hend {i : Nat} (hi : ¬i < m.branches.length)
      (hpassed : ∀ c b g, Offers d w m actuals c b g → choice ≤ c → i ≤ c.branch) :
      ∀ c b g, Offers d w m actuals c b g → ¬choice ≤ c := by
    intro c b g hoffers hc
    have hpast := hpassed c b g hoffers hc
    have hhere := (List.getElem?_eq_some_iff.mp hoffers.1).1
    omega
  induction left generalizing i s with
  | zero =>
    have hi : ¬i < m.branches.length := by omega
    simp only [scan, hcursor.cursor_eq, hi, ↓reduceIte] at h
    cases h
    exact .inr (.inl ⟨rfl, hmemory, hend hi hpassed⟩)
  | succ left ih =>
    by_cases hi : i < m.branches.length
    · have hget : m.branches[i]? = some m.branches[i] := List.getElem?_eq_getElem hi
      simp only [scan, hcursor.cursor_eq, hi, ↓reduceIte] at h
      cases htry : tryBranch d w rounds m actuals choice path i s with
      | mk reply' u =>
        rw [htry] at h
        have hinner : Clear (branchPath scope m m.branches[i]) s.env := by
          rw [branchPath, hpath]
          exact hcursor.clear_child hclear _
        rcases tryBranch_takes hd hm hget hle (hcursor.compact hbefore) hinner (hpath ▸ htry) with
          ⟨e, rfl, hhalts⟩ | ⟨rfl, henv, hkept, hnone⟩ |
          ⟨taken, rfl, htaken, hbranch, hfrom, hoffers, hmore, hleast⟩
        · cases h
          exact .inl ⟨e, rfl, _, List.getElem_mem hi, hhalts⟩
        · have hsame : CursorAt path i before u.env := henv ▸ hcursor
          have hpassed' (c : Choice) (b : Branch) (g : Frame) (hoffers : Offers d w m actuals c b g)
              (hc : choice ≤ c) : i + 1 ≤ c.branch := by
            have hpast := hpassed c b g hoffers hc
            have hother := hnone c b g hoffers hc
            omega
          exact ih (s := u.mapEnv (·.advance path)) (by omega) (by omega) (hkept.trans hmemory)
            hpassed' hsame.advance h
        · cases h
          refine .inr (.inr ⟨taken, rfl, htaken, hoffers, hfrom, fun c b g hc hle => ?_, hmore⟩)
          by_cases hsame : c.branch = i
          · exact hleast c b g hc hle hsame
          · have hpast := hpassed c b g hc hle
            rw [Choice.le_def, hbranch]
            omega
    · simp only [scan, hcursor.cursor_eq, hi, ↓reduceIte] at h
      cases h
      exact .inr (.inl ⟨rfl, hmemory, hend hi hpassed⟩)

theorem choose_takes (hd : d.nodeIds.Nodup) (hm : m ∈ d.methods) {t : PendingTask} {s : Search}
    (hs : s.agenda.environment = {}) {result : Except SolveError (Option TakenBranch)} {s' : Search}
    (h : Search.choose d w rounds t m actuals s = (result, s')) :
    s'.agenda = s.agenda ∧
      ((∃ e, result = .error e ∧ ∃ b ∈ m.branches, BranchHalts d w rounds b e) ∨
        (result = .ok none ∧ ∀ c b g, Offers d w m actuals c b g → ¬t.choice ≤ c) ∨
        ∃ taken, result = .ok (some taken) ∧ Takes d w m actuals t.choice taken) := by
  obtain ⟨path, hpath⟩ : ∃ path, (Path.ofTask t.scope).child (.node m.id) = path := ⟨_, rfl⟩
  obtain ⟨start, hstart⟩ : ∃ start : State (Option TakenBranch),
    ⟨s.agenda.environment, s.counters, none⟩ = start := ⟨_, rfl⟩
  have hleft := takeBranch_env d w rounds m actuals (Path.ofTask t.scope) t.choice start
    (hstart ▸ hs)
  have hclear : Clear path start.env := by
    rw [← hstart]
    show Clear path s.agenda.environment
    rw [hs]
    exact clear_empty path
  have hcompact : start.env.Compact := by
    rw [← hstart]
    show s.agenda.environment.Compact
    rw [hs]
    exact compact_empty
  cases hscan : scan path m.branches.length (tryBranch d w rounds m actuals t.choice path)
      m.branches.length (start.mapEnv (·.setCursor path t.choice.branch)) with
  | mk reply u =>
    have htake : takeBranch d w rounds m actuals (Path.ofTask t.scope) t.choice start =
        (reply, u.mapEnv (·.leave path)) := by
      have hadmits : (Path.ofTask t.scope).contains (.node m.id) = false := rfl
      simp only [takeBranch, within, admits, hadmits, Bool.not_false, ↓reduceIte, hpath, hscan]
    unfold Search.choose at h
    rw [hstart, htake] at h
    rw [htake] at hleft
    have hpassed (c : Choice) (b : Branch) (g : Frame) (_ : Offers d w m actuals c b g)
        (hc : t.choice ≤ c) : t.choice.branch ≤ c.branch := by
      rw [Choice.le_def] at hc
      omega
    have hagenda : { s.agenda with environment := (u.mapEnv (·.leave path)).env } = s.agenda := by
      rw [show (u.mapEnv (·.leave path)).env = s.agenda.environment from hleft.trans hs.symm]
    subst hpath hstart
    have hscanned := scan_takes hd hm hcompact hclear m.branches.length
      (.setCursor hclear t.choice.branch) (Nat.le_refl _) (Nat.le_add_right _ _) rfl hpassed hscan
    rcases hscanned with ⟨e, rfl, hhalts⟩ | ⟨rfl, hmemory, hnone⟩ | ⟨taken, rfl, hmemory, htakes⟩
    · cases h
      exact ⟨hagenda, .inl ⟨e, rfl, hhalts⟩⟩
    · cases h
      exact ⟨hagenda, .inr (.inl ⟨congrArg Except.ok hmemory, hnone⟩)⟩
    · cases h
      exact ⟨hagenda, .inr (.inr ⟨taken, congrArg Except.ok hmemory, htakes⟩)⟩

end Method

end TaskNetwork.Decomposition
