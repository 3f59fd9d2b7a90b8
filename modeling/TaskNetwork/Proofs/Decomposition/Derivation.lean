import TaskNetwork.Decomposition.Search
import TaskNetwork.Proofs.Solver.Answers

/-! Derivations. A list of tasks is derived by a tree: a primitive task gives a step of the plan,
and a compound one the tasks of a branch of its method, with the bindings of an answer of the branch.
The choices of a derivation stand in the order in which its compound tasks are met. -/

namespace TaskNetwork.Decomposition

namespace Choice

/-- The earlier branch comes first and, in one branch, the earlier solution. -/
instance : LT Choice where
  lt a b := a.branch < b.branch ∨ a.branch = b.branch ∧ a.solution < b.solution

instance : LE Choice where
  le a b := a.branch < b.branch ∨ a.branch = b.branch ∧ a.solution ≤ b.solution

variable {a b : Choice}

theorem lt_def : a < b ↔ a.branch < b.branch ∨ a.branch = b.branch ∧ a.solution < b.solution :=
  Iff.rfl

theorem le_def : a ≤ b ↔ a.branch < b.branch ∨ a.branch = b.branch ∧ a.solution ≤ b.solution :=
  Iff.rfl

instance : Std.Asymm (fun a b : Choice => a < b) where
  asymm a b h h' := by
    rw [lt_def] at h h'
    omega

def next (c : Choice) : Choice := { c with solution := c.solution + 1 }

theorem next_le_iff : a.next ≤ b ↔ a < b := by
  rw [lt_def, le_def]
  exact Iff.rfl

theorem first_le (c : Choice) : ({} : Choice) ≤ c := by
  rw [le_def]
  show 0 < c.branch ∨ 0 = c.branch ∧ 0 ≤ c.solution
  omega

theorem lt_or_eq_of_le (h : a ≤ b) : a < b ∨ a = b := by
  rw [le_def] at h
  rw [lt_def]
  by_cases hbranch : a.branch = b.branch
  · by_cases hsolution : a.solution = b.solution
    · obtain ⟨branch, solution⟩ := a
      cases hbranch
      cases hsolution
      exact .inr rfl
    · omega
  · omega

theorem le_of_lt (h : a < b) : a ≤ b := by
  rw [lt_def] at h
  rw [le_def]
  omega

theorem le_trans {c : Choice} (h : a ≤ b) (h' : b ≤ c) : a ≤ c := by
  rw [le_def] at *
  omega

end Choice

/-- At a choice, the method has a branch, and the branch an answer. -/
def Offers (d : Domain) (w : World) (m : Method) (actuals : List Value) (c : Choice) (b : Branch)
    (g : Frame) : Prop :=
  m.branches[c.branch]? = some b ∧ (b.answers d w m actuals)[c.solution]? = some g

/-- The derivations of tasks that are called from one frame, with their choices and plans. -/
inductive Derives (d : Domain) (w : World) : Frame → List Task → List Choice → Plan → Prop
  | nil (f : Frame) : Derives d w f [] [] []
  | primitive {f : Frame} {t : Task} {ts : List Task} {args : List Value} {cs : List Choice}
      {p : Plan} : d.method? t.name t.arity = none → evalAll? d f.value t.args = some args →
      args.all Value.isGround = true → Derives d w f ts cs p →
      Derives d w f (t :: ts) cs (⟨t.name, args⟩ :: p)
  | compound {f g : Frame} {t : Task} {ts : List Task} {m : Method} {actuals : List Value}
      {c : Choice} {b : Branch} {cs cs' : List Choice} {p p' : Plan} :
      d.method? t.name t.arity = some m → evalAll? d f.value t.args = some actuals →
      Offers d w m actuals c b g → Derives d w g b.tasks cs p → Derives d w f ts cs' p' →
      Derives d w f (t :: ts) (c :: (cs ++ cs')) (p ++ p')

/-- What two sets of derivations make one after the other. -/
def Then (first second : List Choice → Plan → Prop) (cs : List Choice) (p : Plan) : Prop :=
  ∃ cs₁ p₁ cs₂ p₂, first cs₁ p₁ ∧ second cs₂ p₂ ∧ cs = cs₁ ++ cs₂ ∧ p = p₁ ++ p₂

theorem then_assoc {first second third : List Choice → Plan → Prop} {cs : List Choice} {p : Plan} :
    Then (Then first second) third cs p ↔ Then first (Then second third) cs p := by
  constructor
  · rintro ⟨_, _, cs₃, p₃, ⟨cs₁, p₁, cs₂, p₂, h₁, h₂, rfl, rfl⟩, h₃, rfl, rfl⟩
    exact ⟨cs₁, p₁, _, _, h₁, ⟨cs₂, p₂, cs₃, p₃, h₂, h₃, rfl, rfl⟩, List.append_assoc ..,
      List.append_assoc ..⟩
  · rintro ⟨cs₁, p₁, _, _, h₁, ⟨cs₂, p₂, cs₃, p₃, h₂, h₃, rfl, rfl⟩, rfl, rfl⟩
    exact ⟨_, _, cs₃, p₃, ⟨cs₁, p₁, cs₂, p₂, h₁, h₂, rfl, rfl⟩, h₃, (List.append_assoc ..).symm,
      (List.append_assoc ..).symm⟩

theorem then_congr {first first' second second' : List Choice → Plan → Prop} {cs : List Choice}
    {p : Plan} (hfirst : ∀ cs p, first cs p ↔ first' cs p)
    (hsecond : ∀ cs p, second cs p ↔ second' cs p) :
    Then first second cs p ↔ Then first' second' cs p := by
  simp only [Then, hfirst, hsecond]

section Derivations

variable {d : Domain} {w : World} {f : Frame} {t : Task} {ts : List Task} {cs : List Choice}
  {p : Plan}

theorem derives_nil_iff : Derives d w f [] cs p ↔ cs = [] ∧ p = [] := by
  constructor
  · intro h
    cases h
    exact ⟨rfl, rfl⟩
  · rintro ⟨rfl, rfl⟩
    exact .nil f

theorem nil_then {second : List Choice → Plan → Prop} :
    Then (Derives d w f []) second cs p ↔ second cs p := by
  constructor
  · rintro ⟨_, _, _, _, hnil, h, rfl, rfl⟩
    obtain ⟨rfl, rfl⟩ := derives_nil_iff.mp hnil
    exact h
  · exact fun h => ⟨[], [], cs, p, .nil f, h, rfl, rfl⟩

/-- Tasks of one frame are derived one after the other. -/
theorem derives_cons_iff :
    Derives d w f (t :: ts) cs p ↔ Then (Derives d w f [t]) (Derives d w f ts) cs p := by
  constructor
  · intro h
    cases h with
    | primitive hmethod hargs hground hrest =>
      exact ⟨[], [_], _, _, .primitive hmethod hargs hground (.nil f), hrest, rfl, rfl⟩
    | compound hmethod hactuals hoffers hbranch hrest =>
      have htask := Derives.compound hmethod hactuals hoffers hbranch (.nil f)
      rw [List.append_nil, List.append_nil] at htask
      exact ⟨_, _, _, _, htask, hrest, rfl, rfl⟩
  · rintro ⟨_, _, _, _, htask, hrest, rfl, rfl⟩
    cases htask with
    | primitive hmethod hargs hground hnil =>
      obtain ⟨rfl, rfl⟩ := derives_nil_iff.mp hnil
      exact .primitive hmethod hargs hground hrest
    | compound hmethod hactuals hoffers hbranch hnil =>
      obtain ⟨rfl, rfl⟩ := derives_nil_iff.mp hnil
      rw [List.append_nil, List.append_nil]
      exact .compound hmethod hactuals hoffers hbranch hrest

theorem derives_primitive_iff (hmethod : d.method? t.name t.arity = none) :
    Derives d w f [t] cs p ↔ cs = [] ∧ ∃ args, evalAll? d f.value t.args = some args ∧
      args.all Value.isGround = true ∧ p = [⟨t.name, args⟩] := by
  constructor
  · intro h
    cases h with
    | primitive _ hargs hground hnil =>
      obtain ⟨rfl, rfl⟩ := derives_nil_iff.mp hnil
      exact ⟨rfl, _, hargs, hground, rfl⟩
    | compound hmethod' =>
      rw [hmethod] at hmethod'
      cases hmethod'
  · rintro ⟨rfl, args, hargs, hground, rfl⟩
    exact .primitive hmethod hargs hground (.nil f)

theorem derives_compound_iff {m : Method} (hmethod : d.method? t.name t.arity = some m) :
    Derives d w f [t] cs p ↔ ∃ actuals c b g cs', evalAll? d f.value t.args = some actuals ∧
      Offers d w m actuals c b g ∧ Derives d w g b.tasks cs' p ∧ cs = c :: cs' := by
  constructor
  · intro h
    cases h with
    | primitive hmethod' =>
      rw [hmethod] at hmethod'
      cases hmethod'
    | compound hmethod' hactuals hoffers hbranch hnil =>
      obtain ⟨rfl, rfl⟩ := derives_nil_iff.mp hnil
      rw [hmethod] at hmethod'
      cases hmethod'
      rw [List.append_nil, List.append_nil]
      exact ⟨_, _, _, _, _, hactuals, hoffers, hbranch, rfl⟩
  · rintro ⟨actuals, c, b, g, cs', hactuals, hoffers, hbranch, rfl⟩
    have h := Derives.compound hmethod hactuals hoffers hbranch (.nil f)
    rwa [List.append_nil, List.append_nil] at h

end Derivations

/-- The derivations of a task that waits: choices before the one at which it is to go on are left
out. -/
def PendingTask.Derives (d : Domain) (w : World) (t : PendingTask) (cs : List Choice) (p : Plan) :
    Prop :=
  Decomposition.Derives d w t.bindings [t.call] cs p ∧ ∀ c ∈ cs.head?, t.choice ≤ c

/-- What the tasks that wait can come to. -/
def Completes (d : Domain) (w : World) : List PendingTask → List Choice → Plan → Prop
  | [], cs, p => cs = [] ∧ p = []
  | t :: rest, cs, p => Then (t.Derives d w) (Completes d w rest) cs p

section Pending

variable {d : Domain} {w : World} {t : PendingTask} {rest fresh : List PendingTask}
  {cs : List Choice} {p : Plan}

theorem completes_primitive_iff (hmethod : d.method? t.call.name t.call.arity = none) :
    Completes d w (t :: rest) cs p ↔ ∃ args p', evalAll? d t.bindings.value t.call.args = some args ∧
      args.all Value.isGround = true ∧ Completes d w rest cs p' ∧ p = ⟨t.call.name, args⟩ :: p' := by
  constructor
  · rintro ⟨_, _, cs', p', ⟨htask, -⟩, hrest, rfl, rfl⟩
    obtain ⟨rfl, args, hargs, hground, rfl⟩ := (derives_primitive_iff hmethod).mp htask
    exact ⟨args, p', hargs, hground, hrest, rfl⟩
  · rintro ⟨args, p', hargs, hground, hrest, rfl⟩
    refine ⟨[], [_], cs, p', ⟨?_, by simp⟩, hrest, rfl, rfl⟩
    exact (derives_primitive_iff hmethod).mpr ⟨rfl, args, hargs, hground, rfl⟩

theorem completes_compound_iff {m : Method}
    (hmethod : d.method? t.call.name t.call.arity = some m) :
    Completes d w (t :: rest) cs p ↔ ∃ actuals c b g cs',
      evalAll? d t.bindings.value t.call.args = some actuals ∧ Offers d w m actuals c b g ∧
        t.choice ≤ c ∧ Then (Derives d w g b.tasks) (Completes d w rest) cs' p ∧ cs = c :: cs' := by
  constructor
  · rintro ⟨_, _, cs₂, p₂, ⟨htask, hchoice⟩, hrest, rfl, rfl⟩
    obtain ⟨actuals, c, b, g, cs₁, hactuals, hoffers, hbranch, rfl⟩ :=
      (derives_compound_iff hmethod).mp htask
    exact ⟨actuals, c, b, g, _, hactuals, hoffers, hchoice c rfl,
      ⟨cs₁, _, cs₂, p₂, hbranch, hrest, rfl, rfl⟩, rfl⟩
  · rintro ⟨actuals, c, b, g, _, hactuals, hoffers, hchoice,
      ⟨cs₁, p₁, cs₂, p₂, hbranch, hrest, rfl, rfl⟩, rfl⟩
    refine ⟨c :: cs₁, p₁, cs₂, p₂, ⟨?_, ?_⟩, hrest, rfl, rfl⟩
    · exact (derives_compound_iff hmethod).mpr
        ⟨actuals, c, b, g, cs₁, hactuals, hoffers, hbranch, rfl⟩
    · rintro _ ⟨rfl⟩
      exact hchoice

/-- The tasks of a branch wait from the first choice on. -/
def Fresh (calls : List Task) (g : Frame) (fresh : List PendingTask) : Prop :=
  fresh.map (·.call) = calls ∧ ∀ t ∈ fresh, t.bindings = g ∧ t.choice = {}

theorem completes_fresh_append {calls : List Task} {g : Frame} (h : Fresh calls g fresh) :
    Completes d w (fresh ++ rest) cs p ↔ Then (Derives d w g calls) (Completes d w rest) cs p := by
  obtain ⟨rfl, hfresh⟩ := h
  induction fresh generalizing cs p with
  | nil => exact nil_then.symm
  | cons t fresh ih =>
    obtain ⟨hbindings, hchoice⟩ := hfresh t List.mem_cons_self
    have htask (cs : List Choice) (p : Plan) : t.Derives d w cs p ↔ Derives d w g [t.call] cs p := by
      rw [PendingTask.Derives, hbindings, hchoice]
      exact and_iff_left fun c _ => c.first_le
    have hrest (cs : List Choice) (p : Plan) : Completes d w (fresh ++ rest) cs p ↔
        Then (Derives d w g (fresh.map (·.call))) (Completes d w rest) cs p :=
      ih fun t ht => hfresh t (List.mem_cons_of_mem _ ht)
    calc Completes d w (t :: fresh ++ rest) cs p
      _ ↔ Then (Derives d w g [t.call])
          (Then (Derives d w g (fresh.map (·.call))) (Completes d w rest)) cs p :=
        then_congr htask hrest
      _ ↔ Then (Then (Derives d w g [t.call]) (Derives d w g (fresh.map (·.call))))
          (Completes d w rest) cs p := then_assoc.symm
      _ ↔ Then (Derives d w g ((t :: fresh).map (·.call))) (Completes d w rest) cs p :=
        then_congr (fun _ _ => derives_cons_iff.symm) fun _ _ => Iff.rfl

/-- What a branch brings in waits before everything else. -/
theorem pushAll_eq (a : Agenda) (calls : List Task) (g : Frame) :
    ∃ fresh nextScope, Fresh calls g fresh ∧ a.pushAll calls g =
      { a with current.pending := fresh ++ a.current.pending, nextScope } := by
  induction calls with
  | nil => exact ⟨[], a.nextScope, ⟨rfl, by simp⟩, rfl⟩
  | cons call calls ih =>
    obtain ⟨fresh, nextScope, ⟨hcalls, hfresh⟩, heq⟩ := ih
    refine ⟨⟨call, nextScope, g, {}⟩ :: fresh, (nextScope + 1) % Agenda.scopeCount, ⟨?_, ?_⟩, ?_⟩
    · rw [List.map_cons, hcalls]
    · rintro t ht
      rcases List.mem_cons.mp ht with rfl | ht
      · exact ⟨rfl, rfl⟩
      · exact hfresh t ht
    · show (fun a : Agenda => a.freshScope.2.push ⟨call, a.freshScope.1, g, {}⟩)
        (a.pushAll calls g) = _
      rw [heq]
      rfl

end Pending

end TaskNetwork.Decomposition
