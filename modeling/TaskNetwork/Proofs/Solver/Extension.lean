import TaskNetwork.Proofs.Solver.Enumeration

/-! Answers keep what is known. Every answer of a condition has the bindings of the frame from which
it was found, with the same values. -/

namespace TaskNetwork

namespace Frame

/-- The variables that the first frame binds have the same values in the second. -/
def Extends (f g : Frame) : Prop := ∀ x, (f.value x).isBound → g.value x = f.value x

section Extension

variable {f g h : Frame} {α β : Type} {treat : α → β → Frame → Option Frame}

theorem Extends.refl (f : Frame) : Extends f f := fun _ _ => rfl

theorem Extends.trans (hfg : Extends f g) (hgh : Extends g h) : Extends f h := fun x hx => by
  rw [hgh x (by rw [hfg x hx]; exact hx), hfg x hx]

theorem value_put (f : Frame) (x : Symbol) (v : Value) : Frame.value (f.put x v) x = v := by
  simp [Frame.value, Assignment.get?_put_self]

theorem unify?_extends {x : Symbol} {v : Value} (hg : f.unify? x v = some g) : Extends f g := by
  unfold unify? at hg
  split at hg
  · split at hg
    · cases hg
      exact .refl f
    · cases hg
  · next hfree =>
    cases hg
    intro y hy
    have hne : x ≠ y := by
      rintro rfl
      exact hfree hy
    simp [Frame.value, Assignment.get?_put_of_ne hne]

theorem eachPair?_extends (htreat : ∀ a b f g, treat a b f = some g → Extends f g) {as : List α}
    {bs : List β} (hg : eachPair? treat as bs f = some g) : Extends f g := by
  induction as generalizing bs f with
  | nil =>
    cases hg
    exact .refl _
  | cons a as ih =>
    cases bs with
    | nil =>
      cases hg
      exact .refl _
    | cons b bs =>
      obtain ⟨f', hfirst, hrest⟩ := Option.bind_eq_some_iff.mp hg
      exact (htreat _ _ _ _ hfirst).trans (ih hrest)

/-- What the treatment of one pair brings about and extensions keep holds after all pairs. -/
theorem eachPair?_settles (holds : Frame → Prop)
    (htreat : ∀ a b f g, treat a b f = some g → Extends f g)
    (hkeep : ∀ f g, Extends f g → holds f → holds g) {as : List α} {bs : List β} {i : Nat} {a : α}
    {b : β} (ha : as[i]? = some a) (hb : bs[i]? = some b)
    (hholds : ∀ f g, treat a b f = some g → holds g) (hg : eachPair? treat as bs f = some g) :
    holds g := by
  induction as generalizing bs f i with
  | nil => cases ha
  | cons a' as ih =>
    cases bs with
    | nil => cases hb
    | cons b' bs =>
      obtain ⟨f', hfirst, hrest⟩ := Option.bind_eq_some_iff.mp hg
      cases i with
      | zero =>
        obtain rfl := Option.some.inj ha
        obtain rfl := Option.some.inj hb
        exact hkeep _ _ (eachPair?_extends htreat hrest) (hholds _ _ hfirst)
      | succ i => exact ih ha hb hrest

end Extension

end Frame

section Treatments

variable {d : Domain} {f g : Frame} {v : Value}

theorem column?_extends {t : Term} (hg : t.column? v f = some g) : f.Extends g := by
  cases t with
  | literal | constant =>
    cases hg
    exact .refl f
  | var role x =>
    cases role with
    | wildcard =>
      cases hg
      exact .refl f
    | input | output | inOut => exact Frame.unify?_extends hg

theorem deliver_extends {target : Symbol} {u : Value}
    (hg : (if u.isBound then f.unify? target u else some f) = some g) : f.Extends g := by
  split at hg
  · exact Frame.unify?_extends hg
  · cases hg
    exact .refl f

/-- Handing back leaves the frame as it was, or delivers a value to a variable. -/
theorem handBack?_delivers {callee : Frame} {param arg : Term}
    (hg : param.handBack? d callee arg f = some g) :
    g = f ∨ ∃ role x u, arg = .var role x ∧
      (if u.isBound then f.unify? x u else some f) = some g := by
  unfold Term.handBack? at hg
  split at hg
  · exact .inl (Option.some.inj hg).symm
  · exact .inl (Option.some.inj hg).symm
  · exact .inl (Option.some.inj hg).symm
  · split at hg
    · exact .inr ⟨_, _, _, rfl, hg⟩
    · exact .inr ⟨_, _, _, rfl, hg⟩
    · exact .inl (Option.some.inj hg).symm
    · exact .inl (Option.some.inj hg).symm
    · obtain ⟨u, -, hdeliver⟩ := Option.bind_eq_some_iff.mp hg
      exact .inr ⟨_, _, u, rfl, hdeliver⟩

theorem handBack?_extends {callee : Frame} {param arg : Term}
    (hg : param.handBack? d callee arg f = some g) : f.Extends g := by
  rcases handBack?_delivers hg with rfl | ⟨role, x, u, -, hdeliver⟩
  · exact .refl g
  · exact deliver_extends hdeliver

theorem enter?_extends {param : Term} (hg : param.enter? d v f = some g) : f.Extends g := by
  unfold Term.enter? at hg
  split at hg
  · cases hg
    exact .refl f
  · cases hg
    exact .refl f
  · split at hg
    · exact Frame.unify?_extends hg
    · cases hg
  · exact deliver_extends hg
  · obtain ⟨u, -, hsame⟩ := Option.bind_eq_some_iff.mp hg
    split at hsame
    · cases hsame
      exact .refl f
    · cases hsame

end Treatments

namespace Solver

section Answers

variable {d : Domain} {w : World} {f g : Frame}

theorem rowAnswer?_extends {args : List Term} {query : List Value} {row : Row}
    (hg : rowAnswer? args query f row = some g) : f.Extends g := by
  obtain ⟨values, -, hg⟩ := Option.bind_eq_some_iff.mp hg
  exact Frame.eachPair?_extends (fun _ _ _ _ => column?_extends) hg

theorem factAnswers_extends {name : Symbol} {args : List Term}
    (hg : g ∈ factAnswers d w name args f) : f.Extends g := by
  unfold factAnswers at hg
  split at hg
  · cases hg
  · obtain ⟨row, -, hrow⟩ := List.mem_filterMap.mp hg
    exact rowAnswer?_extends hrow

theorem callAnswers_extends {body : Clause → Frame → List Frame} {name : Symbol} {args : List Term}
    (hg : g ∈ callAnswers d body name args f) : f.Extends g := by
  unfold callAnswers at hg
  split at hg
  · cases hg
  · obtain ⟨c, -, hc⟩ := List.mem_flatMap.mp hg
    unfold Clause.answers at hc
    split at hc
    · cases hc
    · obtain ⟨callee, -, hback⟩ := List.mem_filterMap.mp hc
      exact Frame.eachPair?_extends (fun _ _ _ _ => handBack?_extends) hback

theorem foldr_extends {answers : Condition → Frame → List Frame} (children : List Condition)
    (h : ∀ c f g, g ∈ answers c f → f.Extends g)
    (hg : g ∈ children.foldr (fun c rest f => (answers c f).flatMap rest) (fun f => [f]) f) :
    f.Extends g := by
  induction children generalizing f with
  | nil =>
    obtain rfl := List.mem_singleton.mp hg
    exact .refl _
  | cons c cs ih =>
    obtain ⟨f', hfirst, hrest⟩ := List.mem_flatMap.mp hg
    exact (h c _ _ hfirst).trans (ih hrest)

/-- An answer keeps the bindings of the frame from which it was found. -/
theorem pathAnswers_extends (depth : Nat) : ∀ (c : Condition) (parent : Path) {f g : Frame},
    g ∈ pathAnswers d w depth c parent f → f.Extends g := by
  induction depth with
  | zero => exact fun _ _ _ _ hg => nomatch hg
  | succ depth ih =>
    intro c parent f g hg
    unfold pathAnswers at hg
    split at hg
    · cases hg
    · cases c with
      | fact id name args => exact factAnswers_extends hg
      | derived id name args => exact callAnswers_extends hg
      | all id children => exact foldr_extends children (fun x _ _ => ih x _) hg
      | any id children =>
        obtain ⟨x, -, hx⟩ := List.mem_flatMap.mp hg
        exact ih x _ hx
      | not id child =>
        dsimp only at hg
        split at hg
        · obtain rfl := List.mem_singleton.mp hg
          exact .refl _
        · cases hg

end Answers

end Solver

end TaskNetwork
