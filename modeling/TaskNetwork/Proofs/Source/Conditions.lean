import TaskNetwork.Proofs.Source.Terms

/-! Reading conditions follows their grammar, however deep they are nested. -/

namespace TaskNetwork

namespace Source.Reader

open SymbolTable (le_refl le_trans le_intern name?_of_intern_le)

variable {s : Reading} {ts rest : List Token}

section Conditions

theorem drafts_fact (name : String) {args : List Term} {trees : List Tree.Term} {d : Draft}
    (hargs : ∀ names, d.symbols ≤ names → viewAll Term.tree? names args = some trees) :
    Drafts Condition.tree? (Builder.fact name args) d (.fact name trees) := by
  refine ⟨le_intern _ _, fun names hnames => ?_⟩
  have hname : names.name? (d.symbols.intern name).1 = some name := name?_of_intern_le hnames
  show (names.name? (d.symbols.intern name).1).bind (fun name =>
    (viewAll Term.tree? names args).bind fun args => some (Tree.Condition.fact name args)) = _
  rw [hname, hargs names (le_trans (le_intern _ name) hnames)]
  rfl

theorem drafts_all {cs : List Condition} {trees : List Tree.Condition} {d : Draft}
    (hcs : ∀ names, d.symbols ≤ names → viewAll Condition.tree? names cs = some trees) :
    Drafts Condition.tree? (Builder.all cs) d (.all trees) := by
  refine ⟨le_refl _, fun names hnames => ?_⟩
  have hchildren : Condition.treeAll? names cs = some trees := by
    rw [Condition.treeAll?_eq_mapM]
    exact hcs names hnames
  show (Condition.treeAll? names cs).bind (fun cs => some (Tree.Condition.all cs)) = _
  rw [hchildren]
  rfl

theorem drafts_any {cs : List Condition} {trees : List Tree.Condition} {d : Draft}
    (hcs : ∀ names, d.symbols ≤ names → viewAll Condition.tree? names cs = some trees) :
    Drafts Condition.tree? (Builder.any cs) d (.any trees) := by
  refine ⟨le_refl _, fun names hnames => ?_⟩
  have hchildren : Condition.treeAll? names cs = some trees := by
    rw [Condition.treeAll?_eq_mapM]
    exact hcs names hnames
  show (Condition.treeAll? names cs).bind (fun cs => some (Tree.Condition.any cs)) = _
  rw [hchildren]
  rfl

theorem drafts_not {c : Condition} {tree : Tree.Condition} {d : Draft}
    (hc : ∀ names, d.symbols ≤ names → c.tree? names = some tree) :
    Drafts Condition.tree? (Builder.not c) d (.not tree) := by
  refine ⟨le_refl _, fun names hnames => ?_⟩
  show (c.tree? names).bind (fun c => some (Tree.Condition.not c)) = _
  rw [hc names hnames]
  rfl

/-- One condition stands for itself, in the tree as well. -/
theorem succeeds_joined {cs : List Condition} {trees : List Tree.Condition} {s' : Reading}
    (h : Reads (viewAll Condition.tree?) s ts rest trees cs s') :
    Succeeds (joined cs s') (Reads Condition.tree? s ts rest (.joined trees)) := by
  have hsome := h.shown _ (le_refl _)
  match cs with
  | [] =>
    obtain rfl : [] = trees := Option.some.inj hsome
    exact succeeds_draft h.toPasses (drafts_all h.shown)
  | [c] =>
    simp only [viewAll, List.mapM_cons, List.mapM_nil, Option.bind_eq_bind, Option.pure_def,
      Option.bind_some, Option.bind_eq_some_iff, Option.some.injEq] at hsome
    obtain ⟨tree, -, rfl⟩ := hsome
    refine ⟨c, s', rfl, h.toPasses, fun names hnames => ?_⟩
    simpa [Tree.Condition.joined, Option.bind_eq_some_iff] using h.shown names hnames
  | c :: c' :: cs =>
    simp only [viewAll, List.mapM_cons, Option.bind_eq_bind, Option.pure_def,
      Option.bind_eq_some_iff, Option.some.injEq] at hsome
    obtain ⟨tree, -, _, ⟨tree', -, trees, -, rfl⟩, rfl⟩ := hsome
    exact succeeds_draft h.toPasses (drafts_all h.shown)

theorem sound_conditionWithin (depth : Nat) :
    Sound depth (conditionWithin depth) Condition.tree? IsCondition := by
  induction depth with
  | zero => exact fun _ _ _ hn => absurd hn (Nat.not_lt_zero _)
  | succ depth ih =>
    intro s ts hs hn
    refine (ends_word hs _).bind fun name s₁ ⟨rest, hts, hs₁⟩ => ?_
    subst hts hs₁
    refine (ends_eat hs.next).bind fun opened s₂ hopened => ?_
    cases opened with
    | false =>
      obtain ⟨hstops, rfl⟩ := hopened
      exact ends_draft (.token hs) (drafts_fact name fun _ _ => rfl) (.bare hstops)
    | true =>
      obtain ⟨inner, rfl, rfl⟩ := hopened
      have hinner : inner.length < depth := by
        simp only [List.length_cons] at hn
        omega
      simp only [↓reduceIte]
      by_cases hand : name = "and"
      · subst hand
        refine (sound_listUntil .closeParen ih _ inner hs.next.next hinner).bind ?_
        rintro cs s₃ ⟨rest, trees, htrees, hcs⟩
        exact ends_draft hcs.toPasses.cons.cons (drafts_all hcs.shown) (.all htrees)
      by_cases hor : name = "or"
      · subst hor
        refine (sound_listUntil .closeParen ih _ inner hs.next.next hinner).bind ?_
        rintro cs s₃ ⟨rest, trees, htrees, hcs⟩
        exact ends_draft hcs.toPasses.cons.cons (drafts_any hcs.shown) (.any htrees)
      rw [if_neg hand, if_neg hor]
      by_cases hnot : name = "not"
      · subst hnot
        refine (sound_separated ih _ inner hs.next.next hinner).bind ?_
        rintro cs s₃ ⟨mid, trees, htrees, hcs⟩
        refine (succeeds_joined hcs).ends_bind fun child s₄ hchild => ?_
        refine (ends_expect hchild.left).bind fun _ s₅ ⟨rest, hmid, hs₅⟩ => ?_
        subst hmid hs₅
        exact ends_draft hchild.next.toPasses.cons.cons (drafts_not hchild.shown) (.not htrees)
      · rw [if_neg hnot]
        refine (sound_terms _ _ inner hs.next.next hinner).bind ?_
        rintro args s₃ ⟨rest, trees, htrees, hargs⟩
        exact ends_draft hargs.toPasses.cons.cons (drafts_fact name hargs.shown)
          (.fact (by simp [hand, hor, hnot]) htrees)

theorem stops_of_isCondition {tree : Tree.Condition} (h : IsCondition ts rest tree)
    (p : Punctuation) : Stops p ts := by
  cases h <;> simp [Stops]

theorem complete_conditionWithin (depth : Nat) :
    Complete depth (conditionWithin depth) Condition.tree? IsCondition (Stops .openParen) := by
  induction depth with
  | zero => exact fun _ _ _ _ _ hn => absurd hn (Nat.not_lt_zero _)
  | succ depth ih =>
    have hlist := complete_listUntil .closeParen ih (by simp [Stops]) (by decide)
      (by simp [Stops]) fun _ _ _ h => stops_of_isCondition h _
    intro s ts rest tree hs hn htree hstops
    cases htree with
    | bare =>
      refine .bind_ok (word_eq hs _) (.bind_ok (eat_of_ne hs.next hstops) ?_)
      exact succeeds_draft (.token hs) (drafts_fact _ fun _ _ => rfl)
    | all htrees =>
      have hinner := Nat.lt_of_succ_lt_succ (Nat.lt_of_succ_lt hn)
      refine .bind_ok (word_eq hs _) (.bind_ok (eat_eq hs.next) ?_)
      refine (hlist _ _ _ _ hs.next.next hinner htrees trivial).bind fun cs s' hcs => ?_
      exact succeeds_draft hcs.toPasses.cons.cons (drafts_all hcs.shown)
    | any htrees =>
      have hinner := Nat.lt_of_succ_lt_succ (Nat.lt_of_succ_lt hn)
      refine .bind_ok (word_eq hs _) (.bind_ok (eat_eq hs.next) ?_)
      refine (hlist _ _ _ _ hs.next.next hinner htrees trivial).bind fun cs s' hcs => ?_
      exact succeeds_draft hcs.toPasses.cons.cons (drafts_any hcs.shown)
    | not htrees =>
      have hinner := Nat.lt_of_succ_lt_succ (Nat.lt_of_succ_lt hn)
      refine .bind_ok (word_eq hs _) (.bind_ok (eat_eq hs.next) ?_)
      refine (complete_separated ih (by simp [Stops]) _ _ _ _ hs.next.next hinner htrees
        (by simp [Stops])).bind fun cs s₁ hcs => ?_
      refine (succeeds_joined hcs).bind fun child s₂ hchild => ?_
      refine .bind_ok (expect_eq hchild.left) ?_
      exact succeeds_draft hchild.next.toPasses.cons.cons (drafts_not hchild.shown)
    | fact hname hargs =>
      simp only [List.mem_cons, List.not_mem_nil, or_false, not_or] at hname
      refine .bind_ok (word_eq hs _) (.bind_ok (eat_eq hs.next) ?_)
      rw [if_pos rfl, if_neg hname.1, if_neg hname.2.1, if_neg hname.2.2]
      refine (complete_terms _ _ _ _ _ hs.next.next hs.next.next.bound hargs trivial).bind
        fun args s' hargs => ?_
      exact succeeds_draft hargs.toPasses.cons.cons (drafts_fact _ hargs.shown)

theorem sound_condition (n : Nat) : Sound n condition Condition.tree? IsCondition :=
  fun s ts hs _ => sound_conditionWithin s.size s ts hs hs.bound

theorem complete_condition (n : Nat) :
    Complete n condition Condition.tree? IsCondition (Stops .openParen) :=
  fun s ts rest b hs _ => complete_conditionWithin s.size s ts rest b hs hs.bound

theorem sound_conjunction (n : Nat) : Sound n conjunction Condition.tree? IsConjunction := by
  intro s ts hs hn
  refine (sound_separated (sound_condition n) s ts hs hn).bind ?_
  rintro cs s₁ ⟨rest, trees, htrees, hcs⟩
  exact (succeeds_joined hcs).ends fun _ _ h => ⟨rest, _, .joined htrees, h⟩

theorem complete_conjunction (n : Nat) :
    Complete n conjunction Condition.tree? IsConjunction fun rest =>
      Stops .openParen rest ∧ Stops .comma rest := by
  intro s ts rest tree hs hn htree hstops
  cases htree with
  | joined htrees =>
    exact (complete_separated (complete_condition n) (by simp [Stops]) s ts rest _ hs hn htrees
      hstops).bind fun cs s₁ hcs => succeeds_joined hcs

end Conditions

end Source.Reader

end TaskNetwork
