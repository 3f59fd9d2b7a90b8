import TaskNetwork.Proofs.Source.Conditions

/-! Reading a whole text follows the grammar: its tokens are read exactly if the grammar derives
declarations from them, and these are what was read. Other tokens are refused. -/

namespace TaskNetwork

namespace Source.Reader

open SymbolTable (le_refl le_trans le_intern name?_of_intern_le)

variable {s : Reading} {ts rest : List Token}

section Methods

theorem drafts_task (name : String) {args : List Term} {trees : List Tree.Term} {d : Draft}
    (hargs : ∀ names, d.symbols ≤ names → viewAll Term.tree? names args = some trees) :
    Drafts Task.tree? (Builder.task name args) d ⟨name, trees⟩ := by
  refine ⟨le_intern _ _, fun names hnames => ?_⟩
  have hname : names.name? (d.symbols.intern name).1 = some name := name?_of_intern_le hnames
  show (names.name? (d.symbols.intern name).1).bind (fun name =>
    (viewAll Term.tree? names args).bind fun args => some (Tree.Task.mk name args)) = _
  rw [hname, hargs names (le_trans (le_intern _ name) hnames)]
  rfl

theorem sound_task (n : Nat) : Sound n task Task.tree? IsTask := by
  intro s ts hs hn
  refine (ends_word hs _).bind fun name s₁ ⟨mid, hts, hs₁⟩ => ?_
  subst hts hs₁
  refine (ends_expect hs.next).bind fun _ s₂ ⟨inner, hmid, hs₂⟩ => ?_
  subst hmid hs₂
  refine (sound_terms _ _ inner hs.next.next hs.next.next.bound).bind ?_
  rintro args s₃ ⟨rest, trees, htrees, hargs⟩
  exact ends_draft hargs.toPasses.cons.cons (drafts_task name hargs.shown) (.call htrees)

theorem complete_task (n : Nat) : Complete n task Task.tree? IsTask fun _ => True := by
  intro s ts rest tree hs hn htree _
  cases htree with
  | call hargs =>
    refine .bind_ok (word_eq hs _) (.bind_ok (expect_eq hs.next) ?_)
    refine (complete_terms _ _ _ _ _ hs.next.next hs.next.next.bound hargs trivial).bind
      fun args s' hargs => ?_
    exact succeeds_draft hargs.toPasses.cons.cons (drafts_task _ hargs.shown)

theorem ends_mayEnd (hs : s.Left ts) : Ends (eat .semicolon s) fun _ s' =>
    ∃ rest, MayEnd ts rest ∧ s'.Left rest ∧ rest.length ≤ ts.length ∧ s'.draft = s.draft := by
  refine (ends_eat hs).mono fun eaten s' heaten => ?_
  cases eaten with
  | true =>
    obtain ⟨rest, rfl, rfl⟩ := heaten
    exact ⟨rest, .present, hs.next, Nat.le_succ _, rfl⟩
  | false =>
    obtain ⟨-, rfl⟩ := heaten
    exact ⟨ts, .absent, hs, Nat.le_refl _, rfl⟩

theorem succeeds_mayEnd (hs : s.Left ts) (h : MayEnd ts rest) (hstops : Stops .semicolon rest) :
    Succeeds (eat .semicolon s) fun _ s' =>
      s'.Left rest ∧ rest.length ≤ ts.length ∧ s'.draft = s.draft := by
  cases h with
  | absent => exact ⟨_, _, eat_of_ne hs hstops, hs, Nat.le_refl _, rfl⟩
  | present => exact ⟨_, _, eat_eq hs, hs.next, Nat.le_succ _, rfl⟩

theorem drafts_branch (name : String) {condition : Option Condition} {tasks : List Task}
    {tree : Option Tree.Condition} {trees : List Tree.Task} {d : Draft}
    (hcondition : ∀ names, d.symbols ≤ names →
      condition.mapM (Condition.tree? names) = some tree)
    (htasks : ∀ names, d.symbols ≤ names → viewAll Task.tree? names tasks = some trees) :
    Drafts Branch.tree? (Builder.branch name condition tasks) d ⟨name, tree, trees⟩ := by
  refine ⟨le_intern _ _, fun names hnames => ?_⟩
  have hname : names.name? (d.symbols.intern name).1 = some name := name?_of_intern_le hnames
  have hle := le_trans (le_intern _ name) hnames
  show (names.name? (d.symbols.intern name).1).bind (fun name =>
    (condition.mapM (Condition.tree? names)).bind fun condition =>
      (viewAll Task.tree? names tasks).bind fun tasks =>
        some (Tree.Branch.mk name condition tasks)) = _
  rw [hname, hcondition names hle, htasks names hle]
  rfl

/-- What is read of a branch after its condition. -/
def branchAfter (label : String) (condition : Option Condition) : Reader Branch := do
  expect .arrow
  let tasks ← bounded (commaList task)
  let _ ← eat .semicolon
  draft (Builder.branch label condition tasks)

section Tails

variable (label : String) (condition : Option Condition) (tree : Option Tree.Condition)
  (hcondition : ∀ names, s.draft.symbols ≤ names →
    condition.mapM (Condition.tree? names) = some tree)

include hcondition

theorem sound_branchAfter (hs : s.Left ts) :
    Ends (branchAfter label condition s) fun b s' => ∃ tail mid rest trees,
      ts = .mark .arrow :: tail ∧ Separated IsTask tail mid trees ∧ MayEnd mid rest ∧
        Reads Branch.tree? s ts rest ⟨label, tree, trees⟩ b s' := by
  refine (ends_expect hs).bind fun _ s₁ ⟨tail, hts, hs₁⟩ => ?_
  subst hts hs₁
  refine (sound_separated (sound_task _) _ tail hs.next hs.next.bound).bind ?_
  rintro tasks s₂ ⟨mid, trees, htrees, htasks⟩
  refine (ends_mayEnd htasks.left).bind fun _ s₃ ⟨rest, hend, hleft, hlength, hdraft⟩ => ?_
  have hpart : Drafts Branch.tree? (Builder.branch label condition tasks) s₃.draft
      ⟨label, tree, trees⟩ := by
    rw [hdraft]
    exact drafts_branch label (fun names h => hcondition names (le_trans htasks.symbols h))
      htasks.shown
  have hpassed : Passes s (.mark .arrow :: tail) rest s₃ :=
    htasks.toPasses.cons.skip hleft hlength hdraft
  exact (succeeds_draft hpassed hpart).ends fun b s' h =>
    ⟨tail, mid, rest, trees, rfl, htrees, hend, h⟩

theorem complete_branchAfter {mid : List Token} {trees : List Tree.Task}
    (hs : s.Left (.mark .arrow :: ts)) (htasks : Separated IsTask ts mid trees)
    (hend : MayEnd mid rest) (hstops : Stops .semicolon rest) (hcomma : Stops .comma rest) :
    Succeeds (branchAfter label condition s)
      (Reads Branch.tree? s (.mark .arrow :: ts) rest ⟨label, tree, trees⟩) := by
  have hmid : Stops .comma mid := by
    cases hend with
    | absent => exact hcomma
    | present => simp [Stops]
  refine .bind_ok (expect_eq hs) ?_
  refine (complete_separated (complete_task _) (fun _ => trivial) _ ts mid trees hs.next
    hs.next.bound htasks ⟨trivial, hmid⟩).bind fun tasks s₁ htasks => ?_
  refine (succeeds_mayEnd htasks.left hend hstops).bind ?_
  rintro _ s₂ ⟨hleft, hlength, hdraft⟩
  refine succeeds_draft (htasks.toPasses.cons.skip hleft hlength hdraft) ?_
  rw [hdraft]
  exact drafts_branch label (fun names h => hcondition names (le_trans htasks.symbols h))
    htasks.shown

end Tails

theorem sound_branch (n : Nat) : Sound n branch Branch.tree? IsBranch := by
  intro s ts hs hn
  refine (ends_word hs _).bind fun label s₁ ⟨mid, hts, hs₁⟩ => ?_
  subst hts hs₁
  refine (ends_expect hs.next).bind fun _ s₂ ⟨guard, hmid, hs₂⟩ => ?_
  subst hmid hs₂
  refine .bind_ok (current_eq hs.next.next) ?_
  have hguard : Ends ((some <$> conjunction : Reader _) s.next.next) fun c s' => ∃ rest tree,
      IsConjunction guard rest tree ∧ Reads (fun names c => c.mapM (Condition.tree? names))
        s.next.next guard rest (some tree) c s' :=
    (sound_conjunction _ _ guard hs.next.next hs.next.next.bound).bind
      fun c s' ⟨rest, tree, htree, h⟩ =>
        ⟨rest, tree, htree, h.toPasses, fun names hnames => by simp [h.shown names hnames]⟩
  have hguarded : Ends ((some <$> conjunction >>= branchAfter label : Reader _) s.next.next)
      fun b s' => ∃ rest tree, IsBranch (.word label :: .mark .colon :: guard) rest tree ∧
        Reads Branch.tree? s (.word label :: .mark .colon :: guard) rest tree b s' := by
    refine hguard.bind fun c s₃ ⟨mid, tree, htree, hc⟩ => ?_
    refine (sound_branchAfter label _ _ hc.shown hc.left).mono ?_
    rintro b s' ⟨tail, mid, rest, trees, rfl, htrees, hend, h⟩
    exact ⟨rest, _, .guarded htree htrees hend, (hc.toPasses.trans h.toPasses).cons.cons, h.shown⟩
  match guard, hs.next.next, hguarded with
  | .mark p :: tail, hleft, hguarded =>
    cases p with
    | arrow =>
      refine .bind_ok rfl ((sound_branchAfter label none none (fun _ _ => rfl) hleft).mono ?_)
      rintro b s' ⟨tail', mid, rest, trees, htail, htrees, hend, h⟩
      obtain rfl := (List.cons.inj htail).2
      exact ⟨rest, _, .always htrees hend, h.toPasses.cons.cons, h.shown⟩
    | _ => exact hguarded
  | [], _, hguarded | .word _ :: _, _, hguarded | .inputVar _ :: _, _, hguarded
  | .outputVar _ :: _, _, hguarded | .inOutVar _ :: _, _, hguarded | .number _ :: _, _, hguarded
  | .text _ :: _, _, hguarded | .finish :: _, _, hguarded => exact hguarded

theorem head_of_isConjunction {tree : Tree.Condition} (h : IsConjunction ts rest tree) :
    ∃ name tail, ts = .word name :: tail := by
  cases h with
  | joined h =>
    cases h with
    | one h | more h => cases h <;> exact ⟨_, _, rfl⟩

theorem complete_branch (n : Nat) : Complete n branch Branch.tree? IsBranch fun rest =>
    Stops .semicolon rest ∧ Stops .comma rest := by
  intro s ts rest tree hs hn htree hstops
  cases htree with
  | @always label ts mid _ trees htasks hend =>
    refine .bind_ok (word_eq hs _) (.bind_ok (expect_eq hs.next) ?_)
    refine .bind_ok (current_eq hs.next.next) (.bind_ok rfl ?_)
    obtain ⟨b, s', hread, hb⟩ := complete_branchAfter label none none (fun _ _ => rfl)
      hs.next.next htasks hend hstops.1 hstops.2
    exact ⟨b, s', hread, hb.toPasses.cons.cons, hb.shown⟩
  | @guarded label cs ts mid _ condition trees hguard htasks hend =>
    obtain ⟨name, tail, rfl⟩ := head_of_isConjunction hguard
    refine .bind_ok (word_eq hs _) (.bind_ok (expect_eq hs.next) ?_)
    refine .bind_ok (current_eq hs.next.next) ?_
    obtain ⟨c, s₁, hread, hc⟩ := complete_conjunction _ _ _ _ _ hs.next.next hs.next.next.bound
      hguard ⟨by simp [Stops], by simp [Stops]⟩
    have hsome : (some <$> conjunction : Reader (Option Condition)) s.next.next = .ok (some c) s₁ :=
      bind_ok hread
    refine .bind_ok hsome ?_
    obtain ⟨b, s', hread, hb⟩ := complete_branchAfter label (some c) (some condition)
      (fun names hnames => by simp [hc.shown names hnames]) hc.left htasks hend hstops.1 hstops.2
    exact ⟨b, s', hread, (hc.toPasses.trans hb.toPasses).cons.cons, hb.shown⟩

end Methods

section Declarations

theorem drafts_constant (group name : String) {value : Value} {tree : Tree.Literal} {d : Draft}
    (hvalue : ∀ names, d.symbols ≤ names → value.tree? names = some tree) :
    Drafts (fun names c => (Declaration.constant c).tree? names)
      (Builder.constant group name value) d (.constant group name tree) := by
  let t := (d.symbols.intern group).2
  have hle : d.symbols ≤ (t.intern name).2 := le_trans (le_intern _ group) (le_intern t name)
  refine ⟨hle, fun names hnames => ?_⟩
  have hgroup : names.name? (d.symbols.intern group).1 = some group :=
    name?_of_intern_le (le_trans (le_intern t name) hnames)
  have hname : names.name? (t.intern name).1 = some name := name?_of_intern_le hnames
  show (names.name? (d.symbols.intern group).1).bind (fun group =>
    (names.name? (t.intern name).1).bind fun name =>
      (value.tree? names).bind fun value => some (Tree.Declaration.constant group name value)) = _
  rw [hgroup, hname, hvalue names (le_trans hle hnames)]
  rfl

theorem sound_constant (group : String) (n : Nat) :
    Sound n (constant group) Declaration.tree? (IsConstant group) := by
  intro s ts hs hn
  refine (ends_word hs _).bind fun name s₁ ⟨mid, hts, hs₁⟩ => ?_
  subst hts hs₁
  refine (ends_expect hs.next).bind fun _ s₂ ⟨tail, hmid, hs₂⟩ => ?_
  subst hmid hs₂
  refine (sound_literal _ _ tail hs.next.next hs.next.next.bound).bind ?_
  rintro value s₃ ⟨mid, tree, htree, hvalue⟩
  refine (ends_mayEnd hvalue.left).bind fun _ s₄ ⟨rest, hend, hleft, hlength, hdraft⟩ => ?_
  have hpassed :=
    (Passes.token hs).next.trans (hvalue.toPasses.skip hleft hlength hdraft)
  have hpart := drafts_constant group name (d := s₄.draft) (hdraft ▸ hvalue.shown)
  exact (ends_draft hpassed hpart (.equation htree hend)).bind
    fun c s₅ ⟨rest, tree, htree, hc⟩ => ⟨rest, tree, htree, hc.toPasses, hc.shown⟩

theorem complete_constant (group : String) (n : Nat) :
    Complete n (constant group) Declaration.tree? (IsConstant group) (Stops .semicolon) := by
  intro s ts rest tree hs hn htree hstops
  cases htree with
  | equation hvalue hend =>
    refine .bind_ok (word_eq hs _) (.bind_ok (expect_eq hs.next) ?_)
    refine (complete_literal _ _ _ _ _ hs.next.next hs.next.next.bound hvalue trivial).bind
      fun value s₁ hvalue => ?_
    refine (succeeds_mayEnd hvalue.left hend hstops).bind fun _ s₂ ⟨hleft, hlength, hdraft⟩ => ?_
    have hpassed := (Passes.token hs).next.trans (hvalue.toPasses.skip hleft hlength hdraft)
    exact (succeeds_draft hpassed (drafts_constant group _ (hdraft ▸ hvalue.shown))).bind
      fun c s₃ hc => ⟨_, _, rfl, hc.toPasses, hc.shown⟩

theorem sound_constants {s : Reading} (hs : s.Left ts) :
    Ends (constants s) fun cs s' => ∃ rest trees,
      IsDeclaration (.word "constants" :: ts) rest trees ∧ Reads (viewAll Declaration.tree?) s ts rest trees cs s' := by
  refine (ends_word hs _).bind fun group s₁ ⟨mid, hts, hs₁⟩ => ?_
  subst hts hs₁
  refine (ends_expect hs.next).bind fun _ s₂ ⟨tail, hmid, hs₂⟩ => ?_
  subst hmid hs₂
  refine (sound_repeated .closeBrace (sound_constant group _) _ tail hs.next.next
    hs.next.next.bound).mono ?_
  rintro cs s' ⟨rest, trees, htrees, hcs⟩
  exact ⟨rest, trees, .constants htrees, hcs.toPasses.cons.cons, hcs.shown⟩

theorem drafts_clause (name : String) {params : List Term} {condition : Condition}
    {terms : List Tree.Term} {tree : Tree.Condition} {d : Draft}
    (hparams : ∀ names, d.symbols ≤ names → viewAll Term.tree? names params = some terms)
    (hcondition : ∀ names, d.symbols ≤ names → condition.tree? names = some tree) :
    Drafts (fun names c => (Declaration.clause c).tree? names)
      (Builder.clause name params condition) d (.clause name terms tree) := by
  refine ⟨le_intern _ _, fun names hnames => ?_⟩
  have hname : names.name? (d.symbols.intern name).1 = some name := name?_of_intern_le hnames
  have hle := le_trans (le_intern _ name) hnames
  show (names.name? (d.symbols.intern name).1).bind (fun name =>
    (viewAll Term.tree? names params).bind fun params =>
      (condition.tree? names).bind fun c => some (Tree.Declaration.clause name params c)) = _
  rw [hname, hparams names hle, hcondition names hle]
  rfl

theorem drafts_method (name : String) (marked : Bool) {params : List Term}
    {branches : List Branch} {terms : List Tree.Term} {trees : List Tree.Branch} {d : Draft}
    (hparams : ∀ names, d.symbols ≤ names → viewAll Term.tree? names params = some terms)
    (hbranches : ∀ names, d.symbols ≤ names → viewAll Branch.tree? names branches = some trees) :
    Drafts (fun names m => (Declaration.method m marked).tree? names)
      (Builder.method name params branches) d (.method name terms trees marked) := by
  refine ⟨le_intern _ _, fun names hnames => ?_⟩
  have hname : names.name? (d.symbols.intern name).1 = some name := name?_of_intern_le hnames
  have hle := le_trans (le_intern _ name) hnames
  show (names.name? (d.symbols.intern name).1).bind (fun name =>
    (viewAll Term.tree? names params).bind fun params =>
      (viewAll Branch.tree? names branches).bind fun branches =>
        some (Tree.Declaration.method name params branches marked)) = _
  rw [hname, hparams names hle, hbranches names hle]
  rfl

theorem sound_clause {s : Reading} (hs : s.Left ts) :
    Ends (clause s) fun ds s' => ∃ rest trees, IsDeclaration (.word "axiom" :: ts) rest trees ∧
      Reads (viewAll Declaration.tree?) s ts rest trees ds s' := by
  refine (ends_word hs _).bind fun name s₁ ⟨mid, hts, hs₁⟩ => ?_
  subst hts hs₁
  refine (ends_expect hs.next).bind fun _ s₂ ⟨tail, hmid, hs₂⟩ => ?_
  subst hmid hs₂
  refine (sound_terms _ _ tail hs.next.next hs.next.next.bound).bind ?_
  rintro params s₃ ⟨mid, terms, hterms, hparams⟩
  refine (ends_expect hparams.left).bind fun _ s₄ ⟨body, hmid, hs₄⟩ => ?_
  subst hmid hs₄
  refine (sound_conjunction _ _ body hparams.left.next hparams.left.next.bound).bind ?_
  rintro c s₅ ⟨mid, tree, htree, hc⟩
  refine (ends_expect hc.left).bind fun _ s₆ ⟨rest, hmid, hs₆⟩ => ?_
  subst hmid hs₆
  have hpassed :=
    (Passes.token hs).next.trans (hparams.next.toPasses.trans hc.next.toPasses)
  have hpart := drafts_clause name (d := s₅.next.draft)
    (fun names h => hparams.shown names (le_trans hc.symbols h)) hc.shown
  exact (succeeds_draft hpassed hpart).ends_bind fun c s' h =>
    ⟨rest, _, .clause hterms htree, Reads.single ⟨h.toPasses, h.shown⟩⟩

theorem stops_of_isConstant {group : String} {tree : Tree.Declaration}
    (h : IsConstant group ts rest tree) (p : Punctuation) : Stops p ts := by
  cases h
  simp [Stops]

theorem stops_of_isBranch {tree : Tree.Branch} (h : IsBranch ts rest tree) (p : Punctuation) :
    Stops p ts := by
  cases h <;> simp [Stops]

/-- Neither an item nor the mark that closes the group is a mark that goes before them. -/
theorem stops_of_repeated {β : Type} {close p : Punctuation} {item : Phrase β} {bs : List β}
    (hitem : ∀ ts rest b, item ts rest b → Stops p ts) (hp : p ≠ close)
    (h : Repeated close item ts rest bs) : Stops p ts := by
  cases h with
  | done => simpa [Stops] using hp.symm
  | more h => exact hitem _ _ _ h

theorem complete_constants {s : Reading} {group : String} {cs : List Tree.Declaration}
    (hs : s.Left (.word group :: .mark .openBrace :: ts))
    (hcs : Repeated .closeBrace (IsConstant group) ts rest cs) :
    Succeeds (constants s)
      (Reads (viewAll Declaration.tree?) s (.word group :: .mark .openBrace :: ts) rest cs) := by
  have hconstants := complete_repeated .closeBrace
    (complete_constant group (s.next.next.size)) (fun _ _ _ h => stops_of_isConstant h _)
    fun _ _ _ h => stops_of_repeated (fun _ _ _ h => stops_of_isConstant h _) (by decide) h
  refine .bind_ok (word_eq hs _) (.bind_ok (expect_eq hs.next) ?_)
  obtain ⟨ds, s', hread, hds⟩ := hconstants _ _ _ _ hs.next.next hs.next.next.bound hcs trivial
  exact ⟨ds, s', hread, hds.toPasses.cons.cons, hds.shown⟩

theorem complete_clause {s : Reading} {name : String} {mid : List Token} {terms : List Tree.Term}
    {tree : Tree.Condition} (hs : s.Left (.word name :: .mark .openParen :: ts))
    (hterms : AreTerms ts (.mark .openBrace :: mid) terms)
    (htree : IsConjunction mid (.mark .closeBrace :: rest) tree) :
    Succeeds (clause s) (Reads (viewAll Declaration.tree?) s
      (.word name :: .mark .openParen :: ts) rest [.clause name terms tree]) := by
  refine .bind_ok (word_eq hs _) (.bind_ok (expect_eq hs.next) ?_)
  refine (complete_terms _ _ _ _ _ hs.next.next hs.next.next.bound hterms trivial).bind
    fun params s₁ hparams => ?_
  refine .bind_ok (expect_eq hparams.left) ?_
  refine (complete_conjunction _ _ _ _ _ hparams.left.next hparams.left.next.bound htree
    (by simp [Stops])).bind fun c s₂ hc => .bind_ok (expect_eq hc.left) ?_
  have hpassed :=
    (Passes.token hs).next.trans (hparams.next.toPasses.trans hc.next.toPasses)
  have hpart := drafts_clause name (d := s₂.next.draft)
    (fun names h => hparams.shown names (le_trans hc.symbols h)) hc.shown
  exact (succeeds_draft hpassed hpart).bind fun c s' h =>
    ⟨_, _, rfl, Reads.single ⟨h.toPasses, h.shown⟩⟩

theorem sound_method (marked : Bool) {s : Reading} (hs : s.Left ts) :
    Ends (method marked s) fun ds s' => ∃ rest trees, IsMethod marked ts rest trees ∧
      Reads (viewAll Declaration.tree?) s ts rest trees ds s' := by
  refine (ends_word hs _).bind fun name s₁ ⟨mid, hts, hs₁⟩ => ?_
  subst hts hs₁
  refine (ends_expect hs.next).bind fun _ s₂ ⟨tail, hmid, hs₂⟩ => ?_
  subst hmid hs₂
  refine (sound_terms _ _ tail hs.next.next hs.next.next.bound).bind ?_
  rintro params s₃ ⟨mid, terms, hterms, hparams⟩
  refine (ends_expect hparams.left).bind fun _ s₄ ⟨body, hmid, hs₄⟩ => ?_
  subst hmid hs₄
  refine (sound_repeated .closeBrace (sound_branch _) _ body hparams.left.next
    hparams.left.next.bound).bind ?_
  rintro branches s₅ ⟨rest, trees, htrees, hbranches⟩
  have hpassed :=
    (Passes.token hs).next.trans (hparams.next.toPasses.trans hbranches.toPasses)
  have hpart := drafts_method name marked (d := s₅.draft)
    (fun names h => hparams.shown names (le_trans hbranches.symbols h)) hbranches.shown
  exact (succeeds_draft hpassed hpart).ends_bind fun c s' h =>
    ⟨rest, _, .method hterms htrees, Reads.single ⟨h.toPasses, h.shown⟩⟩

theorem complete_method {marked : Bool} {s : Reading} {ds : List Tree.Declaration}
    (hs : s.Left ts) (hds : IsMethod marked ts rest ds) :
    Succeeds (method marked s) (Reads (viewAll Declaration.tree?) s ts rest ds) := by
  cases hds with
  | @method name _ _ _ _ _ hterms hbranches =>
    have hrepeated (n : Nat) := complete_repeated .closeBrace (complete_branch n)
      (fun _ _ _ h => stops_of_isBranch h _) fun _ _ _ h =>
        ⟨stops_of_repeated (fun _ _ _ h => stops_of_isBranch h _) (by decide) h,
          stops_of_repeated (fun _ _ _ h => stops_of_isBranch h _) (by decide) h⟩
    refine .bind_ok (word_eq hs _) (.bind_ok (expect_eq hs.next) ?_)
    refine (complete_terms _ _ _ _ _ hs.next.next hs.next.next.bound hterms trivial).bind
      fun params s₁ hparams => .bind_ok (expect_eq hparams.left) ?_
    refine (hrepeated _ _ _ _ _ hparams.left.next hparams.left.next.bound hbranches trivial).bind
      fun branches s₂ hbranches => ?_
    have hpassed :=
      (Passes.token hs).next.trans (hparams.next.toPasses.trans hbranches.toPasses)
    have hpart := drafts_method name marked (d := s₂.draft)
      (fun names h => hparams.shown names (le_trans hbranches.symbols h)) hbranches.shown
    exact (succeeds_draft hpassed hpart).bind fun m s' h =>
      ⟨_, _, rfl, Reads.single ⟨h.toPasses, h.shown⟩⟩

theorem sound_declaration {s : Reading} (hs : s.Left ts) :
    Ends (declaration s) fun ds s' => ∃ rest trees, IsDeclaration ts rest trees ∧
      Reads (viewAll Declaration.tree?) s ts rest trees ds s' := by
  refine .bind_ok (current_eq hs) ((ends_word hs _).bind fun name s₁ ⟨mid, hts, hs₁⟩ => ?_)
  subst hts hs₁
  by_cases hconstants : name = "constants"
  · subst hconstants
    exact (sound_constants hs.next).mono fun _ _ ⟨rest, trees, htrees, h⟩ =>
      ⟨rest, trees, htrees, h.toPasses.cons, h.shown⟩
  by_cases hclause : name = "axiom"
  · subst hclause
    exact (sound_clause hs.next).mono fun _ _ ⟨rest, trees, htrees, h⟩ =>
      ⟨rest, trees, htrees, h.toPasses.cons, h.shown⟩
  by_cases hmethod : name = "method"
  · subst hmethod
    exact (sound_method false hs.next).mono fun _ _ ⟨rest, trees, htrees, h⟩ =>
      ⟨rest, trees, .method htrees, h.toPasses.cons, h.shown⟩
  by_cases htop : name = "top"
  · subst htop
    refine (ends_keyword hs.next _).bind fun _ s₂ ⟨mid, hmid, hs₂⟩ => ?_
    subst hmid hs₂
    exact (sound_method true hs.next.next).mono fun _ _ ⟨rest, trees, htrees, h⟩ =>
      ⟨rest, trees, .marked htrees, h.toPasses.cons.cons, h.shown⟩
  rw [if_neg hconstants, if_neg hclause, if_neg hmethod, if_neg htop]
  exact ends_refuseAt _ _

theorem complete_declaration {s : Reading} {ds : List Tree.Declaration} (hs : s.Left ts)
    (hds : IsDeclaration ts rest ds) :
    Succeeds (declaration s) (Reads (viewAll Declaration.tree?) s ts rest ds) := by
  refine .bind_ok (current_eq hs) ?_
  cases hds with
  | constants hcs =>
    refine .bind_ok (word_eq hs _) ?_
    obtain ⟨ds, s', hread, h⟩ := complete_constants hs.next hcs
    exact ⟨ds, s', hread, h.toPasses.cons, h.shown⟩
  | clause hterms htree =>
    refine .bind_ok (word_eq hs _) ?_
    obtain ⟨ds, s', hread, h⟩ := complete_clause hs.next hterms htree
    exact ⟨ds, s', hread, h.toPasses.cons, h.shown⟩
  | method hds =>
    refine .bind_ok (word_eq hs _) ?_
    obtain ⟨ds, s', hread, h⟩ := complete_method hs.next hds
    exact ⟨ds, s', hread, h.toPasses.cons, h.shown⟩
  | marked hds =>
    refine .bind_ok (word_eq hs _) (.bind_ok (keyword_eq hs.next) ?_)
    obtain ⟨ds, s', hread, h⟩ := complete_method hs.next.next hds
    exact ⟨ds, s', hread, h.toPasses.cons.cons, h.shown⟩

theorem sound_declarations (rounds : Nat) {s : Reading} (hs : s.Left ts)
    (hrounds : ts.length < rounds) : Ends (declarations rounds s) fun ds s' =>
      ∃ trees, AreDeclarations ts trees ∧ ReadsAll Declaration.tree? s trees ds s' := by
  induction rounds generalizing s ts with
  | zero => exact absurd hrounds (Nat.not_lt_zero _)
  | succ rounds ih =>
    refine .bind_ok (current_eq hs) ?_
    have hmore : Ends ((do return (← declaration) ++ (← declarations rounds) : Reader _) s)
        fun ds s' => ∃ trees, AreDeclarations ts trees ∧ ReadsAll Declaration.tree? s trees ds s' := by
      refine (sound_declaration hs).bind fun ds s₁ ⟨rest, trees, htrees, hds⟩ => ?_
      have hrest := hds.shorter
      refine (ih hds.left (by omega)).bind fun ds' s' ⟨trees', htrees', hds'⟩ => ?_
      exact ⟨trees ++ trees', .cons htrees htrees', .append hds hds'⟩
    match ts, hmore with
    | [], _ => exact ⟨[], .nil, .nil⟩
    | .finish :: _, _ => exact absurd rfl hs.ne_finish
    | .word _ :: _, hmore | .inputVar _ :: _, hmore | .outputVar _ :: _, hmore
    | .inOutVar _ :: _, hmore | .number _ :: _, hmore | .text _ :: _, hmore
    | .mark _ :: _, hmore => exact hmore

theorem complete_declarations (rounds : Nat) {s : Reading} {trees : List Tree.Declaration}
    (hs : s.Left ts) (hrounds : ts.length < rounds) (htrees : AreDeclarations ts trees) :
    Succeeds (declarations rounds s) (ReadsAll Declaration.tree? s trees) := by
  induction rounds generalizing s ts trees with
  | zero => exact absurd hrounds (Nat.not_lt_zero _)
  | succ rounds ih =>
    refine .bind_ok (current_eq hs) ?_
    cases htrees with
    | nil => exact ⟨[], s, rfl, .nil⟩
    | @cons _ rest trees trees' hfirst hothers =>
      have hmore : Succeeds ((do return (← declaration) ++ (← declarations rounds) : Reader _) s)
          (ReadsAll Declaration.tree? s (trees ++ trees')) := by
        refine (complete_declaration hs hfirst).bind fun ds s₁ hds => ?_
        have hrest := hds.shorter
        refine (ih hds.left (by omega) hothers).bind fun ds' s' hds' => ?_
        exact ⟨_, _, rfl, .append hds hds'⟩
      cases hfirst <;> exact hmore

end Declarations

/-- Tokens that end with `finish` are read exactly if they follow the grammar, and what was read
shows the tree that they describe. Any other tokens are refused with a fault of the grammar. -/
theorem declarations_follow_grammar {tokens : List Placed} {ts : List Token}
    (htokens : tokens.map (·.token) = ts ++ [.finish]) (hinner : .finish ∉ ts)
    (names : SymbolTable) :
    (∀ trees, (∃ ds s, (bounded declarations).run (.start tokens names) = .ok ds s ∧
        ds.mapM (·.tree? s.draft.symbols) = some trees) ↔ AreDeclarations ts trees) ∧
      ((∀ trees, ¬AreDeclarations ts trees) → ∃ fault place s,
        (bounded declarations).run (.start tokens names) =
          .error (.refused ⟨.grammatical fault, place⟩) s) := by
  have hs := Reading.left_start htokens hinner names
  have hsound : Ends ((bounded declarations).run (.start tokens names)) _ :=
    sound_declarations _ hs hs.bound
  refine ⟨fun trees => ⟨?_, fun htrees => ?_⟩, fun hnone => ?_⟩
  · rintro ⟨ds, s, hread, hshown⟩
    rw [hread] at hsound
    obtain ⟨trees', htrees', hds⟩ := hsound
    obtain rfl := Option.some.inj ((hds.shown _ (le_refl _)).symm.trans hshown)
    exact htrees'
  · obtain ⟨ds, s, hread, hds⟩ := complete_declarations _ hs hs.bound htrees
    exact ⟨ds, s, hread, hds.shown _ (le_refl _)⟩
  · cases hread : (bounded declarations).run (.start tokens names) with
    | ok ds s =>
      rw [hread] at hsound
      obtain ⟨trees, htrees, -⟩ := hsound
      exact absurd htrees (hnone trees)
    | error e s =>
      rw [hread] at hsound
      obtain ⟨fault, place, rfl⟩ := hsound
      exact ⟨fault, place, s, rfl⟩

/-- Whoever is to go walks unless the place is shut. -/
def journey : List Token :=
  [.word "top", .word "method", .word "go", .mark .openParen, .mark .closeParen, .mark .openBrace,
    .word "open", .mark .colon, .word "not", .mark .openParen, .word "shut", .mark .openParen,
    .word "here", .mark .closeParen, .mark .closeParen, .mark .arrow, .word "walk",
    .mark .openParen, .inOutVar "x", .mark .closeParen, .mark .semicolon, .mark .closeBrace]

def journeyTree : Tree.Declaration :=
  .method "go" [] [⟨"open", some (.not (.fact "shut" [.literal (.symbol "here")])),
    [⟨"walk", [.var .inOut "x"]⟩]⟩] true

theorem journey_derives : AreDeclarations journey [journeyTree] :=
  .cons (.marked (.method .none (.more (.guarded (.joined (.one (.not (.one (.fact (by decide)
    (.some (.one (.literal (.symbol (by decide) (by decide) rfl))))))))) (.one (.call (.some
      (.one .inOut)))) .present) .done))) .nil

/-- The tokens of a text that consists of `ts`, all at one place. -/
def placed (ts : List Token) : List Placed := (ts ++ [Token.finish]).map (⟨·, .start⟩)

theorem map_placed (ts : List Token) : (placed ts).map (·.token) = ts ++ [.finish] := by
  simp [placed, Function.comp_def]

theorem declarations_follow_grammar_journey :
    (∃ ds s, (bounded declarations).run (.start (placed journey) .empty) = .ok ds s ∧
      ds.mapM (·.tree? s.draft.symbols) = some [journeyTree]) ∧
    ∃ fault place s, (bounded declarations).run (.start (placed [.mark .semicolon]) .empty) =
      .error (.refused ⟨.grammatical fault, place⟩) s := by
  have h := declarations_follow_grammar (map_placed journey) (by simp [journey]) .empty
  have h' := declarations_follow_grammar (map_placed [.mark .semicolon]) (by simp) .empty
  refine ⟨(h.1 _).mpr journey_derives, h'.2 fun trees htrees => ?_⟩
  cases htrees with
  | cons h => cases h

end Source.Reader

end TaskNetwork
