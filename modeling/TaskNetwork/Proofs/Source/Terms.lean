import TaskNetwork.Proofs.Source.Reading

/-! Reading literals and terms follows their grammar: whatever is read is a phrase of it, and every
phrase is read where nothing follows that could go on with it. -/

namespace TaskNetwork

namespace Source.Reader

open SymbolTable (le_trans le_intern name?_of_intern_le)

variable {s : Reading} {ts rest : List Token}

section Literals

theorem stops_of_isLiteral {value : Tree.Literal} (h : IsLiteral ts rest value) {p : Punctuation}
    (hp : p ≠ .openBracket) : Stops p ts := by
  cases h with
  | list => simpa [Stops] using hp.symm
  | _ => simp [Stops]

theorem literalWithin_word {name : String} (depth : Nat) (hs : s.Left (.word name :: ts))
    (hyes : name ≠ "true") (hno : name ≠ "false") : literalWithin (depth + 1) s =
      (if isWildcard name then refuseAt s.place (.wildcardLiteral name)
        else draft (Builder.symbolLiteral name)) s.next := by
  rw [literalWithin, bind_ok (advance_eq hs)]
  dsimp only
  split
  all_goals simp_all

theorem drafts_symbolLiteral (name : String) (d : Draft) :
    Drafts Value.tree? (Builder.symbolLiteral name) d (.symbol name) := by
  refine ⟨le_intern _ _, fun names hnames => ?_⟩
  have hname : names.name? (d.symbols.intern name).1 = some name := name?_of_intern_le hnames
  show (do return Tree.Literal.symbol (← names.name? (d.symbols.intern name).1)) = _
  rw [hname]
  rfl

theorem reads_list {items : List Value} {trees : List Tree.Literal} {s' : Reading}
    (h : Reads (viewAll Value.tree?) s.next ts rest trees items s') (t : Token) :
    Reads Value.tree? s (t :: ts) rest (.list trees) (.list items) s' :=
  ⟨h.toPasses.cons, fun names hnames => by
    simp [Value.tree?, Value.treeAll?_eq_mapM, h.shown names hnames]⟩

theorem sound_literalWithin (depth : Nat) :
    Sound depth (literalWithin depth) Value.tree? IsLiteral := by
  induction depth with
  | zero => exact fun _ _ _ hn => absurd hn (Nat.not_lt_zero _)
  | succ depth ih =>
    intro s ts hs hn
    match ts with
    | [] => exact .bind_ok (advance_finish hs) (ends_refuseAt _ _)
    | .number x :: rest =>
      exact .bind_ok (advance_eq hs) ⟨rest, _, .number, .token hs, fun _ _ => rfl⟩
    | .text x :: rest =>
      exact .bind_ok (advance_eq hs) ⟨rest, _, .text, .token hs, fun _ _ => rfl⟩
    | .word name :: rest =>
      by_cases hyes : name = "true"
      · subst hyes
        exact .bind_ok (advance_eq hs) ⟨rest, _, .yes, .token hs, fun _ _ => rfl⟩
      by_cases hno : name = "false"
      · subst hno
        exact .bind_ok (advance_eq hs) ⟨rest, _, .no, .token hs, fun _ _ => rfl⟩
      rw [literalWithin_word depth hs hyes hno]
      cases hwildcard : isWildcard name with
      | true => exact ends_refuseAt _ _
      | false =>
        exact ends_draft (.token hs) (drafts_symbolLiteral _ _) (.symbol hyes hno hwildcard)
    | .mark p :: rest =>
      refine .bind_ok (advance_eq hs) ?_
      cases p with
      | openBracket =>
        refine (sound_listUntil .closeBracket ih s.next rest hs.next (by simpa using hn)).bind ?_
        rintro items s' ⟨rest', trees, htrees, hitems⟩
        exact ⟨rest', _, .list htrees, reads_list hitems _⟩
      | _ => exact ends_refuseAt _ _
    | .inputVar _ :: _ | .outputVar _ :: _ | .inOutVar _ :: _ | .finish :: _ =>
      exact .bind_ok (advance_eq hs) (ends_refuseAt _ _)

theorem complete_literalWithin (depth : Nat) :
    Complete depth (literalWithin depth) Value.tree? IsLiteral fun _ => True := by
  induction depth with
  | zero => exact fun _ _ _ _ _ hn => absurd hn (Nat.not_lt_zero _)
  | succ depth ih =>
    intro s ts rest value hs hn hvalue _
    cases hvalue with
    | number | text | yes | no =>
      exact .bind_ok (advance_eq hs) ⟨_, _, rfl, .token hs, fun _ _ => rfl⟩
    | symbol hyes hno hwildcard =>
      rw [literalWithin_word depth hs hyes hno, hwildcard]
      exact succeeds_draft (.token hs) (drafts_symbolLiteral _ _)
    | list hitems =>
      refine .bind_ok (advance_eq hs) ?_
      refine (complete_listUntil _ ih (fun _ => trivial) (by decide) (fun _ => trivial) ?_ s.next _
        _ _ hs.next (by simpa using hn) hitems trivial).bind fun items s' h => ?_
      · exact fun _ _ _ h => stops_of_isLiteral h (by decide)
      · exact ⟨_, _, rfl, reads_list h _⟩

theorem sound_literal (n : Nat) : Sound n literal Value.tree? IsLiteral :=
  fun s ts hs _ => sound_literalWithin s.size s ts hs hs.bound

theorem complete_literal (n : Nat) : Complete n literal Value.tree? IsLiteral fun _ => True :=
  fun s ts rest b hs _ => complete_literalWithin s.size s ts rest b hs hs.bound

end Literals

section Terms

theorem drafts_variableOf (role : Role) (name : String) (d : Draft) :
    Drafts Term.tree? (Builder.variableOf role name) d (.var role name) := by
  refine ⟨le_intern _ _, fun names hnames => ?_⟩
  have hname : names.name? (d.symbols.intern name).1 = some name := name?_of_intern_le hnames
  show (do return Tree.Term.var role (← names.name? (d.symbols.intern name).1)) = _
  rw [hname]
  rfl

theorem drafts_constantTerm (group name : String) (d : Draft) :
    Drafts Term.tree? (Builder.constantTerm group name) d (.constant group name) := by
  let t := (d.symbols.intern group).2
  refine ⟨le_trans (le_intern _ group) (le_intern t name), fun names hnames => ?_⟩
  have hgroup : names.name? (d.symbols.intern group).1 = some group :=
    name?_of_intern_le (le_trans (le_intern t name) hnames)
  have hname : names.name? (t.intern name).1 = some name := name?_of_intern_le hnames
  show (names.name? (d.symbols.intern group).1).bind (fun group =>
    (names.name? (t.intern name).1).bind fun name => some (Tree.Term.constant group name)) = _
  rw [hgroup, hname]
  rfl

theorem succeeds_takeVariable {t : Token} (role : Role) (name : String) (hs : s.Left (t :: ts)) :
    Succeeds (term.takeVariable role name s)
      (Reads Term.tree? s (t :: ts) ts (.var role name)) := by
  have hpart := drafts_variableOf role name s.draft
  have hleft : { s with draft := (Builder.variableOf role name s.draft).2 }.Left (t :: ts) :=
    ⟨hs.tokens, hs.inner, hs.bound⟩
  refine .bind_ok rfl (.bind_ok (advance_eq hleft) ⟨_, _, rfl, ?_⟩)
  exact ⟨⟨hleft.next, Nat.lt_succ_self _, hpart.symbols⟩, hpart.shown⟩

theorem reads_literal {value : Value} {tree : Tree.Literal} {s' : Reading}
    (h : Reads Value.tree? s ts rest tree value s') :
    Reads Term.tree? s ts rest (.literal tree) (.literal value) s' :=
  ⟨h.toPasses, fun names hnames => by simp [Term.tree?, h.shown names hnames]⟩

theorem sound_term (n : Nat) : Sound n term Term.tree? IsTerm := by
  intro s ts hs hn
  have hliteral : Ends ((do return Term.literal (← literal) : Reader Term) s) fun a s' =>
      ∃ rest b, IsTerm ts rest b ∧ Reads Term.tree? s ts rest b a s' :=
    (sound_literal n s ts hs hn).bind fun _ _ ⟨rest, tree, htree, h⟩ =>
      ⟨rest, _, .literal htree, reads_literal h⟩
  have htaken {role : Role} {name : String} {t : Token} {rest : List Token}
      (hs : s.Left (t :: rest)) (h : IsTerm (t :: rest) rest (.var role name)) :
      Ends (term.takeVariable role name s) fun a s' =>
        ∃ rest' b, IsTerm (t :: rest) rest' b ∧ Reads Term.tree? s (t :: rest) rest' b a s' :=
    (succeeds_takeVariable role name hs).ends fun _ _ hreads => ⟨rest, _, h, hreads⟩
  refine .bind_ok (current_eq hs) ?_
  match ts with
  | .inputVar name :: rest => exact htaken hs .input
  | .outputVar name :: rest => exact htaken hs .output
  | .inOutVar name :: rest => exact htaken hs .inOut
  | .word name :: rest =>
    dsimp only [List.headD_cons]
    cases hwildcard : isWildcard name with
    | true => exact htaken hs (.wildcard hwildcard)
    | false =>
      by_cases hdot : rest.head? = some (.mark .dot)
      · obtain ⟨rest, rfl⟩ := List.head?_eq_some_iff.mp hdot
        refine .bind_ok (nextIs_eq hs) (.bind_ok (word_eq hs _) ?_)
        refine .bind_ok (advance_eq hs.next) ?_
        refine (ends_word hs.next.next _).bind fun name' s' ⟨rest', hrest, hs'⟩ => ?_
        subst hrest hs'
        exact ends_draft (((Passes.token hs).next).next) (drafts_constantTerm _ _ _)
          (.constant hwildcard)
      · exact .bind_ok (nextIs_of_ne hs hdot) hliteral
  | [] | .number _ :: _ | .text _ :: _ | .mark _ :: _ | .finish :: _ => exact hliteral

theorem complete_term (n : Nat) : Complete n term Term.tree? IsTerm (Stops .dot) := by
  intro s ts rest tree hs hn htree hstops
  refine .bind_ok (current_eq hs) ?_
  cases htree with
  | input | output | inOut => exact succeeds_takeVariable _ _ hs
  | wildcard hwildcard =>
    simp only [List.headD_cons, hwildcard, ↓reduceIte]
    exact succeeds_takeVariable _ _ hs
  | constant hwildcard =>
    simp only [List.headD_cons, hwildcard]
    refine .bind_ok (nextIs_eq hs) (.bind_ok (word_eq hs _) ?_)
    refine .bind_ok (advance_eq hs.next) (.bind_ok (word_eq hs.next.next _) ?_)
    exact succeeds_draft (((Passes.token hs).next).next) (drafts_constantTerm _ _ _)
  | literal hvalue =>
    have hliteral : Succeeds ((do return Term.literal (← literal) : Reader Term) s) _ :=
      (complete_literal n s ts rest _ hs hn hvalue trivial).bind fun _ _ h =>
        ⟨_, _, rfl, reads_literal h⟩
    cases hvalue with
    | number | text | list => exact hliteral
    | yes | no => exact .bind_ok (nextIs_of_ne hs hstops) hliteral
    | symbol _ _ hwildcard =>
      simp only [List.headD_cons, hwildcard]
      exact .bind_ok (nextIs_of_ne hs hstops) hliteral

theorem stops_of_isTerm {tree : Tree.Term} (h : IsTerm ts rest tree) {p : Punctuation}
    (hp : p ≠ .openBracket) : Stops p ts := by
  cases h with
  | literal h => exact stops_of_isLiteral h hp
  | _ => simp [Stops]

theorem sound_terms (n : Nat) : Sound n terms (viewAll Term.tree?) AreTerms :=
  sound_listUntil .closeParen (sound_term n)

theorem complete_terms (n : Nat) :
    Complete n terms (viewAll Term.tree?) AreTerms fun _ => True :=
  complete_listUntil _ (complete_term n) (by simp [Stops]) (by decide) (by simp [Stops])
    fun _ _ _ h => stops_of_isTerm h (by decide)

end Terms

end Source.Reader

end TaskNetwork
