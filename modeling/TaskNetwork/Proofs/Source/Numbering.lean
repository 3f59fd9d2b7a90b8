import TaskNetwork.Source.Domain
import TaskNetwork.Proofs.Domain.Postorder
import Mathlib.Data.List.Range

/-! The identities of the nodes that a text declares. Each node takes the next free one as it is
read, which is when its inner nodes have been read, so the nodes of a text have the identities from
0 on in the order of their ends. -/

namespace TaskNetwork

/-- The identities from `lo` up to `hi` in order. -/
structure Block (lo : NodeId) (ids : List NodeId) (hi : NodeId) : Prop where
  next : lo + ids.length = hi
  eq_range : ids = List.range' lo ids.length

namespace Block

variable {lo hi : NodeId} {ids : List NodeId}

theorem nil (lo : NodeId) : Block lo [] lo := ⟨rfl, rfl⟩

theorem node (h : Block lo ids hi) : Block lo (ids ++ [hi]) (hi + 1) := by
  have hlength : (ids ++ [hi]).length = ids.length + 1 := by simp
  refine ⟨by rw [hlength, ← h.next, Nat.add_assoc], ?_⟩
  rw [hlength, List.range'_1_concat, ← h.eq_range, h.next]

theorem eq_range_zero (h : Block 0 ids hi) : ids = List.range hi := by
  rw [List.range_eq_range', ← h.next, Nat.zero_add]
  exact h.eq_range

end Block

namespace Source.Reader

variable {α β : Type} {before : List NodeId} {r : Reader α} {f : α → Reader β}

/-- After the identities `before` had been taken, those of `after` have been taken at the end. -/
def Numbers (before : List NodeId) (r : Reader α) (after : α → List NodeId) : Prop :=
  ∀ lo s, Block lo before s.draft.nextNode → ∀ a s', r s = .ok a s' →
    Block lo (after a) s'.draft.nextNode

/-- The reader takes the identities of the nodes that it reads. -/
def Gives (r : Reader α) (ids : α → List NodeId) : Prop :=
  ∀ before, Numbers before r fun a => before ++ ids a

/-- The reader takes no identity. -/
def Quiet (r : Reader α) : Prop := ∀ s a s', r s = .ok a s' → s'.draft.nextNode = s.draft.nextNode

section Rules

theorem Numbers.bind {mid : α → List NodeId} {after : β → List NodeId} (h : Numbers before r mid)
    (hf : ∀ a, Numbers (mid a) (f a) after) : Numbers before (r >>= f) after := by
  intro lo s hs b s' heq
  have heq : EStateM.bind r f s = .ok b s' := heq
  unfold EStateM.bind at heq
  split at heq
  · next a t hr => exact hf a lo t (h lo s hs a t hr) b s' heq
  · cases heq

theorem Quiet.bind_numbers {after : β → List NodeId} (h : Quiet r)
    (hf : ∀ a, Numbers before (f a) after) : Numbers before (r >>= f) after :=
  Numbers.bind (fun lo s hs a s' heq => by rw [h s a s' heq]; exact hs) hf

theorem numbers_pure {after : α → List NodeId} {a : α} (h : after a = before) :
    Numbers before (pure a) after := by
  intro lo s hs b s' heq
  cases heq
  rw [h]
  exact hs

theorem numbers_throw {after : α → List NodeId} (e : ReadError) :
    Numbers before (throw e : Reader α) after := by
  intro lo s _ a s' heq
  cases heq

theorem Quiet.bind (h : Quiet r) (hf : ∀ a, Quiet (f a)) : Quiet (r >>= f) := by
  intro s b s' heq
  have heq : EStateM.bind r f s = .ok b s' := heq
  unfold EStateM.bind at heq
  split at heq
  · next a t hr => rw [hf a t b s' heq, h s a t hr]
  · cases heq

theorem quiet_pure (a : α) : Quiet (pure a : Reader α) := by
  intro s b s' heq
  cases heq
  rfl

theorem quiet_throw (e : ReadError) : Quiet (throw e : Reader α) := by
  intro s b s' heq
  cases heq

theorem Gives.quiet {ids : α → List NodeId} (h : Gives r ids) (hids : ∀ a, ids a = []) :
    Quiet r := by
  intro s a s' heq
  have hblock := h [] s.draft.nextNode s (.nil _) a s' heq
  have hnext := hblock.next
  simpa [hids] using hnext.symm

theorem Quiet.gives {ids : α → List NodeId} (h : Quiet r) (hids : ∀ a, ids a = []) :
    Gives r ids := by
  intro before lo s hs a s' heq
  rw [h s a s' heq]
  simpa [hids] using hs

end Rules

section Tokens

theorem quiet_current : Quiet current := by
  intro s a s' heq
  unfold current at heq
  split at heq <;> cases heq
  rfl

theorem quiet_nextIs (p : Punctuation) : Quiet (nextIs p) := by
  intro s a s' heq
  unfold nextIs at heq
  split at heq <;> cases heq <;> rfl

theorem quiet_advance : Quiet advance := by
  intro s a s' heq
  unfold advance at heq
  split at heq
  · cases heq
  · split at heq <;> cases heq <;> rfl

theorem quiet_unexpected (wanted : Wanted) : Quiet (unexpected wanted : Reader α) :=
  quiet_current.bind fun _ => quiet_throw _

theorem quiet_eat (p : Punctuation) : Quiet (eat p) := by
  refine quiet_current.bind fun t => ?_
  split
  · split
    · exact quiet_advance.bind fun _ => quiet_pure _
    · exact quiet_pure _
  · exact quiet_pure _

theorem quiet_expect (p : Punctuation) : Quiet (expect p) := by
  refine (quiet_eat p).bind fun eaten => ?_
  cases eaten with
  | false => exact quiet_unexpected _
  | true => exact quiet_pure _

theorem quiet_word (wanted : Wanted) : Quiet (word wanted) := by
  refine quiet_current.bind fun t => ?_
  split
  · exact quiet_advance.bind fun _ => quiet_pure _
  · exact quiet_unexpected wanted

theorem quiet_keyword (name : String) : Quiet (keyword name) := by
  refine quiet_current.bind fun t => ?_
  split
  · split
    · exact quiet_advance.bind fun _ => quiet_pure _
    · exact quiet_unexpected _
  · exact quiet_unexpected _

end Tokens

section Lists

variable {item : Reader α} {ids : α → List NodeId}

theorem Numbers.bounded {body : Nat → Reader α} {after : α → List NodeId}
    (h : ∀ n, Numbers before (body n) after) : Numbers before (bounded body) after :=
  fun lo s hs => h s.size lo s hs

theorem gives_commaList (h : Gives item ids) (rounds : Nat) :
    Gives (commaList item rounds) fun as => as.flatMap ids := by
  induction rounds with
  | zero => exact fun _ => numbers_throw _
  | succ rounds ih =>
    refine fun before => (h before).bind fun first => ?_
    refine (quiet_eat .comma).bind_numbers fun eaten => ?_
    cases eaten with
    | false => exact numbers_pure (by simp)
    | true => exact (ih _).bind fun rest => numbers_pure (by simp)

theorem gives_itemsUntil (close : Punctuation) (h : Gives item ids) (rounds : Nat) :
    Gives (itemsUntil close item rounds) fun as => as.flatMap ids := by
  induction rounds with
  | zero => exact fun _ => numbers_throw _
  | succ rounds ih =>
    refine fun before => (quiet_eat close).bind_numbers fun eaten => ?_
    cases eaten with
    | true => exact numbers_pure (by simp)
    | false =>
      exact (h before).bind fun first => (ih _).bind fun rest => numbers_pure (by simp)

theorem gives_listUntil (close : Punctuation) (h : Gives item ids) :
    Gives (listUntil close item) fun as => as.flatMap ids := by
  refine fun before => (quiet_eat close).bind_numbers fun eaten => ?_
  cases eaten with
  | true => exact numbers_pure (by simp)
  | false =>
    refine (Numbers.bounded fun n => gives_commaList h n before).bind fun as => ?_
    exact (quiet_expect close).bind_numbers fun _ => numbers_pure rfl

theorem Quiet.listUntil (close : Punctuation) (h : Quiet item) : Quiet (listUntil close item) := by
  have hitem : Gives item fun _ => [] := h.gives fun _ => rfl
  exact (gives_listUntil close hitem).quiet (by simp)

end Lists

section Drafts

variable {part : Builder α}

theorem quiet_draft (h : ∀ draft, (part draft).2.nextNode = draft.nextNode) :
    Quiet (draft part) := by
  intro s a s' heq
  cases heq
  exact h s.draft

/-- A node is drafted after its inner nodes. -/
theorem numbers_draft {inner : List NodeId} {ids : α → List NodeId}
    (h : ∀ draft, (part draft).2.nextNode = draft.nextNode + 1 ∧
      ids (part draft).1 = inner ++ [draft.nextNode]) :
    Numbers (before ++ inner) (draft part) fun a => before ++ ids a := by
  intro lo s hs a s' heq
  cases heq
  obtain ⟨hnext, hids⟩ := h s.draft
  show Block lo (before ++ ids (part s.draft).1) (part s.draft).2.nextNode
  rw [hnext, hids, ← List.append_assoc]
  exact hs.node

/-- A node without inner nodes. -/
theorem gives_draft {ids : α → List NodeId} (h : ∀ draft,
    (part draft).2.nextNode = draft.nextNode + 1 ∧ ids (part draft).1 = [draft.nextNode]) :
    Gives (draft part) ids := by
  intro before
  have hnode : Numbers (before ++ []) (draft part) fun a => before ++ ids a := numbers_draft h
  rwa [List.append_nil] at hnode

end Drafts

section Terms

theorem quiet_literalWithin (depth : Nat) : Quiet (literalWithin depth) := by
  induction depth with
  | zero => exact quiet_throw _
  | succ depth ih =>
    refine quiet_advance.bind fun t => ?_
    split
    · exact quiet_pure _
    · exact quiet_pure _
    · exact quiet_pure _
    · exact quiet_pure _
    · split
      · exact quiet_throw _
      · exact quiet_draft fun _ => rfl
    · exact (Quiet.listUntil _ ih).bind fun _ => quiet_pure _
    · exact quiet_throw _

theorem quiet_literal : Quiet literal := fun s => quiet_literalWithin s.size s

theorem quiet_takeVariable (role : Role) (name : String) : Quiet (term.takeVariable role name) :=
  (quiet_draft fun _ => rfl).bind fun _ => quiet_advance.bind fun _ => quiet_pure _

theorem quiet_term : Quiet term := by
  refine quiet_current.bind fun t => ?_
  split
  · exact quiet_takeVariable _ _
  · exact quiet_takeVariable _ _
  · exact quiet_takeVariable _ _
  · split
    · exact quiet_takeVariable _ _
    · refine (quiet_nextIs _).bind fun dotted => ?_
      cases dotted with
      | false => exact quiet_literal.bind fun _ => quiet_pure _
      | true =>
        exact (quiet_word _).bind fun _ => quiet_advance.bind fun _ => (quiet_word _).bind fun _ =>
          quiet_draft fun _ => rfl
  · exact quiet_literal.bind fun _ => quiet_pure _

theorem quiet_terms : Quiet terms := Quiet.listUntil _ quiet_term

end Terms

section Conditions

theorem postIds_all (id : NodeId) (cs : List Condition) :
    (Condition.all id cs).postIds = cs.flatMap (·.postIds) ++ [id] := by
  rw [Condition.postIds, Condition.postIdsAll_eq_flatMap]

theorem postIds_any (id : NodeId) (cs : List Condition) :
    (Condition.any id cs).postIds = cs.flatMap (·.postIds) ++ [id] := postIds_all id cs

theorem numbers_joined (before : List NodeId) (cs : List Condition) :
    Numbers (before ++ cs.flatMap (·.postIds)) (joined cs) fun c => before ++ c.postIds := by
  unfold joined
  split
  · exact numbers_pure (by simp)
  · exact numbers_draft fun _ => ⟨rfl, postIds_all _ _⟩

theorem gives_conditionWithin (depth : Nat) : Gives (conditionWithin depth) (·.postIds) := by
  induction depth with
  | zero => exact fun _ => numbers_throw _
  | succ depth ih =>
    have hfact (name : String) (args : List Term) :
        Gives (draft (Builder.fact name args)) (·.postIds) := gives_draft fun _ => ⟨rfl, rfl⟩
    refine fun before => (quiet_word _).bind_numbers fun name => ?_
    refine (quiet_eat _).bind_numbers fun opened => ?_
    cases opened with
    | false => exact hfact name [] before
    | true =>
      simp only [↓reduceIte]
      split
      · exact (gives_listUntil _ ih before).bind fun cs =>
          numbers_draft fun _ => ⟨rfl, postIds_all _ cs⟩
      · split
        · exact (gives_listUntil _ ih before).bind fun cs =>
            numbers_draft fun _ => ⟨rfl, postIds_any _ cs⟩
        · split
          · refine (Numbers.bounded fun n => gives_commaList ih n before).bind fun cs => ?_
            refine (numbers_joined before cs).bind fun c => ?_
            exact (quiet_expect _).bind_numbers fun _ => numbers_draft fun _ => ⟨rfl, rfl⟩
          · exact quiet_terms.bind_numbers fun args => hfact name args before

theorem gives_conjunction : Gives conjunction (·.postIds) := by
  intro before
  have hcondition : Gives condition (·.postIds) :=
    fun before => Numbers.bounded fun n => gives_conditionWithin n before
  exact (Numbers.bounded fun n => gives_commaList hcondition n before).bind fun cs =>
    numbers_joined before cs

end Conditions

section Declarations

theorem quiet_task : Quiet task :=
  (quiet_word _).bind fun _ => (quiet_expect _).bind fun _ => quiet_terms.bind fun _ =>
    quiet_draft fun _ => rfl

theorem quiet_tasks : Quiet (bounded (commaList task)) := by
  have htask : Gives task fun _ => [] := quiet_task.gives fun _ => rfl
  have htasks : Gives (bounded (commaList task)) _ :=
    fun before => Numbers.bounded fun n => gives_commaList htask n before
  exact htasks.quiet (by simp)

theorem gives_branch : Gives branch (·.postIds) := by
  have hdraft (label : String) (tasks : List Task) (before : List NodeId) :
      (c : Option Condition) → Numbers (before ++ (c.map (·.postIds)).getD [])
        (draft (Builder.branch label c tasks)) fun b => before ++ b.postIds
    | none | some _ => numbers_draft fun _ => ⟨rfl, rfl⟩
  intro before
  refine (quiet_word _).bind_numbers fun label => (quiet_expect _).bind_numbers fun _ => ?_
  have htasks (c : Option Condition) : Numbers (before ++ (c.map (·.postIds)).getD []) (do
      expect .arrow
      let tasks ← bounded (commaList task)
      let _ ← eat .semicolon
      draft (Builder.branch label c tasks)) fun b => before ++ b.postIds :=
    (quiet_expect _).bind_numbers fun _ => quiet_tasks.bind_numbers fun tasks =>
      (quiet_eat _).bind_numbers fun _ => hdraft label tasks before c
  refine quiet_current.bind_numbers fun t => ?_
  split
  · exact Numbers.bind (numbers_pure (by simp)) htasks
  · exact Numbers.bind ((gives_conjunction before).bind fun c => numbers_pure rfl) htasks

theorem gives_constants : Gives constants fun ds => ds.flatMap (·.postIds) := by
  have hconstant (group : String) : Gives (constant group) (·.postIds) := by
    intro before
    refine (quiet_word _).bind_numbers fun name => (quiet_expect _).bind_numbers fun _ => ?_
    refine quiet_literal.bind_numbers fun value => (quiet_eat _).bind_numbers fun _ => ?_
    exact (quiet_draft fun _ => rfl).bind_numbers fun c =>
      numbers_pure (by simp [Declaration.postIds])
  refine fun before => (quiet_word _).bind_numbers fun group => ?_
  exact (quiet_expect _).bind_numbers fun _ =>
    Numbers.bounded fun n => gives_itemsUntil _ (hconstant group) n before

theorem gives_clause : Gives clause fun ds => ds.flatMap (·.postIds) := by
  intro before
  refine (quiet_word _).bind_numbers fun name => (quiet_expect _).bind_numbers fun _ => ?_
  refine quiet_terms.bind_numbers fun params => (quiet_expect _).bind_numbers fun _ => ?_
  refine (gives_conjunction before).bind fun condition => ?_
  refine (quiet_expect _).bind_numbers fun _ => ?_
  have hclause : Numbers (before ++ condition.postIds)
      (draft (Builder.clause name params condition)) fun c => before ++ c.postIds :=
    numbers_draft fun _ => ⟨rfl, rfl⟩
  exact hclause.bind fun c => numbers_pure (by simp [Declaration.postIds])

theorem gives_method (marked : Bool) : Gives (method marked) fun ds => ds.flatMap (·.postIds) := by
  intro before
  refine (quiet_word _).bind_numbers fun name => (quiet_expect _).bind_numbers fun _ => ?_
  refine quiet_terms.bind_numbers fun params => (quiet_expect _).bind_numbers fun _ => ?_
  refine (Numbers.bounded fun n => gives_itemsUntil _ gives_branch n before).bind fun branches => ?_
  have hmethod : Numbers (before ++ branches.flatMap (·.postIds))
      (draft (Builder.method name params branches)) fun m => before ++ m.postIds :=
    numbers_draft fun _ => ⟨rfl, rfl⟩
  exact hmethod.bind fun m => numbers_pure (by simp [Declaration.postIds])

theorem gives_declaration : Gives declaration fun ds => ds.flatMap (·.postIds) := by
  refine fun before => quiet_current.bind_numbers fun start => ?_
  refine (quiet_word _).bind_numbers fun name => ?_
  split
  · exact gives_constants before
  · split
    · exact gives_clause before
    · split
      · exact gives_method false before
      · split
        · exact (quiet_keyword _).bind_numbers fun _ => gives_method true before
        · exact numbers_throw _

theorem gives_declarations (rounds : Nat) :
    Gives (declarations rounds) fun ds => ds.flatMap (·.postIds) := by
  induction rounds with
  | zero => exact fun _ => numbers_throw _
  | succ rounds ih =>
    refine fun before => quiet_current.bind_numbers fun t => ?_
    split
    · exact numbers_pure (by simp)
    · exact (gives_declaration before).bind fun ds => (ih _).bind fun rest => numbers_pure (by simp)

end Declarations

end Source.Reader

namespace Domain

variable {text : String} {names names' : SymbolTable} {declarations : List Declaration} {d : Domain}

/-- A text that is read makes a domain of declarations whose nodes are numbered from 0 on. -/
theorem declarations_of_read (h : Domain.read text names = (.ok d, names')) :
    ∃ placed declarations s, Source.tokens text = .ok placed ∧
      (Source.Reader.bounded Source.Reader.declarations).run (.start placed names) =
        .ok declarations s ∧
      ofDeclarations declarations = .ok d ∧
      declarations.flatMap (·.postIds) = List.range s.draft.nextNode := by
  unfold Domain.read at h
  split at h
  · cases h
  · next placed htext =>
    split at h
    · next declarations s hread =>
      have hblock := (Source.Reader.Numbers.bounded fun n =>
        Source.Reader.gives_declarations n []) 0 (.start placed names) (.nil 0) declarations s hread
      refine ⟨placed, declarations, s, htext, hread, ?_, hblock.eq_range_zero⟩
      cases hmade : ofDeclarations declarations with
      | error e =>
        rw [hmade] at h
        cases h
      | ok d' =>
        rw [hmade] at h
        cases h
        rfl
    · cases h

theorem nodeIds_perm_range (hmade : ofDeclarations declarations = .ok d) {n : Nat}
    (hids : declarations.flatMap (·.postIds) = List.range n) : d.nodeIds.Perm (List.range n) := by
  rw [← hids]
  exact (nodeIds_perm_of_declarations hmade).trans
    (List.Perm.flatMap_left declarations fun x _ => x.postIds_perm).symm

/-- The nodes of a domain that was read from a text differ. -/
theorem nodeIds_nodup_of_read (h : Domain.read text names = (.ok d, names')) : d.nodeIds.Nodup := by
  obtain ⟨-, declarations, s, -, -, hmade, hids⟩ := declarations_of_read h
  exact (nodeIds_perm_range hmade hids).nodup_iff.mpr List.nodup_range

theorem narrow_of_read (h : Domain.read text names = (.ok d, names')) : d.Narrow := by
  obtain ⟨-, declarations, -, -, -, hmade, -⟩ := declarations_of_read h
  exact narrow_of_declarations hmade

end Domain

end TaskNetwork
