import TaskNetwork.Proofs.Source.Reading
import TaskNetwork.Source.Domain
import TaskNetwork.Source.World

/-! Where readers refuse a text. They have places from the tokens alone, so each fault is placed
where some token is. -/

namespace TaskNetwork.Source

variable {α β : Type} {P : Position → Prop}

/-- The tokens left are placed in `P`, or the text is refused at such a place. -/
def Stays (P : Position → Prop) : EStateM.Result ReadError Reading α → Prop
  | .ok _ s => ∀ t ∈ s.tokens, P t.place
  | .error (.refused e) _ => P e.place
  | .error .stuck _ => True

/-- From tokens that are placed in `P`, the reader leaves such tokens or refuses the text at such a
place. -/
def Within (P : Position → Prop) (r : Reader α) : Prop :=
  ∀ s, (∀ t ∈ s.tokens, P t.place) → Stays P (r s)

namespace Within

variable {r : Reader α} {f : α → Reader β} {place : Position}

theorem pure (a : α) : Within P (pure a : Reader α) := fun _ hs => hs

theorem stuck : Within P (throw .stuck : Reader α) := fun _ _ => trivial

theorem refuseAt (h : P place) (fault : GrammarFault) :
    Within P (Reader.refuseAt place fault : Reader α) := fun _ _ => h

theorem draft (part : Builder α) : Within P (Reader.draft part) := fun _ hs => hs

theorem bind (h : Within P r) (hf : ∀ a, Within P (f a)) : Within P (r >>= f) := by
  intro s hs
  have hr := h s hs
  cases heq : r s with
  | ok a s' =>
    rw [heq] at hr
    rw [bind_ok heq]
    exact hf a s' hr
  | error e s' =>
    rw [heq] at hr
    rw [bind_error heq]
    cases e <;> exact hr

theorem bounded {body : Nat → Reader α} (h : ∀ rounds, Within P (body rounds)) :
    Within P (Reader.bounded body) := fun s hs => h s.size s hs

theorem ite {c : Prop} [Decidable c] {r' : Reader α} (h : Within P r) (h' : Within P r') :
    Within P (if c then r else r') := by
  split
  · exact h
  · exact h'

/-- The token that is read next is placed in `P`. -/
theorem current {f : Placed → Reader β} (hf : ∀ t, P t.place → Within P (f t)) :
    Within P (Reader.current >>= f) := by
  intro s hs
  cases htokens : s.tokens with
  | nil =>
    have hcurrent : Reader.current s = .error .stuck s := by rw [Reader.current, htokens]
    rw [bind_error hcurrent]
    trivial
  | cons t rest =>
    have hcurrent : Reader.current s = .ok t s := by rw [Reader.current, htokens]
    rw [bind_ok hcurrent]
    exact hf t (hs t (htokens ▸ List.mem_cons_self)) s hs

theorem advance {f : Placed → Reader β} (hf : ∀ t, P t.place → Within P (f t)) :
    Within P (Reader.advance >>= f) := by
  intro s hs
  cases htokens : s.tokens with
  | nil =>
    have hadvance : Reader.advance s = .error .stuck s := by rw [Reader.advance, htokens]
    rw [bind_error hadvance]
    trivial
  | cons t rest =>
    obtain ⟨ht, hrest⟩ := List.forall_mem_cons.mp (htokens ▸ hs)
    obtain ⟨s', hadvance, hs'⟩ : ∃ s', Reader.advance s = .ok t s' ∧
        ∀ t ∈ s'.tokens, P t.place := by
      rw [Reader.advance, htokens]
      dsimp only
      split
      · exact ⟨s, rfl, hs⟩
      · exact ⟨_, rfl, hrest⟩
    rw [bind_ok hadvance]
    exact hf t ht s' hs'

end Within

namespace Reader

theorem within_nextIs (p : Punctuation) : Within P (nextIs p) := by
  intro s hs
  obtain ⟨next, hnext⟩ : ∃ next, nextIs p s = .ok next s := by
    unfold nextIs
    split <;> exact ⟨_, rfl⟩
  rw [hnext]
  exact hs

theorem within_unexpected (wanted : Wanted) : Within P (unexpected wanted : Reader α) :=
  .current fun _ ht => .refuseAt ht _

theorem within_eat (p : Punctuation) : Within P (eat p) := by
  refine .current fun t _ => ?_
  split
  · exact .ite (.advance fun _ _ => .pure _) (.pure _)
  · exact .pure _

theorem within_expect (p : Punctuation) : Within P (expect p) := by
  refine (within_eat p).bind fun eaten => ?_
  cases eaten with
  | true => exact .pure _
  | false => exact within_unexpected _

theorem within_word (wanted : Wanted) : Within P (word wanted) := by
  refine .current fun t _ => ?_
  split
  · exact .advance fun _ _ => .pure _
  · exact within_unexpected _

theorem within_keyword (name : String) : Within P (keyword name) := by
  refine .current fun t _ => ?_
  split
  · exact .ite (.advance fun _ _ => .pure _) (within_unexpected _)
  · exact within_unexpected _

theorem within_commaList {item : Reader α} (h : Within P item) (rounds : Nat) :
    Within P (commaList item rounds) := by
  induction rounds with
  | zero => exact .stuck
  | succ rounds ih =>
    refine h.bind fun first => (within_eat _).bind fun eaten => ?_
    cases eaten with
    | true => exact ih.bind fun _ => .pure _
    | false => exact .pure _

theorem within_itemsUntil (close : Punctuation) {item : Reader α} (h : Within P item)
    (rounds : Nat) : Within P (itemsUntil close item rounds) := by
  induction rounds with
  | zero => exact .stuck
  | succ rounds ih =>
    refine (within_eat _).bind fun eaten => ?_
    cases eaten with
    | true => exact .pure _
    | false => exact h.bind fun _ => ih.bind fun _ => .pure _

theorem within_separated {item : Reader α} (h : Within P item) :
    Within P (bounded (commaList item)) := .bounded (within_commaList h)

theorem within_listUntil (close : Punctuation) {item : Reader α} (h : Within P item) :
    Within P (listUntil close item) := by
  refine (within_eat _).bind fun eaten => ?_
  cases eaten with
  | true => exact .pure _
  | false => exact (within_separated h).bind fun _ => (within_expect _).bind fun _ => .pure _

theorem within_literal : Within P literal := by
  refine .bounded fun depth => ?_
  induction depth with
  | zero => exact .stuck
  | succ depth ih =>
    refine .advance fun t ht => ?_
    split
    · exact .pure _
    · exact .pure _
    · exact .pure _
    · exact .pure _
    · exact .ite (.refuseAt ht _) (.draft _)
    · exact (within_listUntil _ ih).bind fun _ => .pure _
    · exact .refuseAt ht _

theorem within_takeVariable (role : Role) (name : String) :
    Within P (term.takeVariable role name) :=
  (Within.draft _).bind fun _ => .advance fun _ _ => .pure _

theorem within_term : Within P term := by
  have hliteral : Within P (do return Term.literal (← literal)) :=
    within_literal.bind fun _ => .pure _
  refine .current fun t _ => ?_
  split
  · exact within_takeVariable _ _
  · exact within_takeVariable _ _
  · exact within_takeVariable _ _
  · refine .ite (within_takeVariable _ _) ((within_nextIs _).bind fun dotted => ?_)
    refine .ite ?_ hliteral
    exact (within_word _).bind fun _ => .advance fun _ _ => (within_word _).bind fun _ => .draft _
  · exact hliteral

theorem within_terms : Within P terms := within_listUntil _ within_term

theorem within_joined (items : List Condition) : Within P (joined items) := by
  unfold joined
  split
  · exact .pure _
  · exact .draft _

theorem within_condition : Within P condition := by
  refine .bounded fun depth => ?_
  induction depth with
  | zero => exact .stuck
  | succ depth ih =>
    refine (within_word _).bind fun name => (within_eat _).bind fun eaten => ?_
    refine .ite (.ite ?_ (.ite ?_ (.ite ?_ ?_))) (.draft _)
    · exact (within_listUntil _ ih).bind fun _ => .draft _
    · exact (within_listUntil _ ih).bind fun _ => .draft _
    · exact (within_separated ih).bind fun items => (within_joined items).bind fun _ =>
        (within_expect _).bind fun _ => .draft _
    · exact within_terms.bind fun _ => .draft _

theorem within_conjunction : Within P conjunction :=
  (within_separated within_condition).bind within_joined

theorem within_task : Within P task :=
  (within_word _).bind fun _ => (within_expect _).bind fun _ => within_terms.bind fun _ => .draft _

theorem within_branch : Within P branch := by
  refine (within_word _).bind fun label => (within_expect _).bind fun _ => .current fun t _ => ?_
  have hrest (condition : Option Condition) : Within P (do
      expect .arrow
      let tasks ← bounded (commaList task)
      let _ ← eat .semicolon
      draft (Builder.branch label condition tasks)) :=
    (within_expect _).bind fun _ => (within_separated within_task).bind fun _ =>
      (within_eat _).bind fun _ => .draft _
  split
  · exact (Within.pure none).bind hrest
  · exact (within_conjunction.bind fun _ => .pure _).bind hrest

theorem within_constant (group : String) : Within P (constant group) :=
  (within_word _).bind fun _ => (within_expect _).bind fun _ => within_literal.bind fun _ =>
    (within_eat _).bind fun _ => (Within.draft _).bind fun _ => .pure _

theorem within_constants : Within P constants :=
  (within_word _).bind fun _ => (within_expect _).bind fun _ =>
    .bounded (within_itemsUntil _ (within_constant _))

theorem within_clause : Within P clause :=
  (within_word _).bind fun _ => (within_expect _).bind fun _ => within_terms.bind fun _ =>
    (within_expect _).bind fun _ => within_conjunction.bind fun _ =>
      (within_expect _).bind fun _ => (Within.draft _).bind fun _ => .pure _

theorem within_method (marked : Bool) : Within P (method marked) :=
  (within_word _).bind fun _ => (within_expect _).bind fun _ => within_terms.bind fun _ =>
    (within_expect _).bind fun _ =>
      (Within.bounded (within_itemsUntil _ within_branch)).bind fun _ =>
        (Within.draft _).bind fun _ => .pure _

theorem within_declaration : Within P declaration := by
  refine .current fun start hstart => (within_word _).bind fun name => ?_
  refine .ite within_constants (.ite within_clause (.ite (within_method _) (.ite ?_ ?_)))
  · exact (within_keyword _).bind fun _ => within_method _
  · exact .refuseAt hstart _

theorem within_declarations (rounds : Nat) : Within P (declarations rounds) := by
  induction rounds with
  | zero => exact .stuck
  | succ rounds ih =>
    refine .current fun t _ => ?_
    split
    · exact .pure _
    · exact within_declaration.bind fun _ => ih.bind fun _ => .pure _

theorem within_fact (world : World) : Within P (fact world) := by
  refine .current fun start hstart => (within_word _).bind fun name => (within_eat _).bind fun _ =>
    .ite ((within_listUntil _ within_literal).bind fun args => ?_)
      ((Within.pure []).bind fun args => ?_)
  all_goals
    refine (within_eat _).bind fun _ => (Within.draft _).bind fun symbol => ?_
    split
    · exact .pure _
    · exact .refuseAt hstart _

theorem within_facts (world : World) (rounds : Nat) : Within P (facts world rounds) := by
  induction rounds generalizing world with
  | zero => exact .stuck
  | succ rounds ih =>
    refine .current fun t _ => ?_
    split
    · exact .pure _
    · exact (within_fact world).bind ih

end Reader

end TaskNetwork.Source
