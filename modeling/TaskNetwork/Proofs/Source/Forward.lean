import TaskNetwork.Proofs.Source.Noting
import TaskNetwork.Proofs.Source.Reading
import Mathlib.Data.List.Chain

/-! Reading goes forward. A reader that takes notes does what the one without notes does, the states
that it notes are at tokens of the text, and each stage begins later than those before: at a later
token, or at the same one with a higher rank. -/

namespace TaskNetwork.Source

variable {α β : Type} {ts rest : List Placed} {t : Placed} {s s' : Reading}

namespace Reading

/-- The reading is at one of the tokens `ts`, the last of which is `finish`, and that one and the
later ones are left. -/
structure Inside (s : Reading) (ts : List Placed) : Prop where
  size : s.size = ts.length
  ended : ∃ t, ts.getLast? = some t ∧ t.token = .finish
  cursor_lt : s.cursor < ts.length
  tokens : s.tokens = ts.drop s.cursor

theorem cursor_congr (htokens : s'.tokens = s.tokens) (hsize : s'.size = s.size) :
    s'.cursor = s.cursor := by
  rw [cursor, htokens, hsize, cursor]

namespace Inside

theorem congr (h : s.Inside ts) (htokens : s'.tokens = s.tokens) (hsize : s'.size = s.size) :
    s'.Inside ts where
  size := hsize.trans h.size
  ended := h.ended
  cursor_lt := cursor_congr htokens hsize ▸ h.cursor_lt
  tokens := by rw [htokens, cursor_congr htokens hsize, h.tokens]

theorem exists_cons (h : s.Inside ts) : ∃ t rest, s.tokens = t :: rest := by
  refine List.exists_cons_of_ne_nil fun hnil => ?_
  rw [h.tokens, List.drop_eq_nil_iff] at hnil
  exact absurd h.cursor_lt (Nat.not_lt.mpr hnil)

/-- Behind a token other than `finish` there is one more. -/
theorem next (h : s.Inside ts) (hs : s.tokens = t :: rest) (ht : t.token ≠ .finish) :
    s.next.Inside ts ∧ s.next.cursor = s.cursor + 1 := by
  have hdrop : ts.drop s.cursor = t :: rest := h.tokens.symm.trans hs
  have hrest : s.next.tokens = ts.drop (s.cursor + 1) := by
    rw [List.drop_add_one_eq_tail_drop, hdrop, Reading.next, hs]
  have hlt : s.cursor + 1 < ts.length := by
    obtain ⟨last, hlast, hfinish⟩ := h.ended
    refine Nat.lt_of_not_le fun hle => ht ?_
    have hnil : rest = [] := by
      have htail := congrArg List.tail hdrop
      rwa [← List.drop_add_one_eq_tail_drop, List.drop_eq_nil_of_le hle, eq_comm] at htail
    rw [← List.take_append_drop s.cursor ts, hdrop, hnil, List.getLast?_append] at hlast
    cases hlast
    exact hfinish
  have hcursor : s.next.cursor = s.cursor + 1 := by
    have hsize : s.next.size = ts.length := h.size
    rw [cursor, hsize, hrest, List.length_drop]
    omega
  exact ⟨⟨h.size, h.ended, hcursor ▸ hlt, hcursor ▸ hrest⟩, hcursor⟩

end Inside

end Reading

/-- At one token the stages begin in the order of their ranks, the outer before the inner ones. -/
def Stage.rank : Stage → Nat
  | .phrase .conjunction | .phrase .terms => 0
  | .round _ => 1
  | .phrase .literal => 3
  | .phrase _ => 2

/-- How far a stage is that began at a cursor. -/
def reach (stage : Stage × Nat) : Nat := 4 * stage.2 + stage.1.rank

namespace Notes

/-- All stages began before the cursor, or at it with ranks less than `k`. -/
def Before (notes : Notes) (s : Reading) (k : Nat) : Prop :=
  ∀ stage ∈ notes.stages, reach stage < 4 * s.cursor + k

/-- From the first token to the reading `s` no state was left out, all states are at tokens, and the
stages began one after the other. -/
structure Tracks (ts : List Placed) (notes : Notes) (s : Reading) : Prop where
  inside : ∀ t ∈ s :: notes.states, t.Inside ts
  first : ∃ start, (s :: notes.states).getLast? = some start ∧ start.cursor = 0
  stepwise : (s :: notes.states).IsChain fun later earlier =>
    earlier.cursor ≤ later.cursor ∧ later.cursor ≤ earlier.cursor + 1
  ordered : notes.stages.Pairwise fun later earlier => reach earlier < reach later
  before : notes.Before s 4

variable {notes : Notes} {k k' : Nat}

theorem Before.mono (h : notes.Before s k) (hk : 4 * s.cursor + k ≤ 4 * s'.cursor + k') :
    notes.Before s' k' := fun stage hstage => Nat.lt_of_lt_of_le (h stage hstage) hk

theorem Tracks.see (h : notes.Tracks ts s) (hinside : s'.Inside ts) (hle : s.cursor ≤ s'.cursor)
    (hstep : s'.cursor ≤ s.cursor + 1) : (notes.see s).Tracks ts s' where
  inside := List.forall_mem_cons.mpr ⟨hinside, h.inside⟩
  first := by
    obtain ⟨start, hstart, hzero⟩ := h.first
    exact ⟨start, by rwa [Notes.see, List.getLast?_cons_cons], hzero⟩
  stepwise := .cons_cons ⟨hle, hstep⟩ h.stepwise
  ordered := h.ordered
  before := h.before.mono (s := s) (by omega)

theorem Tracks.enter {stage : Stage} (h : notes.Tracks ts s) (hbefore : notes.Before s k)
    (hk : k ≤ stage.rank) : (notes.enter stage s).Tracks ts s ∧
      (notes.enter stage s).Before s (stage.rank + 1) := by
  have hlt : ∀ earlier ∈ notes.stages, reach earlier < reach (stage, s.cursor) :=
    hbefore.mono (Nat.add_le_add_left hk _)
  have hrank : stage.rank < 4 := by
    unfold Stage.rank
    split <;> decide
  have hnow : (notes.enter stage s).Before s (stage.rank + 1) :=
    List.forall_mem_cons.mpr ⟨Nat.lt_succ_self _, fun e he => Nat.lt_succ_of_lt (hlt e he)⟩
  exact ⟨⟨h.inside, h.first, h.stepwise, .cons hlt h.ordered,
    hnow.mono (Nat.add_le_add_left hrank _)⟩, hnow⟩

end Notes

/-- The results are the same, and the notes are kept. After a good result all stages began before
the cursor, or at it with ranks less than `after` says. -/
def Agree (ts : List Placed) (after : α → Nat) (result : EStateM.Result ReadError Reading α) :
    EStateM.Result ReadError (Reading × Notes) α → Prop
  | .ok a (s, notes) => result = .ok a s ∧ notes.Tracks ts s ∧ notes.Before s (after a)
  | .error e (s, notes) => result = .error e s ∧ notes.Tracks ts s

/-- From where all stages began with ranks less than `k` at the cursor, the reader with notes does
what the one without does, and goes forward. -/
def Forward (ts : List Placed) (k : Nat) (r : Reader α) (r' : NotingReader α) (after : α → Nat) :
    Prop :=
  ∀ s notes, notes.Tracks ts s → notes.Before s k → Agree ts after (r s) (r' (s, notes))

/-- From where the token `t` is read next, and all stages began with ranks less than `k` at it. -/
def ForwardAt (ts : List Placed) (k : Nat) (t : Placed) (r : Reader α) (r' : NotingReader α)
    (after : α → Nat) : Prop :=
  ∀ s notes, s.tokens.head? = some t → notes.Tracks ts s → notes.Before s k →
    Agree ts after (r s) (r' (s, notes))

/-- A step that takes no token. -/
def Still (r : Reader α) : Prop :=
  ∀ s, match r s with
    | .ok _ s' | .error _ s' => s'.tokens = s.tokens ∧ s'.size = s.size

section Steps

variable {r : Reader α} {notes : Notes}

theorem step_ok {a : α} (h : r s = .ok a s') :
    Noting.step r (s, notes) = .ok a (s', notes.see s) := by
  simp only [Noting.step, h]

theorem step_error {e : ReadError} (h : r s = .error e s') :
    Noting.step r (s, notes) = .error e (s', notes.see s) := by
  simp only [Noting.step, h]

end Steps

namespace Forward

variable {r q : Reader α} {r' q' : NotingReader α} {f : α → Reader β} {f' : α → NotingReader β}
  {k j : Nat} {mid after : α → Nat} {after' : β → Nat}

theorem mono (h : Forward ts k r r' after) (hk : j ≤ k) : Forward ts j r r' after :=
  fun s notes htracks hbefore => h s notes htracks (hbefore.mono (Nat.add_le_add_left hk _))

/-- Behind a token any stage may begin. -/
theorem anew (h : Forward ts k r r' after) : Forward ts 0 r r' after := h.mono (Nat.zero_le k)

theorem at_any (h : Forward ts k r r' after) (t : Placed) : ForwardAt ts k t r r' after :=
  fun s notes _ => h s notes

theorem pure {a : α} (h : k ≤ after a) : Forward ts k (pure a) (pure a) after :=
  fun _ _ htracks hbefore => ⟨rfl, htracks, hbefore.mono (Nat.add_le_add_left h _)⟩

theorem bind (h : Forward ts k r r' mid) (hf : ∀ a, Forward ts (mid a) (f a) (f' a) after') :
    Forward ts k (r >>= f) (r' >>= f') after' := by
  intro s notes htracks hbefore
  have hr := h s notes htracks hbefore
  cases heq : r' (s, notes) with
  | ok a p =>
    rw [heq] at hr
    obtain ⟨hplain, htracks, hbefore⟩ := hr
    rw [bind_ok hplain, bind_ok heq]
    exact hf a _ _ htracks hbefore
  | error e p =>
    rw [heq] at hr
    obtain ⟨hplain, htracks⟩ := hr
    rw [bind_error hplain, bind_error heq]
    exact ⟨rfl, htracks⟩

theorem ite {c : Prop} [Decidable c] (h : Forward ts k r r' after) (h' : Forward ts k q q' after) :
    Forward ts k (if c then r else q) (if c then r' else q') after := by
  split
  · exact h
  · exact h'

theorem ite_bind {c : Prop} [Decidable c] (h : Forward ts k r r' mid)
    (h' : Forward ts k q q' mid) (hf : ∀ a, Forward ts (mid a) (f a) (f' a) after') :
    Forward ts k (if c then r >>= f else q >>= f) (if c then r' >>= f' else q' >>= f') after' :=
  .ite (h.bind hf) (h'.bind hf)

theorem bounded {body : Nat → Reader α} {body' : Nat → NotingReader α}
    (h : ∀ rounds, Forward ts k (body rounds) (body' rounds) after) :
    Forward ts k (Reader.bounded body) (Noting.bounded body') after :=
  fun s => h s.size s

theorem enter (stage : Stage) {r' : Unit → NotingReader α}
    (h : Forward ts (stage.rank + 1) r (r' ()) after) :
    Forward ts stage.rank r (Noting.enter stage >>= r') after := by
  intro s notes htracks hbefore
  have hentered : Noting.enter stage (s, notes) = .ok () (s, notes.enter stage s) := rfl
  obtain ⟨htracks, hbefore⟩ := htracks.enter hbefore (Nat.le_refl _)
  rw [bind_ok hentered]
  exact h s _ htracks hbefore

theorem still (h : Still r) (k : Nat) : Forward ts k r (Noting.step r) fun _ => k := by
  intro s notes htracks hbefore
  have hs := h s
  have hinside := htracks.inside s List.mem_cons_self
  cases heq : r s with
  | ok a s' =>
    rw [heq] at hs
    have hcursor := Reading.cursor_congr hs.1 hs.2
    have hbefore : notes.Before s' k := hbefore.mono (by omega)
    rw [step_ok heq]
    exact ⟨rfl, htracks.see (hinside.congr hs.1 hs.2) (by omega) (by omega), hbefore⟩
  | error e s' =>
    rw [heq] at hs
    have hcursor := Reading.cursor_congr hs.1 hs.2
    rw [step_error heq]
    exact ⟨rfl, htracks.see (hinside.congr hs.1 hs.2) (by omega) (by omega)⟩

theorem fails {e : ReadError} (hr : ∀ s, r s = .error e s) :
    Forward ts k r (Noting.step r) after := by
  intro s notes htracks _
  have hinside := htracks.inside s List.mem_cons_self
  rw [step_error (hr s)]
  exact ⟨hr s, htracks.see hinside (Nat.le_refl _) (Nat.le_succ _)⟩

theorem stuck : Forward ts k (throw .stuck : Reader α) (Noting.step (throw .stuck)) after :=
  fails fun _ => rfl

theorem refuseAt (place : Position) (fault : GrammarFault) :
    Forward ts k (Reader.refuseAt place fault : Reader α)
      (Noting.step (Reader.refuseAt place fault)) after := fails fun _ => rfl

theorem draft (k : Nat) (part : Builder α) :
    Forward ts k (Reader.draft part) (Noting.step (Reader.draft part)) fun _ => k :=
  still (fun _ => And.intro rfl rfl) k

end Forward

section Tokens

variable {f : Placed → Reader β} {f' : Placed → NotingReader β} {k : Nat} {after : β → Nat}

theorem ForwardAt.ite {c : Prop} [Decidable c] {r q : Reader β} {r' q' : NotingReader β}
    (h : ForwardAt ts k t r r' after) (h' : ForwardAt ts k t q q' after) :
    ForwardAt ts k t (if c then r else q) (if c then r' else q') after := by
  split
  · exact h
  · exact h'

theorem Forward.current (hf : ∀ t, ForwardAt ts k t (f t) (f' t) after) :
    Forward ts k (Reader.current >>= f) (Noting.step Reader.current >>= f') after := by
  intro s notes htracks hbefore
  have hinside := htracks.inside s List.mem_cons_self
  obtain ⟨t, rest, hs⟩ := hinside.exists_cons
  have hcurrent : Reader.current s = .ok t s := by rw [Reader.current, hs]
  rw [bind_ok hcurrent, bind_ok (step_ok hcurrent)]
  exact hf t s _ (by rw [hs]; rfl) (htracks.see hinside (Nat.le_refl _) (Nat.le_succ _)) hbefore

/-- When a token has been taken, all stages began before the cursor. -/
theorem ForwardAt.advance (ht : t.token ≠ .finish) (hf : Forward ts 0 (f t) (f' t) after) :
    ForwardAt ts k t (Reader.advance >>= f) (Noting.step Reader.advance >>= f') after := by
  intro s notes hs htracks _
  obtain ⟨rest, hs⟩ := List.head?_eq_some_iff.mp hs
  obtain ⟨hinside, hcursor⟩ := (htracks.inside s List.mem_cons_self).next hs ht
  have hadvance : Reader.advance s = .ok t s.next := by
    rw [Reader.advance, Reading.next, hs]
    dsimp only
    split
    · next hfinish => exact absurd hfinish ht
    · rfl
  have hbefore : (notes.see s).Before s.next 0 := htracks.before.mono (s := s) (by omega)
  rw [bind_ok hadvance, bind_ok (step_ok hadvance)]
  exact hf _ _ (htracks.see hinside (by omega) (by omega)) hbefore

theorem Forward.advance
    (hfinish : ∀ place, Forward ts k (f ⟨.finish, place⟩) (f' ⟨.finish, place⟩) after)
    (htaken : ∀ t, t.token ≠ .finish → Forward ts 0 (f t) (f' t) after) :
    Forward ts k (Reader.advance >>= f) (Noting.step Reader.advance >>= f') after := by
  intro s notes htracks hbefore
  have hinside := htracks.inside s List.mem_cons_self
  obtain ⟨⟨token, place⟩, rest, hs⟩ := hinside.exists_cons
  by_cases ht : token = .finish
  · subst ht
    have hadvance : Reader.advance s = .ok ⟨.finish, place⟩ s := by rw [Reader.advance, hs]
    rw [bind_ok hadvance, bind_ok (step_ok hadvance)]
    exact hfinish place s _ (htracks.see hinside (Nat.le_refl _) (Nat.le_succ _)) hbefore
  · exact ForwardAt.advance (k := k) ht (htaken _ ht) s notes (by rw [hs]; rfl) htracks hbefore

end Tokens

namespace Reader

variable {k : Nat} {after : α → Nat}

theorem forward_unexpected (wanted : Wanted) :
    Forward ts k (unexpected wanted : Reader α) (Noting.unexpected wanted) after :=
  .current fun _ => Forward.at_any (.refuseAt _ _) _

theorem forward_eat (k : Nat) (p : Punctuation) :
    Forward ts k (eat p) (Noting.eat p) fun eaten => if eaten then 0 else k := by
  have hnone : Forward ts k (pure false) (pure false) fun eaten => if eaten then 0 else k :=
    .pure (Nat.le_refl k)
  refine .current ?_
  rintro ⟨token, place⟩
  cases token with
  | mark q =>
    refine .ite (.advance ?_ (.pure (Nat.le_refl 0))) (hnone.at_any _)
    exact fun h => by cases h
  | _ => exact hnone.at_any _

theorem forward_eat_zero (p : Punctuation) :
    Forward ts 0 (eat p) (Noting.eat p) fun _ => 0 := by
  simpa only [ite_self] using forward_eat 0 p

theorem forward_expect (k : Nat) (p : Punctuation) :
    Forward ts k (expect p) (Noting.expect p) fun _ => 0 := by
  refine (forward_eat k p).bind fun eaten => ?_
  cases eaten with
  | true => exact .pure (Nat.le_refl _)
  | false => exact forward_unexpected _

theorem forward_word (k : Nat) (wanted : Wanted) :
    Forward ts k (word wanted) (Noting.word wanted) fun _ => 0 := by
  refine .current ?_
  rintro ⟨token, place⟩
  cases token with
  | word name => exact .advance (fun h => by cases h) (.pure (Nat.le_refl _))
  | _ => exact (forward_unexpected _).at_any _

theorem forward_keyword (k : Nat) (name : String) :
    Forward ts k (keyword name) (Noting.keyword name) fun _ => 0 := by
  refine .current ?_
  rintro ⟨token, place⟩
  cases token with
  | word found =>
    refine .ite (.advance ?_ (.pure (Nat.le_refl _))) ((forward_unexpected _).at_any _)
    exact fun h => by cases h
  | _ => exact (forward_unexpected _).at_any _

section Lists

variable {item : Reader α} {item' : NotingReader α}

theorem forward_commaList (kind : Kind) (h : Forward ts 2 item item' fun _ => 0) (rounds : Nat) :
    Forward ts 1 (commaList item rounds) (Noting.commaList kind item' rounds) fun _ => 0 := by
  induction rounds with
  | zero => exact .stuck
  | succ rounds ih =>
    refine .enter (.round kind) (h.bind fun first => (forward_eat 0 .comma).bind fun eaten => ?_)
    cases eaten with
    | true => exact ih.anew.bind fun _ => .pure (Nat.le_refl _)
    | false => exact .pure (Nat.le_refl _)

theorem forward_separated (kind : Kind) (h : Forward ts 2 item item' fun _ => 0) :
    Forward ts 1 (bounded (commaList item)) (Noting.bounded (Noting.commaList kind item'))
      fun _ => 0 := .bounded (forward_commaList kind h)

theorem forward_itemsUntil (close : Punctuation) (kind : Kind)
    (h : Forward ts 2 item item' fun _ => 0) (rounds : Nat) :
    Forward ts 1 (itemsUntil close item rounds) (Noting.itemsUntil close kind item' rounds)
      fun _ => 0 := by
  induction rounds with
  | zero => exact .stuck
  | succ rounds ih =>
    refine .enter (.round kind) ((forward_eat 2 close).bind fun eaten => ?_)
    cases eaten with
    | true => exact .pure (Nat.le_refl _)
    | false =>
      exact h.bind fun _ => ih.anew.bind fun _ => .pure (Nat.le_refl _)

theorem forward_listUntil (close : Punctuation) (kind : Kind)
    (h : Forward ts 2 item item' fun _ => 0) :
    Forward ts 1 (listUntil close item) (Noting.listUntil close kind item') fun _ => 0 := by
  refine (forward_eat 1 close).bind fun eaten => ?_
  cases eaten with
  | true => exact .pure (Nat.le_refl _)
  | false =>
    exact (forward_separated kind h).bind fun _ => (forward_expect 0 close).bind fun _ =>
      .pure (Nat.le_refl _)

end Lists

section Phrases

theorem forward_literal : Forward ts 3 literal Noting.literal fun _ => 0 := by
  refine .bounded fun depth => ?_
  induction depth with
  | zero => exact .stuck
  | succ depth ih =>
    -- `finish` stays where it is, but it is no literal: then nothing begins behind it.
    refine .enter (.phrase .literal) (.advance (fun _ => .refuseAt _ _) ?_)
    rintro ⟨token, place⟩ -
    dsimp only
    split <;> try simp only
    · exact .pure (Nat.le_refl _)
    · exact .pure (Nat.le_refl _)
    · exact .pure (Nat.le_refl _)
    · exact .pure (Nat.le_refl _)
    · exact .ite (.refuseAt _ _) (.draft 0 _)
    · have hitems := forward_listUntil .closeBracket .literal (ih.mono (by decide))
      exact hitems.anew.bind fun _ => .pure (Nat.le_refl _)
    · exact .refuseAt _ _

theorem forward_takeVariable (role : Role) (name : String) (ht : t.token ≠ .finish) :
    ForwardAt ts k t (term.takeVariable role name) (Noting.term.takeVariable role name)
      fun _ => 0 := by
  intro s notes hs htracks hbefore
  have hinside := htracks.inside s List.mem_cons_self
  have hdraft : draft (Builder.variableOf role name) s =
      .ok (Builder.variableOf role name s.draft).1
        { s with draft := (Builder.variableOf role name s.draft).2 } := rfl
  have hadvance (v : Term) : ForwardAt ts k t (do let _ ← advance; return v)
      (do let _ ← Noting.step advance; return v) fun _ => 0 := .advance ht (.pure (Nat.le_refl _))
  unfold term.takeVariable Noting.term.takeVariable
  rw [bind_ok hdraft, bind_ok (step_ok hdraft)]
  exact hadvance _ _ _ hs
    (htracks.see (hinside.congr rfl rfl) (Nat.le_refl _) (Nat.le_succ _)) hbefore

theorem still_nextIs (p : Punctuation) : Still (nextIs p) := by
  intro s
  obtain ⟨next, hnext⟩ : ∃ next, nextIs p s = .ok next s := by
    unfold nextIs
    split <;> exact ⟨_, rfl⟩
  rw [hnext]
  exact ⟨rfl, rfl⟩

theorem forward_term : Forward ts 2 term Noting.term fun _ => 0 := by
  have hliteral : Forward ts 3 (do return Term.literal (← literal))
      (do return Term.literal (← Noting.literal)) fun _ => 0 :=
    forward_literal.bind fun _ => .pure (Nat.le_refl _)
  -- A literal begins at the token at which the term began, so it has the higher rank.
  refine .enter (.phrase .term) (.current ?_)
  rintro ⟨token, place⟩
  have hname (group : String) : Forward ts 0
      (do draft (Builder.constantTerm group (← word .constantName)))
      (do Noting.step (draft (Builder.constantTerm group (← Noting.word .constantName))))
      fun _ => 0 := (forward_word 0 .constantName).bind fun _ => .draft 0 _
  cases token with
  | inputVar name | outputVar name | inOutVar name =>
    exact forward_takeVariable _ _ fun h => by cases h
  | word name =>
    refine .ite (forward_takeVariable _ _ fun h => by cases h) (Forward.at_any ?_ _)
    refine (Forward.still (still_nextIs .dot) 3).bind fun _ => .ite ?_ hliteral
    exact (forward_word 3 .group).bind fun group => .advance (fun _ => hname group) fun _ _ =>
      hname group
  | _ => exact hliteral.at_any _

theorem forward_terms : Forward ts 0 terms Noting.terms fun _ => 0 :=
  .enter (.phrase .terms) (forward_listUntil .closeParen .term forward_term)

theorem forward_joined (k : Nat) (items : List Condition) :
    Forward ts k (joined items) (Noting.step (joined items)) fun _ => k := by
  refine .still ?_ k
  unfold joined
  split <;> exact fun _ => ⟨rfl, rfl⟩

theorem forward_condition : Forward ts 2 condition Noting.condition fun _ => 0 := by
  refine .bounded fun depth => ?_
  induction depth with
  | zero => exact .stuck
  | succ depth ih =>
    have hlist := (forward_listUntil .closeParen .condition ih).anew
    refine .enter (.phrase .condition) ((forward_word 3 .condition).bind fun name =>
      (forward_eat_zero .openParen).bind fun eaten => ?_)
    refine .ite (.ite ?_ (.ite ?_ (.ite ?_ ?_))) (.draft 0 _)
    · exact hlist.bind fun _ => .draft 0 _
    · exact hlist.bind fun _ => .draft 0 _
    · exact .enter (.phrase .conjunction) ((forward_separated .condition ih).bind fun items =>
        (forward_joined 0 items).bind fun _ => (forward_expect 0 .closeParen).bind fun _ =>
          .draft 0 _)
    · exact forward_terms.bind fun _ => .draft 0 _

theorem forward_conjunction : Forward ts 0 conjunction Noting.conjunction fun _ => 0 :=
  .enter (.phrase .conjunction)
    ((forward_separated .condition forward_condition).bind fun items => forward_joined 0 items)

theorem forward_task : Forward ts 2 task Noting.task fun _ => 0 :=
  .enter (.phrase .task) ((forward_word 3 .taskName).bind fun _ =>
    (forward_expect 0 .openParen).bind fun _ => forward_terms.bind fun _ => .draft 0 _)

theorem forward_branch : Forward ts 2 branch Noting.branch fun _ => 0 := by
  refine .enter (.phrase .branch) ((forward_word 3 .branchLabel).bind fun label =>
    (forward_expect 0 .colon).bind fun _ => .current ?_)
  have hrest (condition : Option Condition) : Forward ts 0
      (do
        expect .arrow
        let tasks ← bounded (commaList task)
        let _ ← eat .semicolon
        draft (Builder.branch label condition tasks))
      (do
        Noting.expect .arrow
        let tasks ← Noting.bounded (Noting.commaList .task Noting.task)
        let _ ← Noting.eat .semicolon
        Noting.step (draft (Builder.branch label condition tasks))) fun _ => 0 :=
    (forward_expect 0 .arrow).bind fun _ =>
      (forward_separated .task forward_task).anew.bind fun _ =>
        (forward_eat_zero .semicolon).bind fun _ => .draft 0 _
  have hnone : Forward ts 0 (pure none : Reader (Option Condition)) (pure none) fun _ => 0 :=
    .pure (Nat.le_refl 0)
  have hsome : Forward ts 0 (some <$> conjunction) (some <$> Noting.conjunction) fun _ => 0 :=
    forward_conjunction.bind fun _ => .pure (Nat.le_refl 0)
  rintro ⟨token, place⟩
  cases token with
  | mark p =>
    cases p with
    | arrow => exact (hnone.bind hrest).at_any _
    | _ => exact (hsome.bind hrest).at_any _
  | _ => exact (hsome.bind hrest).at_any _

theorem forward_constant (group : String) :
    Forward ts 2 (constant group) (Noting.constant group) fun _ => 0 :=
  .enter (.phrase .constant) ((forward_word 3 .constantName).bind fun _ =>
    (forward_expect 0 .equals).bind fun _ => forward_literal.anew.bind fun _ =>
      (forward_eat_zero .semicolon).bind fun _ => (Forward.draft 0 _).bind fun _ =>
        .pure (Nat.le_refl 0))

theorem forward_constants : Forward ts 2 constants Noting.constants fun _ => 0 :=
  .enter (.phrase .constants) ((forward_word 3 .groupName).bind fun group =>
    (forward_expect 0 .openBrace).bind fun _ =>
      (Forward.bounded (forward_itemsUntil .closeBrace .constant (forward_constant group))).anew)

theorem forward_clause : Forward ts 2 clause Noting.clause fun _ => 0 :=
  .enter (.phrase .clause) ((forward_word 3 .axiomName).bind fun _ =>
    (forward_expect 0 .openParen).bind fun _ => forward_terms.bind fun _ =>
      (forward_expect 0 .openBrace).bind fun _ => forward_conjunction.bind fun _ =>
        (forward_expect 0 .closeBrace).bind fun _ => (Forward.draft 0 _).bind fun _ =>
          .pure (Nat.le_refl 0))

theorem forward_method (marked : Bool) :
    Forward ts 2 (method marked) (Noting.method marked) fun _ => 0 :=
  .enter (.phrase .method) ((forward_word 3 .methodName).bind fun _ =>
    (forward_expect 0 .openParen).bind fun _ => forward_terms.bind fun _ =>
      (forward_expect 0 .openBrace).bind fun _ =>
        (Forward.bounded (forward_itemsUntil .closeBrace .branch forward_branch)).anew.bind fun _ =>
          (Forward.draft 0 _).bind fun _ => .pure (Nat.le_refl 0))

theorem forward_declaration : Forward ts 2 declaration Noting.declaration fun _ => 0 := by
  refine .enter (.phrase .declaration) (.current fun start => Forward.at_any ?_ _)
  refine (forward_word 3 .declaration).bind fun name => ?_
  refine .ite ?_ (.ite ?_ (.ite ?_ (.ite ?_ (.refuseAt _ _))))
  · exact forward_constants.anew
  · exact forward_clause.anew
  · exact (forward_method false).anew
  · exact (forward_keyword 0 "method").bind fun _ => (forward_method true).anew

theorem forward_declarations (rounds : Nat) :
    Forward ts 1 (declarations rounds) (Noting.declarations rounds) fun _ => 2 := by
  induction rounds with
  | zero => exact .stuck
  | succ rounds ih =>
    refine .enter (.round .declaration) (.current ?_)
    have hnone : Forward ts 2 (pure [] : Reader (List Declaration)) (pure []) fun _ => 2 :=
      .pure (Nat.le_refl 2)
    have hmore : Forward ts 2 (do return (← declaration) ++ (← declarations rounds))
        (do return (← Noting.declaration) ++ (← Noting.declarations rounds)) fun _ => 2 :=
      forward_declaration.bind fun _ => ih.anew.bind fun _ =>
        .pure (Nat.le_refl 2)
    rintro ⟨token, place⟩
    cases token with
    | finish => exact hnone.at_any _
    | _ => exact hmore.at_any _

theorem forward_fact (world : World) :
    Forward ts 2 (fact world) (Noting.fact world) fun _ => 0 := by
  refine .enter (.phrase .fact) (.current fun start => Forward.at_any ?_ _)
  refine (forward_word 3 .factName).bind fun name => (forward_eat_zero .openParen).bind fun _ => ?_
  have hargs : Forward ts 0 (listUntil .closeParen literal)
      (Noting.listUntil .closeParen .literal Noting.literal) fun _ => 0 :=
    (forward_listUntil .closeParen .literal (forward_literal.mono (by decide))).anew
  have hnone : Forward ts 0 (pure [] : Reader (List Value)) (pure []) fun _ => 0 :=
    .pure (Nat.le_refl 0)
  refine .ite_bind hargs hnone fun args => (forward_eat_zero .semicolon).bind fun _ =>
    (Forward.draft 0 _).bind fun symbol => ?_
  cases world.insert symbol args with
  | ok world => exact .pure (Nat.le_refl 0)
  | error cause => exact .refuseAt _ _

theorem forward_facts (world : World) (rounds : Nat) :
    Forward ts 1 (facts world rounds) (Noting.facts world rounds) fun _ => 2 := by
  induction rounds generalizing world with
  | zero => exact .stuck
  | succ rounds ih =>
    refine .enter (.round .fact) (.current ?_)
    have hnone : Forward ts 2 (pure world) (pure world) fun _ => 2 := .pure (Nat.le_refl 2)
    have hmore : Forward ts 2 (do facts (← fact world) rounds)
        (do Noting.facts (← Noting.fact world) rounds) fun _ => 2 :=
      (forward_fact world).bind fun world => (ih world).anew
    rintro ⟨token, place⟩
    cases token with
    | finish => exact hnone.at_any _
    | _ => exact hmore.at_any _

end Phrases

end Reader

end TaskNetwork.Source
