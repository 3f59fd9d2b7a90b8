import TaskNetwork.Proofs.Source.Declarations
import TaskNetwork.Proofs.Source.Spelling
import TaskNetwork.Proofs.World.Entries
import TaskNetwork.Source.World

/-! Reading world text follows its grammar: the tokens of a text are read exactly if they are facts,
and these are inserted one after another. -/

namespace TaskNetwork

open World (Entry)

namespace Tree

structure Fact where
  name : String
  args : List Literal

end Tree

/-- The tree of an entry, if its values have trees and its symbol has a name. -/
def World.Entry.tree? (names : SymbolTable) (e : Entry) : Option Tree.Fact :=
  return ⟨← names.name? e.fact, ← e.args.mapM (·.tree? names)⟩

namespace Source

/-- Literals up to and including the parenthesis after them. -/
abbrev AreLiterals : Phrase (List Tree.Literal) := Listed .closeParen IsLiteral

inductive IsFact : Phrase Tree.Fact
  | applied {name ts mid rest args} : AreLiterals ts mid args → MayEnd mid rest →
      IsFact (.word name :: .mark .openParen :: ts) rest ⟨name, args⟩
  | bare {name mid rest} : Stops .openParen mid → MayEnd mid rest →
      IsFact (.word name :: mid) rest ⟨name, []⟩

/-- The tokens of a whole text and the facts that they describe. -/
inductive AreFacts : List Token → List Tree.Fact → Prop
  | nil : AreFacts [] []
  | cons {ts rest f fs} : IsFact ts rest f → AreFacts rest fs → AreFacts ts (f :: fs)

namespace Reader

open SymbolTable (le_trans le_intern name?_of_intern_le)

variable {s s₁ : Reading} {ts mid rest : List Token}

section One

theorem drafts_entry (name : String) {args : Row} {trees : List Tree.Literal} {d : Draft}
    (hargs : ∀ names, d.symbols ≤ names → viewAll Value.tree? names args = some trees) :
    Drafts (fun names symbol => Entry.tree? names ⟨symbol, args⟩) (Builder.intern name) d
      ⟨name, trees⟩ := by
  refine ⟨le_intern _ _, fun names hnames => ?_⟩
  have hname : names.name? (d.symbols.intern name).1 = some name := name?_of_intern_le hnames
  show (names.name? (d.symbols.intern name).1).bind (fun name =>
    (viewAll Value.tree? names args).bind fun args => some (Tree.Fact.mk name args)) = _
  rw [hname, hargs names (le_trans (le_intern _ name) hnames)]
  rfl

/-- What is read of a fact after its arguments, and its insertion. -/
def factAfter (place : Position) (name : String) (args : Row) (world : World) : Reader World := do
  let _ ← eat .semicolon
  let symbol ← draft (Builder.intern name)
  match world.insert symbol args with
  | .ok world => return world
  | .error cause => refuseAt place (.refusedFact name cause)

section Tails

variable {trees : List Tree.Literal} {args : Row} (place : Position) (name : String)
  (hpassed : Passes s ts mid s₁)
  (hargs : ∀ names, s₁.draft.symbols ≤ names → viewAll Value.tree? names args = some trees)

include hpassed hargs

theorem sound_factAfter (world : World) :
    Ends (factAfter place name args world s₁) fun w' s' => ∃ rest e, MayEnd mid rest ∧
      world.insert e.fact e.args = .ok w' ∧ Reads Entry.tree? s ts rest ⟨name, trees⟩ e s' := by
  refine (ends_mayEnd hpassed.left).bind fun _ s₂ ⟨rest, hend, hleft, hlength, hdraft⟩ => ?_
  have hpart := drafts_entry name (d := s₂.draft) (hdraft ▸ hargs)
  refine (succeeds_draft (hpassed.skip hleft hlength hdraft) hpart).ends_bind
    fun symbol s' hreads => ?_
  cases hinsert : world.insert symbol args with
  | ok w' => exact ⟨rest, ⟨symbol, args⟩, hend, hinsert, hreads.toPasses, hreads.shown⟩
  | error cause => exact ends_refuseAt _ _

theorem complete_factAfter (hend : MayEnd mid rest) (hstops : Stops .semicolon rest) :
    ∃ e s', Reads Entry.tree? s ts rest ⟨name, trees⟩ e s' ∧ ∀ world w',
      world.insert e.fact e.args = .ok w' → factAfter place name args world s₁ = .ok w' s' := by
  obtain ⟨_, s₂, heaten, hleft, hlength, hdraft⟩ := succeeds_mayEnd hpassed.left hend hstops
  have hpart := drafts_entry name (d := s₂.draft) (hdraft ▸ hargs)
  obtain ⟨symbol, s', hdrafted, hreads⟩ :=
    succeeds_draft (hpassed.skip hleft hlength hdraft) hpart
  refine ⟨⟨symbol, args⟩, s', ⟨hreads.toPasses, hreads.shown⟩, fun world w' hinsert => ?_⟩
  rw [factAfter, bind_ok heaten, bind_ok hdrafted, hinsert]
  rfl

end Tails

theorem sound_fact (world : World) (hs : s.Left ts) :
    Ends (fact world s) fun w' s' => ∃ rest f e, IsFact ts rest f ∧
      world.insert e.fact e.args = .ok w' ∧ Reads Entry.tree? s ts rest f e s' := by
  refine .bind_ok (current_eq hs) ((ends_word hs _).bind fun name s₁ ⟨mid, hts, hs₁⟩ => ?_)
  subst hts hs₁
  refine (ends_eat hs.next).bind fun eaten s₂ heaten => ?_
  cases eaten with
  | true =>
    obtain ⟨tail, rfl, rfl⟩ := heaten
    refine (sound_listUntil .closeParen (sound_literal _) _ tail hs.next.next
      hs.next.next.bound).bind ?_
    rintro args s₃ ⟨mid, trees, htrees, hargs⟩
    have hpassed : Passes s (.word name :: .mark .openParen :: tail) mid s₃ :=
      hargs.toPasses.cons.cons
    refine (sound_factAfter s.place name hpassed hargs.shown world).mono ?_
    rintro w' s' ⟨rest, e, hend, hinsert, hreads⟩
    exact ⟨rest, _, e, .applied htrees hend, hinsert, hreads⟩
  | false =>
    obtain ⟨hstops, rfl⟩ := heaten
    have hargs : ∀ names, s.next.draft.symbols ≤ names →
        viewAll Value.tree? names [] = some [] := fun _ _ => rfl
    refine .bind_ok rfl ((sound_factAfter s.place name (Passes.token hs) hargs world).mono ?_)
    rintro w' s' ⟨rest, e, hend, hinsert, hreads⟩
    exact ⟨rest, _, e, .bare hstops hend, hinsert, hreads⟩

theorem complete_fact {f : Tree.Fact} (hs : s.Left ts) (hf : IsFact ts rest f)
    (hstops : Stops .semicolon rest) :
    ∃ e s', Reads Entry.tree? s ts rest f e s' ∧
      ∀ world w', world.insert e.fact e.args = .ok w' → fact world s = .ok w' s' := by
  cases hf with
  | @applied name ts mid _ args htrees hend =>
    obtain ⟨args, s₁, hread, hargs⟩ := complete_listUntil .closeParen (complete_literal _)
      (fun _ => trivial) (by decide) (fun _ => trivial)
      (fun _ _ _ h => stops_of_isLiteral h (by decide)) _ ts mid _ hs.next.next hs.next.next.bound
      htrees trivial
    have hpassed : Passes s (.word name :: .mark .openParen :: ts) mid s₁ :=
      hargs.toPasses.cons.cons
    obtain ⟨e, s', hreads, hafter⟩ :=
      complete_factAfter s.place name hpassed hargs.shown hend hstops
    refine ⟨e, s', hreads, fun world w' hinsert => ?_⟩
    rw [fact, bind_ok (current_eq hs), bind_ok (word_eq hs _), bind_ok (eat_eq hs.next)]
    exact (bind_ok hread).trans (hafter world w' hinsert)
  | @bare name mid _ hbare hend =>
    have hargs : ∀ names, s.next.draft.symbols ≤ names →
        viewAll Value.tree? names [] = some [] := fun _ _ => rfl
    obtain ⟨e, s', hreads, hafter⟩ :=
      complete_factAfter s.place name (Passes.token hs) hargs hend hstops
    refine ⟨e, s', hreads, fun world w' hinsert => ?_⟩
    rw [fact, bind_ok (current_eq hs), bind_ok (word_eq hs _), bind_ok (eat_of_ne hs.next hbare)]
    exact hafter world w' hinsert

end One

section All

theorem stops_of_areFacts {fs : List Tree.Fact} (h : AreFacts ts fs) (p : Punctuation) :
    Stops p ts := by
  cases h with
  | nil => simp [Stops]
  | cons hf _ => cases hf <;> simp [Stops]

theorem sound_facts (rounds : Nat) {s : Reading} (hs : s.Left ts) (hrounds : ts.length < rounds)
    (world : World) : Ends (facts world rounds s) fun w' s' => ∃ fs es, AreFacts ts fs ∧
      world.insertAll es = .ok w' ∧ ReadsAll Entry.tree? s fs es s' := by
  induction rounds generalizing s ts world with
  | zero => exact absurd hrounds (Nat.not_lt_zero _)
  | succ rounds ih =>
    refine .bind_ok (current_eq hs) ?_
    have hmore : Ends ((do facts (← fact world) rounds : Reader _) s) fun w' s' =>
        ∃ fs es, AreFacts ts fs ∧ world.insertAll es = .ok w' ∧ ReadsAll Entry.tree? s fs es s' := by
      refine (sound_fact world hs).bind fun w₁ s₁ ⟨rest, f, e, hf, hinsert, he⟩ => ?_
      have hrest := he.shorter
      refine (ih he.left (by omega) w₁).mono ?_
      rintro w' s' ⟨fs, es, hfs, hothers, hes⟩
      rw [← World.insertAll_cons_of_ok hinsert] at hothers
      exact ⟨f :: fs, e :: es, .cons hf hfs, hothers, .append he.single hes⟩
    match ts, hmore with
    | [], _ => exact ⟨[], [], .nil, rfl, .nil⟩
    | .finish :: _, _ => exact absurd rfl hs.ne_finish
    | .word _ :: _, hmore | .inputVar _ :: _, hmore | .outputVar _ :: _, hmore
    | .inOutVar _ :: _, hmore | .number _ :: _, hmore | .text _ :: _, hmore
    | .mark _ :: _, hmore => exact hmore

/-- What is read does not depend on the world that it is inserted into. -/
theorem complete_facts (rounds : Nat) {s : Reading} {fs : List Tree.Fact} (hs : s.Left ts)
    (hrounds : ts.length < rounds) (hfs : AreFacts ts fs) :
    ∃ es s', ReadsAll Entry.tree? s fs es s' ∧
      ∀ world w', world.insertAll es = .ok w' → facts world rounds s = .ok w' s' := by
  induction rounds generalizing s ts fs with
  | zero => exact absurd hrounds (Nat.not_lt_zero _)
  | succ rounds ih =>
    cases hfs with
    | nil =>
      refine ⟨[], s, .nil, fun world w' hinsert => ?_⟩
      cases hinsert
      exact bind_ok (current_eq hs)
    | @cons _ rest f fs hf hfs =>
      obtain ⟨e, s₁, he, hfact⟩ := complete_fact hs hf (stops_of_areFacts hfs _)
      have hrest := he.shorter
      obtain ⟨es, s', hes, hfacts⟩ := ih he.left (by omega) hfs
      refine ⟨e :: es, s', .append he.single hes, fun world w' hinsert => ?_⟩
      obtain ⟨w₁, hfirst, hothers⟩ := World.exists_of_insertAll_cons hinsert
      have hmore : (do facts (← fact world) rounds : Reader _) s = .ok w' s' :=
        (bind_ok (hfact world w₁ hfirst)).trans (hfacts w₁ w' hothers)
      rw [facts, bind_ok (current_eq hs)]
      cases hf <;> exact hmore

end All

end Reader

end Source

open Source

variable {text : String} {names : SymbolTable} {ts : List Token}

/-- An accepted text describes the entries of its world. -/
theorem World.entries_of_read {w : World} {names' : SymbolTable}
    (h : World.read text names = (.ok w, names')) : ∃ placed ts fs es,
      tokens text = .ok placed ∧ placed.map (·.token) = ts ++ [.finish] ∧
      (∀ t ∈ ts, t.IsSpelled) ∧ AreFacts ts fs ∧ empty.insertAll es = .ok w ∧ names ≤ names' ∧
      es.mapM (·.tree? names') = some fs := by
  unfold World.read at h
  cases htext : tokens text with
  | error e => rw [htext] at h; cases h
  | ok placed =>
    obtain ⟨ts, hts, hspelled⟩ := isSpelled_of_tokensFrom htext
    have hs := Reading.left_start hts (fun hmem => hspelled _ hmem) names
    have hsound : Ends ((Reader.bounded (Reader.facts empty)).run (.start placed names)) _ :=
      Reader.sound_facts _ hs hs.bound empty
    rw [htext] at h
    dsimp only at h
    split at h
    · next w s hread =>
      cases h
      rw [hread] at hsound
      obtain ⟨fs, es, hfs, hinsert, hes⟩ := hsound
      exact ⟨placed, ts, fs, es, rfl, hts, hspelled, hfs, hinsert, hes.symbols,
        hes.shown _ (SymbolTable.le_refl _)⟩
    · cases h

/-- A text that describes facts is accepted, if the world accepts its entries. -/
theorem World.read_of_areFacts {placed : List Placed} {fs : List Tree.Fact}
    (htext : tokens text = .ok placed) (hts : placed.map (·.token) = ts ++ [.finish])
    (hfs : AreFacts ts fs) (names : SymbolTable) : ∃ es names', names ≤ names' ∧
      es.mapM (·.tree? names') = some fs ∧
      ∀ w, empty.insertAll es = .ok w → World.read text names = (.ok w, names') := by
  obtain ⟨ts', hts', hspelled⟩ := isSpelled_of_tokensFrom htext
  obtain rfl := List.append_cancel_right (hts'.symm.trans hts)
  have hs := Reading.left_start hts (fun hmem => hspelled _ hmem) names
  obtain ⟨es, s', hes, hfacts⟩ := Reader.complete_facts _ hs hs.bound hfs
  refine ⟨es, s'.draft.symbols, hes.symbols, hes.shown _ (SymbolTable.le_refl _), fun w hw => ?_⟩
  have hread : (Reader.bounded (Reader.facts empty)).run (.start placed names) = .ok w s' :=
    hfacts empty w hw
  unfold World.read
  rw [htext]
  dsimp only
  rw [hread]

end TaskNetwork
