import TaskNetwork.Proofs.Source.Forward
import TaskNetwork.Proofs.Source.Places
import Mathlib.Data.List.Perm.Subperm

/-! Reading comes to an end. For every text it stays at the tokens, and between two beginnings of
one stage it takes a token, so no stage begins more often than there are tokens. -/

namespace TaskNetwork.Source

variable {α : Type}

section Cutting

/-- Each token but the last is spelled with some character. -/
theorem length_of_tokensFrom {p : Position} {cs : List Char} {placed : List Placed}
    (h : tokensFrom p cs = .ok placed) : placed.length ≤ cs.length + 1 := by
  fun_induction tokensFrom p cs generalizing placed
  case case1 => cases h; simp
  case case2 => cases h
  case case3 p cs gap c rest hs place l hl ih =>
    have hgap := length_splitGap_le false cs
    have hrest := length_rest_lt hl
    rw [hs] at hgap
    cases hmore : tokensFrom (place.after l.spelling) l.rest with
    | error e => rw [hmore] at h; cases h
    | ok more =>
      rw [hmore] at h
      cases h
      have hlength := ih hmore
      rw [List.length_cons]
      dsimp only at hgap
      omega

/-- The tokens of a text end with the only `finish` among them. -/
theorem ended_of_tokens {text : String} {placed : List Placed} (h : tokens text = .ok placed) :
    ∃ front place, placed = front ++ [⟨.finish, place⟩] ∧ ∀ t ∈ front, t.token ≠ .finish := by
  obtain ⟨ts, hts, hspelled⟩ := isSpelled_of_tokensFrom h
  obtain ⟨front, last, rfl, rfl, hlast⟩ := List.map_eq_append_iff.mp hts
  obtain ⟨⟨token, place⟩, rfl, rfl⟩ := List.map_eq_singleton_iff.mp hlast
  refine ⟨front, place, rfl, fun t ht hfinish => ?_⟩
  have hword := hspelled _ (List.mem_map_of_mem ht)
  rw [hfinish] at hword
  exact hword

/-- No place in a text is before the first column. -/
theorem column_pos_after (before : List Char) : 1 ≤ (Position.start.after before).column := by
  have hafter : Position.start.after before = .behind before := Position.after_behind [] before
  rw [hafter]
  exact Nat.succ_pos _

end Cutting

namespace Noting

/-- What a run does, without its notes. -/
def plain : EStateM.Result ReadError (Reading × Notes) α → EStateM.Result ReadError Reading α
  | .ok a (s, _) => .ok a s
  | .error e (s, _) => .error e s

/-- The states that a run passed through, the one at its end first. -/
def states : EStateM.Result ReadError (Reading × Notes) α → List Reading
  | .ok _ (s, notes) | .error _ (s, notes) => s :: notes.states

def stages : EStateM.Result ReadError (Reading × Notes) α → List (Stage × Nat)
  | .ok _ (_, notes) | .error _ (_, notes) => notes.stages

end Noting

/-- A run that has been noted. It ended with a phrase read or with the text refused; it was at a
token in each state, from the first token on and one token after the other; and between two
beginnings of one stage it took a token. -/
structure Proceeds (ts : List Placed) (run : EStateM.Result ReadError Reading α)
    (noted : EStateM.Result ReadError (Reading × Notes) α) : Prop where
  plain : Noting.plain noted = run
  settled : ∀ s, run ≠ .error .stuck s
  inside : ∀ s ∈ Noting.states noted, s.Inside ts
  first : ∃ start, (Noting.states noted).getLast? = some start ∧ start.cursor = 0
  stepwise : (Noting.states noted).IsChain fun later earlier =>
    earlier.cursor ≤ later.cursor ∧ later.cursor ≤ earlier.cursor + 1
  forward : (Noting.stages noted).Pairwise fun later earlier =>
    later.1 = earlier.1 → earlier.2 < later.2
  few : (Noting.stages noted).length ≤ 4 * ts.length

theorem length_le_of_descending {ns : List Nat} {n : Nat} (h : ns.Pairwise (· > ·))
    (hlt : ∀ m ∈ ns, m < n) : ns.length ≤ n := by
  have hnodup : ns.Nodup := h.imp Nat.ne_of_gt
  have hsub : ns ⊆ List.range n := fun m hm => List.mem_range.mpr (hlt m hm)
  simpa using (List.subperm_of_subset hnodup hsub).length_le

section Runs

variable {ts : List Placed} {notes : Notes} {s : Reading}

theorem Notes.Tracks.forward (h : notes.Tracks ts s) :
    notes.stages.Pairwise fun later earlier => later.1 = earlier.1 → earlier.2 < later.2 := by
  refine h.ordered.imp fun hlt hstage => ?_
  unfold reach at hlt
  rw [hstage] at hlt
  omega

theorem Notes.Tracks.few (h : notes.Tracks ts s) : notes.stages.length ≤ 4 * ts.length := by
  have hcursor := (h.inside s List.mem_cons_self).cursor_lt
  -- No two stages reach equally far, and the last one not past the last token.
  have hdescending : (notes.stages.map reach).Pairwise (· > ·) := List.pairwise_map.mpr h.ordered
  have hlt : ∀ m ∈ notes.stages.map reach, m < 4 * ts.length := by
    refine List.forall_mem_map.mpr fun stage hstage => ?_
    have hbefore := h.before stage hstage
    omega
  simpa using length_le_of_descending hdescending hlt

theorem Reading.inside_start (hended : ∃ t, ts.getLast? = some t ∧ t.token = .finish)
    (names : SymbolTable) : (start ts names).Inside ts := by
  obtain ⟨t, ht, hfinish⟩ := hended
  have hcursor : (start ts names).cursor = 0 := Nat.sub_self _
  refine ⟨rfl, ⟨t, ht, hfinish⟩, ?_, by rw [hcursor]; rfl⟩
  rw [hcursor]
  exact List.length_pos_of_mem (List.mem_of_getLast? ht)

theorem Forward.proceeds {k : Nat} {r : Reader α} {r' : NotingReader α} {after : α → Nat}
    {names : SymbolTable} {Q : α → Reading → Prop} (h : Forward ts k r r' after)
    (hended : ∃ t, ts.getLast? = some t ∧ t.token = .finish)
    (hends : Ends (r (.start ts names)) Q) :
    Proceeds ts (r (.start ts names)) (r' (.start ts names, {})) := by
  have hinside := Reading.inside_start hended names
  have hstart : ({} : Notes).Tracks ts (.start ts names) := by
    refine ⟨List.forall_mem_singleton.mpr hinside, ⟨_, rfl, Nat.sub_self _⟩, .singleton _, .nil, ?_⟩
    exact fun _ hmem => absurd hmem List.not_mem_nil
  have hsettled : ∀ s, r (.start ts names) ≠ .error .stuck s := by
    intro s hstuck
    rw [hstuck] at hends
    obtain ⟨_, _, hfault⟩ := hends
    cases hfault
  have hagree := h _ _ hstart fun _ hmem => absurd hmem List.not_mem_nil
  cases hnoted : r' (.start ts names, {}) with
  | ok a p =>
    rw [hnoted] at hagree
    obtain ⟨hplain, htracks, -⟩ := hagree
    exact ⟨hplain.symm, hsettled, htracks.inside, htracks.first, htracks.stepwise, htracks.forward,
      htracks.few⟩
  | error e p =>
    rw [hnoted] at hagree
    obtain ⟨hplain, htracks⟩ := hagree
    exact ⟨hplain.symm, hsettled, htracks.inside, htracks.first, htracks.stepwise, htracks.forward,
      htracks.few⟩

end Runs

section Texts

variable {text : String} {ts : List Placed}

theorem proceeds_of_tokens {r : Reader α} {r' : NotingReader α} {k : Nat} {after : α → Nat}
    {Q : List Token → α → Reading → Prop} (htext : tokens text = .ok ts) (names : SymbolTable)
    (h : Forward ts k r r' after)
    (hends : ∀ left, (Reading.start ts names).Left left → Ends (r (.start ts names)) (Q left)) :
    Proceeds ts (r (.start ts names)) (r' (.start ts names, {})) := by
  obtain ⟨left, hleft, hspelled⟩ := isSpelled_of_tokensFrom htext
  obtain ⟨front, place, hfinish, -⟩ := ended_of_tokens htext
  have hended : ∃ t, ts.getLast? = some t ∧ t.token = .finish :=
    ⟨⟨.finish, place⟩, by rw [hfinish, List.getLast?_concat], rfl⟩
  exact h.proceeds hended
    (hends left (Reading.left_start hleft (fun hmem => hspelled _ hmem) names))

theorem proceeds_declarations (htext : tokens text = .ok ts) (names : SymbolTable) :
    Proceeds ts ((Reader.bounded Reader.declarations).run (.start ts names))
      ((Noting.bounded Noting.declarations).run (.start ts names, {})) :=
  proceeds_of_tokens htext names (.bounded Reader.forward_declarations)
    fun _ hs => Reader.sound_declarations _ hs hs.bound

theorem proceeds_facts (htext : tokens text = .ok ts) (names : SymbolTable) :
    Proceeds ts ((Reader.bounded (Reader.facts .empty)).run (.start ts names))
      ((Noting.bounded (Noting.facts .empty)).run (.start ts names, {})) :=
  proceeds_of_tokens htext names (.bounded (Reader.forward_facts .empty))
    fun _ hs => Reader.sound_facts _ hs hs.bound _

theorem domain_settled (text : String) (names : SymbolTable) :
    (Domain.read text names).1 ≠ .error (.unreadable .stuck) := by
  intro hstuck
  unfold Domain.read at hstuck
  split at hstuck
  · cases hstuck
  · next ts htext =>
    have hsettled := (proceeds_declarations htext names).settled
    split at hstuck
    · next ds s _ =>
      cases hd : Domain.ofDeclarations ds <;> rw [hd] at hstuck <;> cases hstuck
    · next heq =>
      cases hstuck
      exact hsettled _ heq

theorem world_settled (text : String) (names : SymbolTable) :
    (World.read text names).1 ≠ .error .stuck := by
  intro hstuck
  unfold World.read at hstuck
  split at hstuck
  · cases hstuck
  · next ts htext =>
    have hsettled := (proceeds_facts htext names).settled
    split at hstuck
    · cases hstuck
    · next heq =>
      cases hstuck
      exact hsettled _ heq

/-- Every text is read to an end. No column that counts is before the first, and where an unknown
escape is placed one column back there is one; the readers stay at the tokens, of which the last is
`finish`, and take one between two beginnings of a stage. -/
theorem reading_proceeds (text : String) (names : SymbolTable) :
    (match tokens text with
      | .error e => ∃ before c rest f, text.toList = before ++ c :: rest ∧
          lexeme c rest = .error f ∧
          e = ⟨.lexical f.fault, f.place (Position.start.after before)⟩ ∧
          1 ≤ ((Position.start.after before).after f.spelling).column
      | .ok ts => ts.length ≤ text.length + 1 ∧
          (∃ front place, ts = front ++ [⟨.finish, place⟩] ∧ ∀ t ∈ front, t.token ≠ .finish) ∧
          Proceeds ts ((Reader.bounded Reader.declarations).run (.start ts names))
            ((Noting.bounded Noting.declarations).run (.start ts names, {})) ∧
          Proceeds ts ((Reader.bounded (Reader.facts .empty)).run (.start ts names))
            ((Noting.bounded (Noting.facts .empty)).run (.start ts names, {}))) ∧
      (∀ before, before <+: text.toList → 1 ≤ (Position.start.after before).column) ∧
      (Domain.read text names).1 ≠ .error (.unreadable .stuck) ∧
      (World.read text names).1 ≠ .error .stuck := by
  refine ⟨?_, fun before _ => column_pos_after before, domain_settled text names,
    world_settled text names⟩
  split
  · next e htext =>
    obtain ⟨before, c, rest, f, hcs, hf, rfl⟩ := exists_of_tokensFrom_error [] htext
    have hbefore : Position.start.after before = .behind before := Position.after_behind [] before
    refine ⟨before, c, rest, f, hcs, hf, by rw [hbefore]; rfl, ?_⟩
    rw [hbefore, Position.after_behind]
    exact Nat.succ_pos _
  · next ts htext =>
    have hlength := length_of_tokensFrom htext
    rw [String.length_toList] at hlength
    exact ⟨hlength, ended_of_tokens htext, proceeds_declarations htext names,
      proceeds_facts htext names⟩

end Texts

/-! A domain that ends within a list, in a condition of a method. -/

namespace Truncated

def listText : String := "top method m(?x) \x7b b: not(p([a"

def listTokens : List Placed :=
  [⟨.word "top", ⟨1, 1⟩⟩, ⟨.word "method", ⟨1, 5⟩⟩, ⟨.word "m", ⟨1, 12⟩⟩,
    ⟨.mark .openParen, ⟨1, 13⟩⟩, ⟨.inOutVar "x", ⟨1, 14⟩⟩, ⟨.mark .closeParen, ⟨1, 16⟩⟩,
    ⟨.mark .openBrace, ⟨1, 18⟩⟩, ⟨.word "b", ⟨1, 20⟩⟩, ⟨.mark .colon, ⟨1, 21⟩⟩,
    ⟨.word "not", ⟨1, 23⟩⟩, ⟨.mark .openParen, ⟨1, 26⟩⟩, ⟨.word "p", ⟨1, 27⟩⟩,
    ⟨.mark .openParen, ⟨1, 28⟩⟩, ⟨.mark .openBracket, ⟨1, 29⟩⟩, ⟨.word "a", ⟨1, 30⟩⟩,
    ⟨.finish, ⟨1, 31⟩⟩]

/-- The stages in the order in which they should begin. -/
def listStages : List (Stage × Nat) :=
  [(.round .declaration, 0), (.phrase .declaration, 0), (.phrase .method, 2), (.phrase .terms, 4),
    (.round .term, 4), (.phrase .term, 4), (.round .branch, 7), (.phrase .branch, 7),
    (.phrase .conjunction, 9), (.round .condition, 9), (.phrase .condition, 9),
    (.phrase .conjunction, 11), (.round .condition, 11), (.phrase .condition, 11),
    (.phrase .terms, 13), (.round .term, 13), (.phrase .term, 13), (.phrase .literal, 13),
    (.round .literal, 14), (.phrase .literal, 14)]

def stages : List (Stage × Nat) :=
  (Noting.stages ((Noting.bounded Noting.declarations).run (.start listTokens .empty, {}))).reverse

theorem tokens_eq : tokens listText = .ok listTokens := by cbv

theorem stages_eq : stages = listStages := by cbv

end Truncated

theorem Refused.tokens_eq :
    tokens breakText = .error ⟨.lexical (.unknownEscape '\n'), ⟨2, 0⟩⟩ := by cbv

open Truncated Refused in
/-- In the other text a line break stands behind a backslash, and the error one column back from the
first. -/
theorem reading_proceeds_truncated :
    (tokens listText = .ok listTokens ∧ stages = listStages ∧
      Proceeds listTokens ((Reader.bounded Reader.declarations).run (.start listTokens .empty))
        ((Noting.bounded Noting.declarations).run (.start listTokens .empty, {}))) ∧
    tokens breakText = .error ⟨.lexical (.unknownEscape '\n'), ⟨2, 0⟩⟩ ∧
      ∃ before c rest f, breakText.toList = before ++ c :: rest ∧ lexeme c rest = .error f ∧
        (⟨2, 0⟩ : Position) = f.place (Position.start.after before) ∧
        1 ≤ ((Position.start.after before).after f.spelling).column := by
  have hproceeds := (reading_proceeds listText .empty).1
  have hplaced := (reading_proceeds breakText .empty).1
  rw [Truncated.tokens_eq] at hproceeds
  rw [Refused.tokens_eq] at hplaced
  obtain ⟨before, c, rest, f, htext, hfails, herror, hcolumn⟩ := hplaced
  exact ⟨⟨Truncated.tokens_eq, stages_eq, hproceeds.2.2.1⟩, Refused.tokens_eq, before, c, rest, f,
    htext, hfails, congrArg SourceError.place herror, hcolumn⟩

end TaskNetwork.Source
