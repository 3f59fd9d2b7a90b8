import TaskNetwork.Proofs.Source.Spelling

/-! A text that has tokens is made of pieces, each a gap and a spelling, and of the gap at its end.
Nothing of it is lost, and the place of a token is that of the first character of its spelling. -/

namespace TaskNetwork.Source

namespace Position

/-- The place behind the characters. Its line is one more than the line breaks among them, and its
column one more than the characters behind the last of those. -/
def behind (before : List Char) : Position :=
  ⟨before.count '\n' + 1, (before.reverse.takeWhile (· != '\n')).length + 1⟩

theorem next_behind (before : List Char) (c : Char) :
    (behind before).next c = behind (before ++ [c]) := by
  unfold next behind
  split
  · next hc => simp [hc]
  · next hc => simp [hc]

theorem after_behind (before text : List Char) :
    (behind before).after text = behind (before ++ text) := by
  induction text generalizing before with
  | nil => rw [List.append_nil]; rfl
  | cons c cs ih =>
    rw [List.append_cons, ← ih, ← next_behind]
    rfl

end Position

/-- The characters are blanks and comments, if `rest` follows. A comment ends with its line or with
the text. -/
inductive IsGap : List Char → List Char → Prop
  | none {rest} : IsGap [] rest
  | blank {c gap rest} : Text.isBlank c = true → IsGap gap rest → IsGap (c :: gap) rest
  | comment {body gap rest} : '\n' ∉ body → IsGap gap rest →
      IsGap ('#' :: (body ++ '\n' :: gap)) rest
  | lastComment {body} : '\n' ∉ body → IsGap ('#' :: body) []

section Gaps

variable {c : Char} {gap rest : List Char}

theorem IsGap.commented (h : IsGap ('#' :: gap) rest) (hc : c ≠ '\n') :
    IsGap ('#' :: c :: gap) rest := by
  cases h with
  | blank hblank => exact absurd hblank (by decide)
  | comment hbody hgap =>
    have hmore := List.not_mem_cons_of_ne_of_not_mem hc.symm hbody
    exact .comment hmore hgap
  | lastComment hbody => exact .lastComment (List.not_mem_cons_of_ne_of_not_mem hc.symm hbody)

theorem splitGap_comment (hc : c ≠ '\n') (cs : List Char) :
    splitGap true (c :: cs) = (c :: (splitGap true cs).1, (splitGap true cs).2) := by
  rw [splitGap, bne_iff_ne.mpr hc]
  rfl

/-- A text starts with a gap, also behind a number sign. -/
theorem isGap_splitGap (cs : List Char) :
    IsGap (splitGap false cs).1 (splitGap false cs).2 ∧
      IsGap ('#' :: (splitGap true cs).1) (splitGap true cs).2 := by
  induction cs with
  | nil => exact ⟨.none, .lastComment List.not_mem_nil⟩
  | cons c cs ih =>
    refine ⟨?_, ?_⟩
    · by_cases hbegins : Begins c
      · rw [splitGap_begins hbegins]
        exact .none
      by_cases hblank : Text.isBlank c = true
      · rw [splitGap_blank hblank]
        exact .blank hblank ih.1
      obtain rfl : c = '#' := by simpa [Begins, hblank] using hbegins
      exact ih.2
    · by_cases hc : c = '\n'
      · subst hc
        have hempty : '\n' ∉ ([] : List Char) := List.not_mem_nil
        exact .comment hempty ih.1
      · rw [splitGap_comment hc]
        exact ih.2.commented hc

theorem splitGap_body {body : List Char} (hbody : '\n' ∉ body) (cs : List Char) :
    splitGap true (body ++ cs) = (body ++ (splitGap true cs).1, (splitGap true cs).2) := by
  induction body with
  | nil => rfl
  | cons c body ih =>
    obtain ⟨hc, hbody⟩ := List.ne_and_not_mem_of_not_mem_cons hbody
    rw [List.cons_append, splitGap_comment hc.symm, ih hbody]
    rfl

/-- A gap ends where a lexeme starts, or with the text. -/
theorem IsGap.splitGap (h : IsGap gap rest) (hrest : ∀ c, rest.head? = some c → Begins c) :
    splitGap false (gap ++ rest) = (gap, rest) := by
  induction h with
  | @none rest =>
    cases rest with
    | nil => rfl
    | cons c cs => exact splitGap_begins (hrest c rfl) cs
  | blank hc _ ih => rw [List.cons_append, splitGap_blank hc, ih hrest]
  | @comment body gap rest hbody _ ih =>
    have hbreak : Source.splitGap true ('\n' :: (gap ++ rest)) = ('\n' :: gap, rest) :=
      congrArg (fun split => ('\n' :: split.1, split.2)) (ih hrest)
    have hcomment := splitGap_body hbody ('\n' :: (gap ++ rest))
    rw [hbreak, ← List.cons_append, ← List.append_assoc] at hcomment
    exact congrArg (fun split => ('#' :: split.1, split.2)) hcomment
  | lastComment hbody =>
    have hcomment := splitGap_body hbody []
    rw [Source.splitGap, List.append_nil] at hcomment
    rw [List.append_nil]
    exact congrArg (fun split => ('#' :: split.1, split.2)) hcomment

end Gaps

/-- A token with what is written of it: a gap, and behind it the spelling. -/
structure Piece where
  gap : List Char
  spelling : List Char
  token : Token

/-- What is written of the pieces. -/
def written (pieces : List Piece) : List Char := pieces.flatMap fun p => p.gap ++ p.spelling

theorem written_cons (p : Piece) (pieces : List Piece) :
    written (p :: pieces) = p.gap ++ p.spelling ++ written pieces := List.flatMap_cons

/-- The tokens of pieces behind the characters `before`, each at the place of its spelling. -/
def placedFrom (before : List Char) : List Piece → List Placed
  | [] => []
  | p :: pieces =>
    ⟨p.token, .behind (before ++ p.gap)⟩ :: placedFrom (before ++ p.gap ++ p.spelling) pieces

/-- The pieces stand in a text before the gap at its end. No longer piece than a spelling spells any
token at its place. -/
inductive Stand : List Piece → List Char → Prop
  | none {last} : IsGap last [] → Stand [] last
  | piece {p pieces last} : IsGap p.gap (p.spelling ++ (written pieces ++ last)) →
      Spells p.spelling p.token →
      (∀ s t, Spells s t → s <+: p.spelling ++ (written pieces ++ last) →
        s.length ≤ p.spelling.length) →
      Stand pieces last → Stand (p :: pieces) last

theorem Stand.ne_finish {pieces : List Piece} {last : List Char} (h : Stand pieces last) :
    ∀ p ∈ pieces, p.token ≠ .finish := by
  induction h with
  | none => exact fun _ hp => absurd hp List.not_mem_nil
  | piece _ hspells _ _ ih => exact List.forall_mem_cons.mpr ⟨hspells.ne_finish, ih⟩

theorem stand_of_tokensFrom (before : List Char) {cs : List Char} {placed : List Placed}
    (h : tokensFrom (.behind before) cs = .ok placed) :
    ∃ pieces last, cs = written pieces ++ last ∧ Stand pieces last ∧
      placed = placedFrom before pieces ++ [⟨.finish, .behind (before ++ cs)⟩] := by
  generalize hp : Position.behind before = p at h
  fun_induction tokensFrom p cs generalizing before placed
  case case1 p cs gap hs =>
    cases h
    obtain rfl : gap = cs := by simpa [hs] using splitGap_append false cs
    have hgap := (isGap_splitGap gap).1
    rw [hs] at hgap
    exact ⟨[], gap, rfl, .none hgap, by rw [← hp, Position.after_behind]; rfl⟩
  case case2 => cases h
  case case3 p cs gap c rest hs place l hl ih =>
    subst hp
    have hgap := (isGap_splitGap cs).1
    have hcs := splitGap_append false cs
    rw [hs] at hgap hcs
    have hplace : place = .behind (before ++ gap) := Position.after_behind before gap
    cases hmore : tokensFrom (place.after l.spelling) l.rest with
    | error e => rw [hmore] at h; cases h
    | ok more =>
      rw [hmore] at h
      cases h
      rw [hplace, Position.after_behind] at hmore ih
      obtain ⟨pieces, last, hrest, hstand, rfl⟩ := ih _ rfl hmore
      have hpiece : l.spelling ++ (written pieces ++ last) = c :: rest := by
        rw [← hrest, lexeme_append hl]
      refine ⟨⟨gap, l.spelling, l.token⟩ :: pieces, last, ?_,
        .piece (hpiece ▸ hgap) (spells_of_lexeme hl) (fun s t hspells hprefix => ?_) hstand, ?_⟩
      · rw [written_cons, List.append_assoc, List.append_assoc, hpiece, hcs]
      · exact length_le_of_lexeme hl hspells (hpiece ▸ hprefix)
      · rw [hplace, placedFrom, ← hcs, ← hpiece, hrest]
        simp

theorem Stand.tokensFrom {pieces : List Piece} {last : List Char} (h : Stand pieces last)
    (before : List Char) :
    tokensFrom (.behind before) (written pieces ++ last) =
      .ok (placedFrom before pieces ++
        [⟨.finish, .behind (before ++ (written pieces ++ last))⟩]) := by
  induction h generalizing before with
  | none hgap =>
    have hsplit := hgap.splitGap fun c hc => by cases hc
    rw [List.append_nil] at hsplit
    rw [written, List.flatMap_nil, List.nil_append, tokensFrom_of_gap hsplit, Position.after_behind]
    rfl
  | @piece p pieces last hgap hspells hlongest _ ih =>
    obtain ⟨c, cs, l, hcs, hbegins, hl, hle, -⟩ := hspells.lexeme (written pieces ++ last)
    obtain ⟨hspelling, hrest⟩ : l.spelling = p.spelling ∧ l.rest = written pieces ++ last := by
      have happend := (lexeme_append hl).trans hcs.symm
      exact List.append_inj happend
        (le_antisymm (hlongest _ _ (spells_of_lexeme hl) ⟨_, happend⟩) hle)
    have htoken : l.token = p.token := (spells_of_lexeme hl).unique (hspelling ▸ hspells)
    have hsplit := hgap.splitGap fun d hd => by
      rw [hcs] at hd
      cases hd
      exact hbegins
    rw [hcs] at hsplit
    rw [written_cons, List.append_assoc, List.append_assoc, hcs, tokensFrom_of_splitGap hsplit, hl]
    dsimp only
    rw [hspelling, hrest, Position.after_behind, Position.after_behind, ih, htoken]
    simp [Except.map, placedFrom, hcs]

/-- The tokens of a text are those of its pieces, each at the place of the first character of its
spelling, and one `finish` at the end of the text. -/
theorem tokens_iff {text : String} {placed : List Placed} :
    tokens text = .ok placed ↔ ∃ pieces last, text.toList = written pieces ++ last ∧
      Stand pieces last ∧ (∀ p ∈ pieces, p.token ≠ .finish) ∧
      placed = placedFrom [] pieces ++ [⟨.finish, .behind text.toList⟩] := by
  constructor
  · intro h
    obtain ⟨pieces, last, htext, hstand, hplaced⟩ := stand_of_tokensFrom [] h
    exact ⟨pieces, last, htext, hstand, hstand.ne_finish, hplaced⟩
  · rintro ⟨pieces, last, htext, hstand, -, rfl⟩
    have htokens := hstand.tokensFrom []
    rwa [← htext] at htokens

/-- A line break in a string counts, and its escape is two characters. -/
example : tokens "p # q\n\"a\\n\nb\" =>" = .ok
    [⟨.word "p", ⟨1, 1⟩⟩, ⟨.text "a\n\nb", ⟨2, 1⟩⟩, ⟨.mark .arrow, ⟨3, 4⟩⟩, ⟨.finish, ⟨3, 6⟩⟩] := by
  cbv

end TaskNetwork.Source
