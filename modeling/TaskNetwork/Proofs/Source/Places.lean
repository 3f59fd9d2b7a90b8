import TaskNetwork.Proofs.Source.Facts
import TaskNetwork.Proofs.Source.Pieces
import TaskNetwork.Proofs.Source.Within

/-! Where a text is refused. The tokens of a text are placed in it, and so are the faults that
readers give with them and those of lexemes, except for a line break behind a backslash in a
string. -/

namespace TaskNetwork.Source

variable {α : Type}

/-- The place of a character of the text, or the one behind the last. -/
def Position.IsIn (p : Position) (text : List Char) : Prop :=
  ∃ before, before <+: text ∧ p = .behind before

section Places

variable {c : Char} {cs text : List Char}

theorem Position.isIn_append (before rest : List Char) : (behind before).IsIn (before ++ rest) :=
  ⟨before, List.prefix_append _ _, rfl⟩

/-- No place in a text is before the first column. -/
theorem Position.column_pos {p : Position} (h : p.IsIn text) : 0 < p.column := by
  obtain ⟨before, -, rfl⟩ := h
  exact Nat.succ_pos _

theorem isIn_placedFrom (before : List Char) (pieces : List Piece) (last : List Char) :
    ∀ t ∈ placedFrom before pieces, t.place.IsIn (before ++ (written pieces ++ last)) := by
  induction pieces generalizing before with
  | nil => exact fun _ ht => absurd ht List.not_mem_nil
  | cons p pieces ih =>
    have hmore := ih (before ++ p.gap ++ p.spelling)
    rw [written_cons]
    refine List.forall_mem_cons.mpr ⟨?_, fun t ht => ?_⟩
    · rw [List.append_assoc, List.append_assoc, ← List.append_assoc before]
      exact Position.isIn_append _ _
    · simpa only [List.append_assoc] using hmore t ht

/-- The tokens of a text are placed in it. -/
theorem isIn_of_tokens {text : String} {placed : List Placed} (h : tokens text = .ok placed) :
    ∀ t ∈ placed, t.place.IsIn text.toList := by
  obtain ⟨pieces, last, htext, -, rfl⟩ := stand_of_tokensFrom [] h
  refine List.forall_mem_append.mpr ⟨fun t ht => ?_, fun t ht => ?_⟩
  · rw [htext]
    exact isIn_placedFrom [] pieces last t ht
  · obtain rfl := List.mem_singleton.mp ht
    exact ⟨text.toList, List.prefix_rfl, rfl⟩

/-- The place of an error is in the text, except for a line break behind a backslash in a string:
the place of that is before the first column of the next line. -/
structure SourceError.Located (e : SourceError) (text : List Char) : Prop where
  inside : e.place.IsIn text ↔ e.fault ≠ .lexical (.unknownEscape '\n')
  outside : e.fault = .lexical (.unknownEscape '\n') →
    ∃ before, before ++ ['\\', '\n'] <+: text ∧ e.place = ⟨(Position.behind before).line + 1, 0⟩

theorem SourceError.Located.of_isIn {e : SourceError} (h : e.place.IsIn text)
    (hfault : e.fault ≠ .lexical (.unknownEscape '\n')) : e.Located text :=
  ⟨⟨fun _ => hfault, fun _ => h⟩, fun hbreak => absurd hbreak hfault⟩

theorem StringTail.cons_eq_unknownEscape {e : Char} {written spelling : List Char} {t : StringTail}
    (h : t.cons c written = .unknownEscape e spelling) :
    ∃ s, t = .unknownEscape e s ∧ spelling = written ++ s := by
  cases t <;> cases h
  exact ⟨_, rfl, rfl⟩

theorem spelling_of_stringTail {e : Char} {spelling : List Char}
    (h : stringTail cs = .unknownEscape e spelling) :
    ∃ inner, spelling = inner ++ ['\\', e] ∧ spelling <+: cs := by
  fun_induction stringTail cs generalizing spelling with
  | case1 | case2 | case3 => cases h
  | case4 _ _ _ _ ih =>
    obtain ⟨s, htail, rfl⟩ := StringTail.cons_eq_unknownEscape h
    obtain ⟨inner, rfl, hprefix⟩ := ih htail
    exact ⟨_, (List.append_assoc ..).symm, List.prefix_append_right_inj _ |>.mpr hprefix⟩
  | case5 => cases h; exact ⟨[], rfl, List.prefix_append _ _⟩
  | case6 _ _ _ _ _ ih =>
    obtain ⟨s, htail, rfl⟩ := StringTail.cons_eq_unknownEscape h
    obtain ⟨inner, rfl, hprefix⟩ := ih htail
    exact ⟨_, (List.append_assoc ..).symm, List.prefix_append_right_inj _ |>.mpr hprefix⟩

/-- A lexeme fails at its start, or at an unknown escape of its string. -/
theorem fault_of_lexeme {f : LexemeFault} (h : lexeme c cs = .error f) :
    (f.spelling = [] ∧ ∀ e, f.fault ≠ .unknownEscape e) ∨
      ∃ inner e, f.fault = .unknownEscape e ∧ f.spelling = inner ++ ['\\', e] ∧
        f.spelling <+: c :: cs := by
  have hvariable {sign : Char} {token : String → Token}
      (h : variableLexeme sign token cs = .error f) :
      f.spelling = [] ∧ ∀ e, f.fault ≠ .unknownEscape e := by
    unfold variableLexeme at h
    split at h
    · split at h <;> cases h
      exact ⟨rfl, fun _ h => by cases h⟩
    · cases h
      exact ⟨rfl, fun _ h => by cases h⟩
  unfold lexeme at h
  split at h
  · cases h
  split at h
  · split at h <;> cases h
  split at h
  · next hquote =>
    unfold stringLexeme at h
    split at h <;> cases h
    · next e spelling htail =>
      obtain ⟨inner, hspelling, hprefix⟩ := spelling_of_stringTail htail
      exact .inr ⟨'"' :: inner, e, rfl, by rw [hspelling]; rfl,
        hquote ▸ List.cons_prefix_cons.mpr ⟨rfl, hprefix⟩⟩
    · exact .inl ⟨rfl, fun _ h => by cases h⟩
  iterate 3
    split at h
    · exact .inl (hvariable h)
  split at h
  · split at h <;> cases h
    exact .inl ⟨rfl, fun _ h => by cases h⟩
  split at h
  · cases h
  split at h
  · cases h
  · cases h
    exact .inl ⟨rfl, fun _ h => by cases h⟩

/-- An unknown escape has the place of the character behind the backslash, if that is no line
break. -/
theorem LexemeFault.place_unknownEscape (f : LexemeFault) {inner : List Char} {e : Char}
    (h : f.spelling = inner ++ ['\\', e]) (before : List Char) :
    f.place (.behind before) = if e = '\n' then ⟨(Position.behind (before ++ inner)).line + 1, 0⟩
      else .behind (before ++ inner ++ ['\\']) := by
  unfold LexemeFault.place
  split
  · next hnil => simp [hnil] at h
  · rw [h, Position.after_behind, List.append_cons inner, ← List.append_assoc,
      ← Position.next_behind, ← List.append_assoc]
    unfold Position.next
    split
    · simp [Position.behind]
    · rfl

/-- A text without tokens has a place where there is no lexeme. -/
theorem exists_of_tokensFrom_error (before : List Char) {e : SourceError}
    (h : tokensFrom (.behind before) cs = .error e) :
    ∃ done c rest f, cs = done ++ c :: rest ∧ lexeme c rest = .error f ∧
      e = ⟨.lexical f.fault, f.place (.behind (before ++ done))⟩ := by
  generalize hp : Position.behind before = p at h
  fun_induction tokensFrom p cs generalizing before e
  case case1 => cases h
  case case2 p cs gap c rest hs place f hl =>
    cases h
    subst hp
    have hcs := splitGap_append false cs
    rw [hs] at hcs
    exact ⟨gap, c, rest, f, hcs.symm, hl, by rw [← Position.after_behind]⟩
  case case3 p cs gap c rest hs place l hl ih =>
    subst hp
    have hcs := splitGap_append false cs
    rw [hs] at hcs
    have hplace : place = .behind (before ++ gap) := Position.after_behind before gap
    cases hmore : tokensFrom (place.after l.spelling) l.rest with
    | ok more => rw [hmore] at h; cases h
    | error e' =>
      rw [hmore] at h
      cases h
      rw [hplace, Position.after_behind] at hmore ih
      obtain ⟨done, d, rest', f, hrest, hf, rfl⟩ := ih _ rfl hmore
      refine ⟨gap ++ (l.spelling ++ done), d, rest', f, ?_, hf, by simp only [List.append_assoc]⟩
      rw [← hcs, ← lexeme_append hl, hrest]
      simp only [List.append_assoc]

theorem located_of_tokens {text : String} {e : SourceError} (h : tokens text = .error e) :
    e.Located text.toList := by
  obtain ⟨done, c, rest, f, htext, hf, rfl⟩ := exists_of_tokensFrom_error [] h
  rw [htext]
  obtain ⟨hspelling, hfault⟩ | ⟨inner, e, hfault, hspelling, hprefix⟩ := fault_of_lexeme hf
  · refine .of_isIn ?_ fun h => hfault _ (Fault.lexical.inj h)
    rw [LexemeFault.place, hspelling]
    exact Position.isIn_append _ _
  have hplace := f.place_unknownEscape hspelling done
  have hescape : done ++ inner ++ ['\\', e] <+: done ++ c :: rest := by
    rw [List.append_assoc, ← hspelling]
    exact (List.prefix_append_right_inj _).mpr hprefix
  by_cases he : e = '\n'
  · subst he
    rw [if_pos rfl] at hplace
    have houtside : ¬(f.place (.behind done)).IsIn (done ++ c :: rest) := fun hin => by
      have hcolumn := Position.column_pos hin
      rw [hplace] at hcolumn
      exact absurd hcolumn (Nat.lt_irrefl 0)
    exact ⟨⟨fun hin => absurd hin houtside, fun hne => absurd (congrArg Fault.lexical hfault) hne⟩,
      fun _ => ⟨_, hescape, hplace⟩⟩
  · refine .of_isIn ⟨_, ?_, hplace.trans (if_neg he)⟩ fun h => he ?_
    · exact (List.prefix_append _ [e]).trans (by simpa using hescape)
    · exact LexicalFault.unknownEscape.inj (hfault.symm.trans (Fault.lexical.inj h))

end Places

section Refusals

variable {text : String} {names : SymbolTable} {placed : List Placed}

theorem located_of_reader {r : Reader α} {Q : List Token → α → Reading → Prop} {e : ReadError}
    {s : Reading} (htext : tokens text = .ok placed)
    (hends : ∀ ts, (Reading.start placed names).Left ts → Ends (r (.start placed names)) (Q ts))
    (hwithin : ∀ P, Within P r) (hr : r (.start placed names) = .error e s) :
    ∃ error, e = .refused error ∧ error.Located text.toList := by
  obtain ⟨ts, hts, hspelled⟩ := isSpelled_of_tokensFrom htext
  have hplaced := hends ts (Reading.left_start hts (fun hmem => hspelled _ hmem) names)
  have hstays := hwithin (·.IsIn text.toList) (.start placed names) (isIn_of_tokens htext)
  rw [hr] at hplaced hstays
  obtain ⟨fault, place, rfl⟩ := hplaced
  exact ⟨_, rfl, .of_isIn hstays fun h => by cases h⟩

/-- A text is refused at a place in it, except for a line break behind a backslash in a string. -/
theorem located_of_read {e : ReadError} (h : (Domain.read text names).1 = .error (.unreadable e) ∨
    (World.read text names).1 = .error e) :
    ∃ error, e = .refused error ∧ error.Located text.toList := by
  cases htext : tokens text with
  | error error =>
    refine ⟨error, ?_, located_of_tokens htext⟩
    simp only [Domain.read, World.read, htext, Except.error.injEq, DomainTextError.unreadable.injEq,
      or_self] at h
    exact h.symm
  | ok placed =>
    obtain h | h := h
    · cases hr : (Reader.bounded Reader.declarations).run (.start placed names) with
      | ok declarations s =>
        simp only [Domain.read, htext, hr] at h
        cases hd : Domain.ofDeclarations declarations <;> rw [hd] at h <;> cases h
      | error e' s =>
        simp only [Domain.read, htext, hr] at h
        cases h
        exact located_of_reader htext (fun _ hs => Reader.sound_declarations _ hs hs.bound)
          (fun _ => Reader.within_declarations _) hr
    · cases hr : (Reader.bounded (Reader.facts .empty)).run (.start placed names) with
      | ok world s =>
        simp only [World.read, htext, hr] at h
        cases h
      | error e' s =>
        simp only [World.read, htext, hr] at h
        cases h
        exact located_of_reader htext (fun _ hs => Reader.sound_facts _ hs hs.bound _)
          (fun _ => Reader.within_facts _ _) hr

end Refusals

/-! A method whose branch lacks a closing parenthesis, and a string with a line break behind its
backslash. -/

namespace Refused

def branchText : String := "method m() \x7b # one branch\n  x: p(?a => t();\n\x7d"

/-- The arrow stands where the parenthesis should. -/
def arrow : SourceError :=
  ⟨.grammatical (.unexpected (.mark .closeParen) (.mark .arrow)), ⟨2, 11⟩⟩

def breakText : String := "\"\\\n"

end Refused

open Refused in
theorem located_of_read_arrow :
    (Domain.read branchText .empty).1 = .error (.unreadable (.refused arrow)) ∧
      ∃ error, ReadError.refused arrow = .refused error ∧ error.Located branchText.toList := by
  have hread : (Domain.read branchText .empty).1 = .error (.unreadable (.refused arrow)) := by cbv
  exact ⟨hread, located_of_read (.inl hread)⟩

open Refused in
/-- An error is placed in column 0. -/
theorem not_isIn_break :
    ∃ e, (Domain.read breakText .empty).1 = .error (.unreadable (.refused e)) ∧
      e.place = ⟨2, 0⟩ ∧ ¬e.place.IsIn breakText.toList := by
  refine ⟨⟨.lexical (.unknownEscape '\n'), ⟨2, 0⟩⟩, by cbv, rfl, fun h => ?_⟩
  exact absurd (Position.column_pos h) (Nat.lt_irrefl 0)

end TaskNetwork.Source
