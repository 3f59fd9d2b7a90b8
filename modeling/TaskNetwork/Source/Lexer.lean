import TaskNetwork.Decimal.Read
import TaskNetwork.Source.Error
import TaskNetwork.Text.Blank
import TaskNetwork.Text.Letter
import TaskNetwork.Text.Numeral

/-! Cutting a text into tokens. A text is gaps and lexemes in turn: a gap holds blanks and comments,
and a lexeme is the longest piece that spells a token at its place. -/

namespace TaskNetwork.Source

/-- Letters and `_` start a word. -/
def isWordStart (c : Char) : Bool := Text.isLetter c || c == '_'

/-- Letters, numerals and `_` continue a word. -/
def isWordPart (c : Char) : Bool := Text.isLetter c || Text.isNumeral c || c == '_'

/-- The gap at the start of a text, and what follows it. A comment runs from `#` to the end of its
line. -/
def splitGap (inComment : Bool) : List Char → List Char × List Char
  | [] => ([], [])
  | c :: cs =>
    if inComment then
      let (gap, rest) := splitGap (c != '\n') cs
      (c :: gap, rest)
    else if Text.isBlank c || c == '#' then
      let (gap, rest) := splitGap (c == '#') cs
      (c :: gap, rest)
    else ([], c :: cs)

theorem splitGap_append (inComment : Bool) (cs : List Char) :
    (splitGap inComment cs).1 ++ (splitGap inComment cs).2 = cs := by
  induction cs generalizing inComment with
  | nil => rfl
  | cons c cs ih =>
    simp only [splitGap]
    split
    · simp [ih]
    · split
      · simp [ih]
      · rfl

/-- A token with the characters that spell it and those that follow. -/
structure Lexeme where
  token : Token
  spelling : List Char
  rest : List Char

/-- Why there is no lexeme, with the characters up to the fault where it is not at the start. -/
structure LexemeFault where
  fault : LexicalFault
  spelling : List Char := []

/-- The character that an escape stands for, by the one after the backslash. -/
def unescape? : Char → Option Char
  | '"' => some '"'
  | '\\' => some '\\'
  | 'n' => some '\n'
  | 't' => some '\t'
  | _ => none

/-- How a string goes on after its opening quotation mark. -/
inductive StringTail where
  | closed (value spelling rest : List Char)
  | unknownEscape (c : Char) (spelling : List Char)
  | unterminated

/-- One more character of a string, with its spelling, before the tail. -/
def StringTail.cons (c : Char) (written : List Char) : StringTail → StringTail
  | closed value spelling rest => closed (c :: value) (written ++ spelling) rest
  | unknownEscape e spelling => unknownEscape e (written ++ spelling)
  | unterminated => unterminated

/-- Reads up to the closing quotation mark. Line breaks may stand in a string. -/
def stringTail : List Char → StringTail
  | [] => .unterminated
  | '"' :: rest => .closed [] ['"'] rest
  | '\\' :: [] => .unterminated
  | '\\' :: c :: rest =>
    match unescape? c with
    | some e => (stringTail rest).cons e ['\\', c]
    | none => .unknownEscape c ['\\', c]
  | c :: rest => (stringTail rest).cons c [c]

def stringLexeme (cs : List Char) : Except LexemeFault Lexeme :=
  match stringTail cs with
  | .closed value spelling rest => .ok ⟨.text (String.ofList value), '"' :: spelling, rest⟩
  | .unknownEscape c spelling => .error ⟨.unknownEscape c, '"' :: spelling⟩
  | .unterminated => .error ⟨.unterminatedString, []⟩

/-- The lexeme of a variable, after the sign of its role. -/
def variableLexeme (sign : Char) (token : String → Token) (cs : List Char) :
    Except LexemeFault Lexeme :=
  match cs with
  | c :: _ =>
    if isWordStart c then
      let name := cs.takeWhile isWordPart
      .ok ⟨token (String.ofList name), sign :: name, cs.dropWhile isWordPart⟩
    else .error ⟨.missingName sign, []⟩
  | [] => .error ⟨.missingName sign, []⟩

/-- The digits after a point. A point without a digit after it is no part of the number. -/
def splitFraction : List Char → List Char × List Char
  | '.' :: d :: rest =>
    if d.isDigit then
      (d :: rest.takeWhile Char.isDigit, rest.dropWhile Char.isDigit)
    else ([], '.' :: d :: rest)
  | cs => ([], cs)

/-- The lexeme of a number, after its minus if it has one. -/
def numberLexeme (negative : Bool) (cs : List Char) : Lexeme :=
  let whole := cs.takeWhile Char.isDigit
  let (fraction, rest) := splitFraction (cs.dropWhile Char.isDigit)
  let point := if fraction.isEmpty then [] else '.' :: fraction
  let sign := if negative then ['-'] else []
  ⟨.number (Decimal.ofParts negative whole fraction 0), sign ++ whole ++ point, rest⟩

/-- The lexeme at the start of the text `c :: cs`. -/
def lexeme (c : Char) (cs : List Char) : Except LexemeFault Lexeme :=
  match Punctuation.ofChar? c with
  | some p => .ok ⟨.mark p, [c], cs⟩
  | none =>
    if c = '=' then
      match cs with
      | '>' :: rest => .ok ⟨.mark .arrow, ['=', '>'], rest⟩
      | _ => .ok ⟨.mark .equals, ['='], cs⟩
    else if c = '"' then stringLexeme cs
    else if c = '+' then variableLexeme c .inputVar cs
    else if c = '!' then variableLexeme c .outputVar cs
    else if c = '?' then variableLexeme c .inOutVar cs
    else if c = '-' then
      if cs.head?.any Char.isDigit then .ok (numberLexeme true cs) else .error ⟨.missingDigit, []⟩
    else if c.isDigit then .ok (numberLexeme false (c :: cs))
    else if isWordStart c then
      let word := (c :: cs).takeWhile isWordPart
      .ok ⟨.word (String.ofList word), word, (c :: cs).dropWhile isWordPart⟩
    else .error ⟨.unexpectedCharacter c, []⟩

/-- The place of a fault in a lexeme that starts at `p`. An unknown escape is placed one column
before the place after it; any other fault is placed at the start. -/
def LexemeFault.place (f : LexemeFault) (p : Position) : Position :=
  match f.spelling with
  | [] => p
  | spelling => let past := p.after spelling; ⟨past.line, past.column - 1⟩

theorem length_splitGap_le (inComment : Bool) (cs : List Char) :
    (splitGap inComment cs).2.length ≤ cs.length := by
  conv => rhs; rw [← splitGap_append inComment cs]
  simp

theorem StringTail.cons_eq_closed {c : Char} {written : List Char} {t : StringTail}
    {value spelling rest : List Char} (h : t.cons c written = .closed value spelling rest) :
    ∃ v s, t = .closed v s rest ∧ value = c :: v ∧ spelling = written ++ s := by
  cases t <;> cases h
  exact ⟨_, _, rfl, rfl, rfl⟩

theorem stringTail_append {cs value spelling rest : List Char}
    (h : stringTail cs = .closed value spelling rest) : spelling ++ rest = cs := by
  fun_induction stringTail cs generalizing value spelling rest with
  | case1 | case3 | case5 => cases h
  | case2 => cases h; rfl
  | case4 _ _ _ _ ih =>
    obtain ⟨v, s, hs, -, rfl⟩ := StringTail.cons_eq_closed h
    simp [ih hs]
  | case6 _ _ _ _ _ ih =>
    obtain ⟨v, s, hs, -, rfl⟩ := StringTail.cons_eq_closed h
    simp [ih hs]

theorem splitFraction_append (cs : List Char) :
    (if (splitFraction cs).1.isEmpty then [] else '.' :: (splitFraction cs).1) ++
      (splitFraction cs).2 = cs := by
  fun_cases splitFraction cs <;> simp

theorem numberLexeme_append (negative : Bool) (cs : List Char) :
    (numberLexeme negative cs).spelling ++ (numberLexeme negative cs).rest =
      (if negative then ['-'] else []) ++ cs := by
  simp only [numberLexeme, List.append_assoc, splitFraction_append, List.takeWhile_append_dropWhile]

theorem variableLexeme_append {sign : Char} {token : String → Token} {cs : List Char} {l : Lexeme}
    (h : variableLexeme sign token cs = .ok l) : l.spelling ++ l.rest = sign :: cs := by
  unfold variableLexeme at h
  split at h
  · split at h
    · cases h; simp
    · cases h
  · cases h

theorem stringLexeme_append {cs : List Char} {l : Lexeme} (h : stringLexeme cs = .ok l) :
    l.spelling ++ l.rest = '"' :: cs := by
  unfold stringLexeme at h
  split at h
  · rename_i hs
    cases h
    simp [stringTail_append hs]
  · cases h
  · cases h

/-- A lexeme and the text after it make up the text before it. -/
theorem lexeme_append {c : Char} {cs : List Char} {l : Lexeme} (h : lexeme c cs = .ok l) :
    l.spelling ++ l.rest = c :: cs := by
  unfold lexeme at h
  split at h
  · cases h; rfl
  split at h
  · subst_vars
    split at h <;> cases h <;> rfl
  split at h
  · subst_vars; exact stringLexeme_append h
  split at h
  · exact variableLexeme_append h
  split at h
  · exact variableLexeme_append h
  split at h
  · exact variableLexeme_append h
  split at h
  · subst_vars
    split at h
    · cases h; simpa using numberLexeme_append true cs
    · cases h
  split at h
  · cases h; simpa using numberLexeme_append false (c :: cs)
  split at h
  · cases h; simp
  · cases h

theorem isWordPart_of_isWordStart {c : Char} (h : isWordStart c) : isWordPart c := by
  simp only [isWordStart, isWordPart, Bool.or_eq_true] at *
  exact h.imp_left .inl

theorem lexeme_spelling_ne_nil {c : Char} {cs : List Char} {l : Lexeme}
    (h : lexeme c cs = .ok l) : l.spelling ≠ [] := by
  unfold lexeme at h
  split at h
  · cases h; simp
  split at h
  · split at h <;> cases h <;> simp
  split at h
  · unfold stringLexeme at h
    split at h <;> cases h
    simp
  iterate 3
    split at h
    · unfold variableLexeme at h
      split at h
      · split at h <;> cases h
        simp
      · cases h
  split at h
  · split at h <;> cases h
    simp [numberLexeme]
  split at h
  · rename_i hd
    cases h
    simp [numberLexeme, hd]
  split at h
  · rename_i hw
    cases h
    simp [isWordPart_of_isWordStart hw]
  · cases h

theorem length_rest_lt {c : Char} {cs : List Char} {l : Lexeme} (h : lexeme c cs = .ok l) :
    l.rest.length < (c :: cs).length := by
  have := List.length_pos_iff.2 (lexeme_spelling_ne_nil h)
  rw [← lexeme_append h, List.length_append]
  omega

/-- The tokens of the text that starts at `p`, each with its place. The last one is `finish`. -/
def tokensFrom (p : Position) (cs : List Char) : Except SourceError (List Placed) :=
  match _hs : splitGap false cs with
  | (gap, []) => .ok [⟨.finish, p.after gap⟩]
  | (gap, c :: rest) =>
    let place := p.after gap
    match _hl : lexeme c rest with
    | .error f => .error ⟨.lexical f.fault, f.place place⟩
    | .ok l => (tokensFrom (place.after l.spelling) l.rest).map (⟨l.token, place⟩ :: ·)
termination_by cs.length
decreasing_by
  have h1 := length_splitGap_le false cs
  have h2 := length_rest_lt _hl
  simp only [_hs] at h1
  omega

def tokens (text : String) : Except SourceError (List Placed) :=
  tokensFrom Position.start text.toList

end TaskNetwork.Source
