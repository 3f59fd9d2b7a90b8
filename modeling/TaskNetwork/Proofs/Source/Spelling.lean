import TaskNetwork.Proofs.Source.Cutting

/-! How tokens are spelled. A lexeme spells its token, and no longer piece of the text at its place
spells any token. So the tokens of a text are those that can be spelled again. -/

namespace TaskNetwork.Source

/-- The escapes of a string: the character after the backslash and the one that it stands for. -/
def escapes : List (Char × Char) := [('"', '"'), ('\\', '\\'), ('n', '\n'), ('t', '\t')]

/-- What stands between quotation marks, and the string that it is for. -/
inductive Writes : List Char → List Char → Prop
  | nil : Writes [] []
  | shown {c written value} : c ≠ '"' → c ≠ '\\' → Writes written value →
      Writes (c :: written) (c :: value)
  | escaped {e c written value} : (e, c) ∈ escapes → Writes written value →
      Writes ('\\' :: e :: written) (c :: value)

/-- The minus of a number, or nothing. -/
def signOf (negative : Bool) : List Char := if negative then ['-'] else []

/-- The point of a number and the digits after it, or nothing. -/
def pointOf (fraction : List Char) : List Char :=
  if fraction.isEmpty then [] else '.' :: fraction

@[simp]
theorem pointOf_nil : pointOf [] = [] := rfl

@[simp]
theorem pointOf_cons (d : Char) (ds : List Char) : pointOf (d :: ds) = '.' :: d :: ds := rfl

/-- The characters spell the token. -/
inductive Spells : List Char → Token → Prop
  | word {name} : IsWord name → Spells name.toList (.word name)
  | inputVar {name} : IsWord name → Spells ('+' :: name.toList) (.inputVar name)
  | outputVar {name} : IsWord name → Spells ('!' :: name.toList) (.outputVar name)
  | inOutVar {name} : IsWord name → Spells ('?' :: name.toList) (.inOutVar name)
  | number {negative whole fraction} : whole ≠ [] → (∀ c ∈ whole ++ fraction, c.isDigit) →
      Spells (signOf negative ++ whole ++ pointOf fraction)
        (.number (Decimal.ofParts negative whole fraction 0))
  | text {written s} : Writes written s.toList → Spells ('"' :: (written ++ ['"'])) (.text s)
  | mark (p : Punctuation) : Spells p.spelling.toList (.mark p)

theorem Spells.ne_finish {spelling : List Char} {t : Token} (h : Spells spelling t) :
    t ≠ .finish := by
  rintro rfl
  cases h

theorem unescape?_eq_some_iff {e c : Char} : unescape? e = some c ↔ (e, c) ∈ escapes := by
  constructor
  · intro h
    unfold unescape? at h
    split at h <;> cases h <;> decide
  · simp only [escapes, List.mem_cons, Prod.mk.injEq, List.not_mem_nil, or_false]
    rintro (⟨rfl, rfl⟩ | ⟨rfl, rfl⟩ | ⟨rfl, rfl⟩ | ⟨rfl, rfl⟩) <;> rfl

section Sound

variable {c : Char} {cs : List Char} {l : Lexeme}

theorem writes_of_stringTail {value spelling rest : List Char}
    (h : stringTail cs = .closed value spelling rest) :
    ∃ written, spelling = written ++ ['"'] ∧ Writes written value := by
  fun_induction stringTail cs generalizing value spelling rest with
  | case1 | case3 | case5 => cases h
  | case2 => cases h; exact ⟨[], rfl, .nil⟩
  | case4 e _ _ he ih =>
    obtain ⟨_, _, htail, rfl, rfl⟩ := StringTail.cons_eq_closed h
    obtain ⟨written, rfl, hwritten⟩ := ih htail
    exact ⟨'\\' :: e :: written, rfl, .escaped (unescape?_eq_some_iff.mp he) hwritten⟩
  | case6 c tail hquote hlast hslash ih =>
    obtain ⟨_, _, htail, rfl, rfl⟩ := StringTail.cons_eq_closed h
    obtain ⟨written, rfl, hwritten⟩ := ih htail
    have hc : c ≠ '\\' := by
      rintro rfl
      cases tail with
      | nil => exact hlast rfl rfl
      | cons d ds => exact hslash d ds rfl rfl
    exact ⟨c :: written, rfl, .shown hquote hc hwritten⟩

theorem isDigit_of_splitFraction (cs : List Char) : ∀ d ∈ (splitFraction cs).1, d.isDigit := by
  fun_cases splitFraction cs with
  | case1 d rest hd => exact List.forall_mem_cons.mpr ⟨hd, fun _ => List.mem_takeWhile_imp⟩
  | case2 | case3 => exact fun _ hd => absurd hd List.not_mem_nil

theorem spells_numberLexeme (hc : c.isDigit = true) (cs : List Char) (negative : Bool) :
    Spells (numberLexeme negative (c :: cs)).spelling (numberLexeme negative (c :: cs)).token := by
  have hdigits : ∀ d ∈ (c :: cs).takeWhile Char.isDigit ++
      (splitFraction ((c :: cs).dropWhile Char.isDigit)).1, d.isDigit :=
    List.forall_mem_append.mpr
      ⟨fun _ => List.mem_takeWhile_imp, isDigit_of_splitFraction _⟩
  exact .number (by simp [hc]) hdigits

theorem isWord_takeWhile (hc : isWordStart c = true) (cs : List Char) :
    IsWord (String.ofList ((c :: cs).takeWhile isWordPart)) := by
  refine ⟨c, cs.takeWhile isWordPart, ?_, hc, fun d hd => List.mem_takeWhile_imp hd⟩
  rw [String.toList_ofList, List.takeWhile_cons_of_pos (isWordPart_of_isWordStart hc)]

theorem isWord_of_variableLexeme {sign : Char} {token : String → Token}
    (h : variableLexeme sign token cs = .ok l) :
    ∃ name, IsWord name ∧ l.spelling = sign :: name.toList ∧ l.token = token name := by
  unfold variableLexeme at h
  split at h
  · split at h
    · next hc =>
      cases h
      exact ⟨_, isWord_takeWhile hc _, by rw [String.toList_ofList], rfl⟩
    · cases h
  · cases h

theorem spelling_of_ofChar? {p : Punctuation} (h : Punctuation.ofChar? c = some p) :
    p.spelling.toList = [c] := by
  unfold Punctuation.ofChar? at h
  split at h <;> cases h <;> rfl

/-- A lexeme spells its token. -/
theorem spells_of_lexeme (h : lexeme c cs = .ok l) : Spells l.spelling l.token := by
  unfold lexeme at h
  split at h
  · next p hp =>
    cases h
    rw [← spelling_of_ofChar? hp]
    exact .mark p
  split at h
  · split at h <;> cases h
    · exact .mark .arrow
    · exact .mark .equals
  split at h
  · unfold stringLexeme at h
    split at h <;> cases h
    next htail =>
      obtain ⟨written, rfl, hwritten⟩ := writes_of_stringTail htail
      exact .text (by rwa [String.toList_ofList])
  split at h
  · next hsign =>
    obtain ⟨name, hname, hspelling, htoken⟩ := isWord_of_variableLexeme h
    rw [hspelling, htoken, hsign]
    exact .inputVar hname
  split at h
  · next hsign =>
    obtain ⟨name, hname, hspelling, htoken⟩ := isWord_of_variableLexeme h
    rw [hspelling, htoken, hsign]
    exact .outputVar hname
  split at h
  · next hsign =>
    obtain ⟨name, hname, hspelling, htoken⟩ := isWord_of_variableLexeme h
    rw [hspelling, htoken, hsign]
    exact .inOutVar hname
  split at h
  · split at h
    · next hdigit =>
      cases h
      cases cs with
      | nil => cases hdigit
      | cons d ds => exact spells_numberLexeme hdigit ds true
    · cases h
  split at h
  · next hdigit => cases h; exact spells_numberLexeme hdigit cs false
  split at h
  · next hstart =>
    cases h
    have hspells := Spells.word (isWord_takeWhile hstart cs)
    rwa [String.toList_ofList] at hspells
  · cases h

end Sound

section Longest

variable {c : Char} {cs rest : List Char} {l : Lexeme}

theorem stringTail_of_writes {written value : List Char} (h : Writes written value)
    (rest : List Char) :
    stringTail (written ++ ['"'] ++ rest) = .closed value (written ++ ['"']) rest := by
  induction h with
  | nil => simp [stringTail]
  | shown hquote hslash _ ih =>
    simp only [List.cons_append]
    rw [stringTail_shown hquote hslash, ih]
    rfl
  | escaped he _ ih =>
    simp only [List.cons_append]
    rw [stringTail_escaped (unescape?_eq_some_iff.mpr he), ih]
    rfl

theorem lexeme_quote {value spelling : List Char}
    (h : stringTail cs = .closed value spelling rest) :
    lexeme '"' cs = .ok ⟨.text (String.ofList value), '"' :: spelling, rest⟩ := by
  simp [lexeme, Punctuation.ofChar?, stringLexeme, h]

theorem IsWord.takeWhile {name : String} (h : IsWord name) (rest : List Char) :
    (name.toList ++ rest).takeWhile isWordPart = name.toList ++ rest.takeWhile isWordPart := by
  obtain ⟨c, cs, hname, hstart, hparts⟩ := h
  rw [hname, List.takeWhile_append_of_pos
    (List.forall_mem_cons.mpr ⟨isWordPart_of_isWordStart hstart, hparts⟩)]

/-- The lexeme is as long as the spelling `s` at least, which `rest` follows. If nothing does, then
it has the token `t`. -/
def Lexeme.Covers (l : Lexeme) (s : List Char) (t : Token) (rest : List Char) : Prop :=
  s.length ≤ l.spelling.length ∧ (rest = [] → l.token = t)

theorem covers_word {name : String} (h : IsWord name) (rest : List Char) :
    ∃ c cs l, name.toList ++ rest = c :: cs ∧ Begins c ∧ lexeme c cs = .ok l ∧
      l.Covers name.toList (.word name) rest := by
  have htake := h.takeWhile rest
  obtain ⟨c, cs, hname, hstart, -⟩ := h
  have hpart := isWordPart_of_isWordStart hstart
  have hlexeme := lexeme_of_isWordPart hpart (cs ++ rest)
  rw [if_neg (by simp [isDigit_of_isWordStart hstart]), if_pos hstart, ← List.cons_append, ← hname,
    htake] at hlexeme
  refine ⟨c, cs ++ rest, _, by rw [hname, List.cons_append], begins_of_isWordPart hpart, hlexeme,
    by simp, ?_⟩
  rintro rfl
  simp

theorem covers_variableLexeme {name : String} (h : IsWord name) (sign : Char)
    (token : String → Token) (rest : List Char) :
    ∃ l, variableLexeme sign token (name.toList ++ rest) = .ok l ∧
      l.Covers (sign :: name.toList) (token name) rest := by
  have htake := h.takeWhile rest
  obtain ⟨c, cs, hname, hstart, -⟩ := h
  rw [hname, List.cons_append, variableLexeme, if_pos hstart, ← List.cons_append, ← hname, htake]
  refine ⟨_, rfl, by simp, ?_⟩
  rintro rfl
  simp

theorem splitFraction_point {d : Char} {ds : List Char} (hdigits : ∀ c ∈ d :: ds, c.isDigit)
    (rest : List Char) :
    (splitFraction ('.' :: d :: (ds ++ rest))).1 = d :: ds ++ rest.takeWhile Char.isDigit := by
  obtain ⟨hd, hds⟩ := List.forall_mem_cons.mp hdigits
  rw [splitFraction, if_pos hd, List.takeWhile_append_of_pos hds]
  rfl

theorem covers_numberLexeme {whole fraction : List Char}
    (hdigits : ∀ c ∈ whole ++ fraction, c.isDigit) (negative : Bool) (rest : List Char) :
    (numberLexeme negative (whole ++ pointOf fraction ++ rest)).Covers
      (signOf negative ++ whole ++ pointOf fraction)
      (.number (Decimal.ofParts negative whole fraction 0)) rest := by
  obtain ⟨hwhole, hfraction⟩ := List.forall_mem_append.mp hdigits
  simp only [Lexeme.Covers, numberLexeme]
  cases fraction with
  | nil =>
    have htake : (whole ++ pointOf [] ++ rest).takeWhile Char.isDigit =
        whole ++ rest.takeWhile Char.isDigit := by
      rw [pointOf_nil, List.append_nil, List.takeWhile_append_of_pos hwhole]
    rw [htake]
    refine ⟨by simp [signOf], ?_⟩
    rintro rfl
    have hdrop : (whole ++ pointOf [] ++ []).dropWhile Char.isDigit = [] := by simpa using hwhole
    rw [hdrop]
    simp [splitFraction]
  | cons d ds =>
    -- The point ends the digits before it, so the lexeme has the same ones.
    have htake : (whole ++ pointOf (d :: ds) ++ rest).takeWhile Char.isDigit = whole := by
      simp [List.takeWhile_append_of_pos hwhole]
    have hdrop : (whole ++ pointOf (d :: ds) ++ rest).dropWhile Char.isDigit =
        '.' :: d :: (ds ++ rest) := by
      simp [List.dropWhile_append_of_pos hwhole]
    rw [htake, hdrop, splitFraction_point hfraction]
    refine ⟨by simp [signOf], ?_⟩
    rintro rfl
    simp

theorem covers_equals (rest : List Char) :
    ∃ l, lexeme '=' rest = .ok l ∧ l.Covers ['='] (.mark .equals) rest := by
  cases rest with
  | nil => exact ⟨_, rfl, le_rfl, fun _ => rfl⟩
  | cons d ds =>
    by_cases hd : d = '>'
    · subst hd
      exact ⟨_, rfl, Nat.le_succ 1, fun h => by cases h⟩
    · have hlexeme : lexeme '=' (d :: ds) = .ok ⟨.mark .equals, ['='], d :: ds⟩ := by
        simp [lexeme, Punctuation.ofChar?, hd]
      exact ⟨_, hlexeme, le_rfl, fun _ => rfl⟩

/-- A text that begins with a spelling has a lexeme there, which is no shorter. -/
theorem Spells.lexeme {s : List Char} {t : Token} (h : Spells s t) (rest : List Char) :
    ∃ c cs l, s ++ rest = c :: cs ∧ Begins c ∧ lexeme c cs = .ok l ∧ l.Covers s t rest := by
  cases h with
  | word hname => exact covers_word hname rest
  | inputVar hname =>
    obtain ⟨l, hl, hcovers⟩ := covers_variableLexeme hname '+' .inputVar rest
    exact ⟨'+', _, l, rfl, by decide, hl, hcovers⟩
  | outputVar hname =>
    obtain ⟨l, hl, hcovers⟩ := covers_variableLexeme hname '!' .outputVar rest
    exact ⟨'!', _, l, rfl, by decide, hl, hcovers⟩
  | inOutVar hname =>
    obtain ⟨l, hl, hcovers⟩ := covers_variableLexeme hname '?' .inOutVar rest
    exact ⟨'?', _, l, rfl, by decide, hl, hcovers⟩
  | @number negative whole fraction hwhole hdigits =>
    have hcovers := covers_numberLexeme hdigits negative rest
    obtain ⟨d, ds, rfl⟩ := List.exists_cons_of_ne_nil hwhole
    have hdigit : d.isDigit = true := hdigits d (by simp)
    cases negative with
    | false =>
      exact ⟨_, _, _, rfl, begins_of_isWordPart (isWordPart_of_isDigit hdigit),
        lexeme_digit hdigit _, hcovers⟩
    | true => exact ⟨_, _, _, rfl, by decide, lexeme_minus hdigit _, hcovers⟩
  | text hwritten =>
    exact ⟨_, _, _, rfl, by decide, lexeme_quote (stringTail_of_writes hwritten rest), le_rfl,
      fun _ => congrArg Token.text (String.ofList_toList)⟩
  | mark p =>
    cases p with
    | equals =>
      obtain ⟨l, hl, hcovers⟩ := covers_equals rest
      exact ⟨'=', rest, l, rfl, by decide, hl, hcovers⟩
    | _ => exact ⟨_, _, _, rfl, by decide, rfl, le_rfl, fun _ => rfl⟩

/-- No longer piece of the text at the place of a lexeme spells any token. -/
theorem length_le_of_lexeme (h : lexeme c cs = .ok l) {s : List Char} {t : Token}
    (hs : Spells s t) (hcs : s <+: c :: cs) : s.length ≤ l.spelling.length := by
  obtain ⟨rest, hrest⟩ := hcs
  obtain ⟨d, ds, l', hd, -, hl', hle, -⟩ := hs.lexeme rest
  obtain ⟨rfl, rfl⟩ := List.cons.inj (hrest.symm.trans hd)
  obtain rfl := Except.ok.inj (h.symm.trans hl')
  exact hle

/-- Characters spell one token at most. -/
theorem Spells.unique {s : List Char} {t t' : Token} (h : Spells s t) (h' : Spells s t') :
    t = t' := by
  obtain ⟨c, cs, l, hs, -, hl, -, ht⟩ := h.lexeme []
  obtain ⟨_, _, l', hs', -, hl', -, ht'⟩ := h'.lexeme []
  obtain ⟨rfl, rfl⟩ := List.cons.inj (hs.symm.trans hs')
  obtain rfl := Except.ok.inj (hl.symm.trans hl')
  exact (ht rfl).symm.trans (ht' rfl)

end Longest

section Tokens

/-- A token that has a spelling: a name is one word, and a number is not the mark that stands for
none. -/
def Token.IsSpelled : Token → Prop
  | .word name => IsWord name
  | .number x => Decimal.Exact.ofFloat x ≠ .notANumber
  | .finish => False
  | _ => True

theorem Spells.isSpelled {spelling : List Char} {t : Token} (h : Spells spelling t) :
    t.IsSpelled := by
  cases h with
  | word hname => exact hname
  | number => exact Decimal.ofParts_ne_notANumber _ _ _ _
  | _ => trivial

/-- The tokens of a text are spelled, up to one `finish` at the end. -/
theorem isSpelled_of_tokensFrom {p : Position} {cs : List Char} {placed : List Placed}
    (h : tokensFrom p cs = .ok placed) :
    ∃ ts, placed.map (·.token) = ts ++ [.finish] ∧ ∀ t ∈ ts, t.IsSpelled := by
  fun_induction tokensFrom p cs generalizing placed
  case case1 => cases h; exact ⟨[], rfl, by simp⟩
  case case2 => cases h
  case case3 place l hl ih =>
    cases hmore : tokensFrom (place.after l.spelling) l.rest with
    | error e => rw [hmore] at h; cases h
    | ok more =>
      rw [hmore] at h
      cases h
      obtain ⟨ts, hts, hall⟩ := ih hmore
      exact ⟨l.token :: ts, by simp [hts],
        List.forall_mem_cons.mpr ⟨(spells_of_lexeme hl).isSpelled, hall⟩⟩

end Tokens

end TaskNetwork.Source
