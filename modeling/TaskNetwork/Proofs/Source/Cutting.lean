import TaskNetwork.Proofs.Decimal.Reading
import TaskNetwork.Source.Lexer
import TaskNetwork.Value.Format
import Mathlib.Data.List.TakeWhile

/-! Cutting goes lexeme by lexeme: a text that begins with a spelling has the token of the spelling
before those of what follows, and a text that is not cut at some place is not cut at all. -/

namespace TaskNetwork

namespace Text

theorem exists_of_inRanges {ranges : List (Nat × Nat)} {c : Char}
    (h : inRanges ranges c = true) : ∃ r ∈ ranges, r.1 ≤ c.toNat ∧ c.toNat ≤ r.2 := by
  unfold inRanges at h
  split at h
  · next first last hfind =>
    have hlast := List.find?_some hfind
    exact ⟨_, List.mem_of_find?_eq_some hfind, of_decide_eq_true h, of_decide_eq_true hlast⟩
  · cases h

/-- A range of code points is looked through one by one. -/
theorem holds_between (p : Char → Bool) {first last : Nat}
    (h : ∀ n ∈ List.range' first (last + 1 - first), p (Char.ofNat n) = true) {c : Char}
    (hfirst : first ≤ c.toNat) (hlast : c.toNat ≤ last) : p c = true := by
  have hc := h c.toNat (List.mem_range'_1.mpr ⟨hfirst, by omega⟩)
  rwa [Char.ofNat_toNat] at hc

/-- Whether quoted text shows a character as it is or by an escape that strings may have. -/
def isPlain (c : Char) : Bool := escape c == [c] || ['"', '\\', '\n', '\t'].contains c

end Text

namespace Source

/-- A lexeme starts with `c`, if the text is to be cut there. -/
def Begins (c : Char) : Prop := Text.isBlank c = false ∧ c ≠ '#'

instance (c : Char) : Decidable (Begins c) := inferInstanceAs (Decidable (_ ∧ _))

/-- The text is cut into the tokens `ts` up to `rest`. -/
inductive Cuts : List Char → List Token → List Char → Prop
  | done {cs} : Cuts cs [] cs
  | blank {c cs ts rest} : Text.isBlank c = true → Cuts cs ts rest → Cuts (c :: cs) ts rest
  | token {c cs l ts rest} : Begins c → lexeme c cs = .ok l → Cuts l.rest ts rest →
      Cuts (c :: cs) (l.token :: ts) rest

/-- The text is cut up to a place where there is no lexeme. -/
def Fails (cs : List Char) : Prop :=
  ∃ ts c mid f, Cuts cs ts (c :: mid) ∧ Begins c ∧ lexeme c mid = .error f

section Judgement

variable {c : Char} {cs mid rest : List Char} {ts ts' : List Token} {l : Lexeme}

theorem Cuts.append (h : Cuts cs ts mid) (h' : Cuts mid ts' rest) : Cuts cs (ts ++ ts') rest := by
  induction h with
  | done => exact h'
  | blank hc _ ih => exact .blank hc (ih h')
  | token hc hl _ ih => exact .token hc hl (ih h')

theorem Cuts.one (hc : Begins c) (hl : lexeme c cs = .ok l) : Cuts (c :: cs) [l.token] l.rest :=
  .token hc hl .done

theorem Cuts.fails (h : Cuts cs ts mid) (h' : Fails mid) : Fails cs := by
  obtain ⟨ts', c, rest, f, hcuts, hc, hf⟩ := h'
  exact ⟨ts ++ ts', c, rest, f, h.append hcuts, hc, hf⟩

theorem Fails.here {f : LexemeFault} (hc : Begins c) (hf : lexeme c cs = .error f) :
    Fails (c :: cs) := ⟨[], c, cs, f, .done, hc, hf⟩

theorem splitGap_begins (hc : Begins c) (cs : List Char) :
    splitGap false (c :: cs) = ([], c :: cs) := by
  simp [splitGap, hc.1, hc.2]

theorem splitGap_blank (hc : Text.isBlank c = true) (cs : List Char) :
    splitGap false (c :: cs) = (c :: (splitGap false cs).1, (splitGap false cs).2) := by
  have hne : (c == '#') = false := by
    rw [beq_eq_false_iff_ne]
    rintro rfl
    exact absurd hc (by decide)
  rw [splitGap, hc, hne]
  rfl

theorem tokensFrom_of_gap {gap : List Char} (h : splitGap false cs = (gap, [])) (p : Position) :
    tokensFrom p cs = .ok [⟨.finish, p.after gap⟩] := by
  rw [tokensFrom]
  split <;> simp_all

theorem tokensFrom_of_splitGap {gap : List Char} (h : splitGap false cs = (gap, c :: mid))
    (p : Position) : tokensFrom p cs = match lexeme c mid with
      | .error f => .error ⟨.lexical f.fault, f.place (p.after gap)⟩
      | .ok l => (tokensFrom ((p.after gap).after l.spelling) l.rest).map
          (⟨l.token, p.after gap⟩ :: ·) := by
  rw [tokensFrom]
  split
  · simp_all
  · next hs =>
    obtain ⟨rfl, heq⟩ := Prod.mk.inj (h.symm.trans hs)
    obtain ⟨rfl, rfl⟩ := List.cons.inj heq
    dsimp only
    split <;> simp_all

theorem tokensFrom_blank (hc : Text.isBlank c = true) (p : Position) (cs : List Char) :
    tokensFrom p (c :: cs) = tokensFrom (p.next c) cs := by
  have hgap := splitGap_blank hc cs
  cases hs : splitGap false cs with
  | mk gap mid =>
    rw [hs] at hgap
    cases mid with
    | nil => rw [tokensFrom_of_gap hgap, tokensFrom_of_gap hs]; rfl
    | cons d mid => rw [tokensFrom_of_splitGap hgap, tokensFrom_of_splitGap hs]; rfl

/-- What is cut has these tokens. -/
theorem Cuts.tokensFrom (h : Cuts cs ts []) (p : Position) :
    ∃ placed, tokensFrom p cs = .ok placed ∧ placed.map (·.token) = ts ++ [.finish] := by
  generalize hend : ([] : List Char) = rest at h
  induction h generalizing p with
  | done => subst hend; exact ⟨_, tokensFrom_of_gap rfl p, rfl⟩
  | blank hc _ ih =>
    rw [tokensFrom_blank hc]
    exact ih _ hend
  | @token c cs l _ _ hc hl _ ih =>
    obtain ⟨placed, hplaced, hmap⟩ := ih ((p.after []).after l.spelling) hend
    refine ⟨⟨l.token, p⟩ :: placed, ?_, by simp [hmap]⟩
    rw [tokensFrom_of_splitGap (splitGap_begins hc cs), hl]
    dsimp only
    rw [hplaced]
    rfl

theorem Fails.tokensFrom (h : Fails cs) (p : Position) : ∃ e, tokensFrom p cs = .error e := by
  obtain ⟨ts, c, mid, f, hcuts, hc, hf⟩ := h
  generalize hend : c :: mid = rest at hcuts
  induction hcuts generalizing p with
  | done =>
    subst hend
    rw [tokensFrom_of_splitGap (splitGap_begins hc mid), hf]
    exact ⟨_, rfl⟩
  | blank hb _ ih =>
    rw [tokensFrom_blank hb]
    exact ih _ hend
  | @token _ cs l _ _ hb hl _ ih =>
    obtain ⟨e, he⟩ := ih ((p.after []).after l.spelling) hend
    rw [tokensFrom_of_splitGap (splitGap_begins hb cs), hl]
    dsimp only
    rw [he]
    exact ⟨e, rfl⟩

end Judgement

section Characters

variable {c d : Char} {rest : List Char}

/-- No blank is in a word. -/
theorem isWordPart_of_isBlank (h : Text.isBlank c = true) : isWordPart c = false := by
  have hblanks : ∀ r ∈ Text.blankRanges, ∀ n ∈ List.range' r.1 (r.2 + 1 - r.1),
      (!isWordPart (Char.ofNat n)) = true := by decide +kernel
  obtain ⟨r, hr, hfirst, hlast⟩ := Text.exists_of_inRanges h
  have hc := Text.holds_between (!isWordPart ·) (hblanks r hr) hfirst hlast
  simpa using hc

theorem ne_of_isWordPart (hc : isWordPart c = true) (hd : isWordPart d = false) : c ≠ d := by
  rintro rfl
  rw [hc] at hd
  cases hd

theorem begins_of_isWordPart (h : isWordPart c = true) : Begins c := by
  refine ⟨?_, ne_of_isWordPart h (by decide)⟩
  cases hblank : Text.isBlank c with
  | false => rfl
  | true => exact absurd rfl (ne_of_isWordPart h (isWordPart_of_isBlank hblank))

theorem ofChar?_of_isWordPart (h : isWordPart c = true) : Punctuation.ofChar? c = none := by
  fun_cases Punctuation.ofChar? c
  case case11 => rfl
  all_goals exact absurd h (by decide)

theorem isWordPart_of_isDigit (h : c.isDigit = true) : isWordPart c = true := by
  obtain ⟨hfirst, hlast⟩ := Char.isDigit_iff_toNat.mp h
  simp only [Char.reduceToNat] at hfirst hlast
  simp [isWordPart, Text.isNumeral, Text.numeralRanges, Text.inRanges, hfirst, hlast]

/-- No digit starts a word. -/
theorem isDigit_of_isWordStart (h : isWordStart c = true) : c.isDigit = false := by
  have hdigits : ∀ n ∈ List.range' '0'.toNat 10, (!isWordStart (Char.ofNat n)) = true := by decide
  cases hdigit : c.isDigit with
  | false => rfl
  | true =>
    obtain ⟨hfirst, hlast⟩ := Char.isDigit_iff_toNat.mp hdigit
    have hc := Text.holds_between (!isWordStart ·) hdigits hfirst hlast
    simp [h] at hc

/-- No word and no number goes on with what follows. -/
def Breaks (cs : List Char) : Prop := ∀ c, cs.head? = some c → isWordPart c = false ∧ c ≠ '.'

theorem breaks_cons (hc : isWordPart c = false) (hpoint : c ≠ '.') : Breaks (c :: rest) := by
  rintro _ ⟨rfl⟩
  exact ⟨hc, hpoint⟩

theorem Breaks.takeWhile {p : Char → Bool} (h : Breaks rest)
    (hp : ∀ c, p c = true → isWordPart c = true) :
    rest.takeWhile p = [] ∧ rest.dropWhile p = rest := by
  cases rest with
  | nil => exact ⟨rfl, rfl⟩
  | cons c cs =>
    have hc : ¬p c = true := fun hc => by simpa [hp c hc] using (h c rfl).1
    exact ⟨List.takeWhile_cons_of_neg hc, List.dropWhile_cons_of_neg hc⟩

end Characters

section Spellings

variable {c : Char} {cs rest : List Char}

theorem cuts_mark {p : Punctuation} (h : Punctuation.ofChar? c = some p) (rest : List Char) :
    Cuts (c :: rest) [.mark p] rest := by
  have hlexeme : lexeme c rest = .ok ⟨.mark p, [c], rest⟩ := by simp only [lexeme, h]
  have hbegins : Begins c := by
    unfold Punctuation.ofChar? at h
    split at h
    case h_11 => cases h
    all_goals decide
  exact .one hbegins hlexeme

/-- A name that a word spells. -/
def IsWord (name : String) : Prop :=
  ∃ c cs, name.toList = c :: cs ∧ isWordStart c = true ∧ ∀ d ∈ cs, isWordPart d = true

theorem IsWord.of_all {name : String} (hname : name.toList = c :: cs)
    (h : (isWordStart c && cs.all isWordPart) = true) : IsWord name := by
  rw [Bool.and_eq_true, List.all_eq_true] at h
  exact ⟨c, cs, hname, h.1, h.2⟩

/-- What may be in a word is no sign: a number starts with it, or a word, or nothing does. -/
theorem lexeme_of_isWordPart (h : isWordPart c = true) (cs : List Char) :
    lexeme c cs = if c.isDigit then .ok (numberLexeme false (c :: cs))
      else if isWordStart c then
        .ok ⟨.word (String.ofList ((c :: cs).takeWhile isWordPart)),
          (c :: cs).takeWhile isWordPart, (c :: cs).dropWhile isWordPart⟩
      else .error ⟨.unexpectedCharacter c, []⟩ := by
  have hne (d : Char) (hd : isWordPart d = false) : c ≠ d := ne_of_isWordPart h hd
  unfold lexeme
  rw [ofChar?_of_isWordPart h]
  dsimp only
  rw [if_neg (hne _ (by decide)), if_neg (hne _ (by decide)), if_neg (hne _ (by decide)),
    if_neg (hne _ (by decide)), if_neg (hne _ (by decide)), if_neg (hne _ (by decide))]

theorem cuts_word {name : String} (h : IsWord name) (hrest : Breaks rest) :
    Cuts (name.toList ++ rest) [.word name] rest := by
  obtain ⟨c, cs, hname, hstart, hparts⟩ := h
  have hall : ∀ d ∈ c :: cs, isWordPart d = true :=
    List.forall_mem_cons.mpr ⟨isWordPart_of_isWordStart hstart, hparts⟩
  obtain ⟨htake, hdrop⟩ := hrest.takeWhile fun _ hc => hc
  have hlexeme := lexeme_of_isWordPart (isWordPart_of_isWordStart hstart) (cs ++ rest)
  rw [if_neg (by simp [isDigit_of_isWordStart hstart]), if_pos hstart, ← List.cons_append,
    List.takeWhile_append_of_pos hall, htake, List.dropWhile_append_of_pos hall, hdrop,
    List.append_nil, ← hname, String.ofList_toList] at hlexeme
  rw [hname]
  exact .one (begins_of_isWordPart (isWordPart_of_isWordStart hstart)) hlexeme

theorem lexeme_digit (h : c.isDigit = true) (cs : List Char) :
    lexeme c cs = .ok (numberLexeme false (c :: cs)) := by
  rw [lexeme_of_isWordPart (isWordPart_of_isDigit h), if_pos h]

theorem lexeme_minus (h : c.isDigit = true) (cs : List Char) :
    lexeme '-' (c :: cs) = .ok (numberLexeme true (c :: cs)) := by
  simp [lexeme, Punctuation.ofChar?, h]

theorem splitFraction_of_digits {fraction : List Char} (hfraction : ∀ c ∈ fraction, c.isDigit)
    (hrest : Breaks rest) :
    splitFraction ((if fraction.isEmpty then [] else '.' :: fraction) ++ rest) =
      (fraction, rest) := by
  obtain ⟨htake, hdrop⟩ := hrest.takeWhile fun _ hc => isWordPart_of_isDigit hc
  cases fraction with
  | nil =>
    cases rest with
    | nil => rfl
    | cons c cs =>
      have hpoint := (hrest c rfl).2
      unfold splitFraction
      split
      · next heq => exact absurd (List.cons.inj heq).1 hpoint
      · rfl
  | cons d ds =>
    have hdigits := List.forall_mem_cons.mp hfraction
    simp [splitFraction, hdigits.1, List.takeWhile_append_of_pos hdigits.2,
      List.dropWhile_append_of_pos hdigits.2, htake, hdrop]

/-- A number that was written by its parts is read by them. -/
theorem numberLexeme_parts {n : Nat} {k : Int} {whole fraction : List Char}
    (hparts : Decimal.Parts cs n k whole fraction) (hrest : Breaks rest) (negative : Bool) :
    (numberLexeme negative (cs ++ rest)).token =
        .number (Decimal.ofParts negative whole fraction 0) ∧
      (numberLexeme negative (cs ++ rest)).rest = rest := by
  have hdigits := List.forall_mem_append.mp hparts.digits
  let point := if fraction.isEmpty then [] else '.' :: fraction
  have hpoint : (point ++ rest).takeWhile Char.isDigit = [] ∧
      (point ++ rest).dropWhile Char.isDigit = point ++ rest := by
    cases hfraction : fraction with
    | nil =>
      simp only [point, hfraction, List.isEmpty_nil, ↓reduceIte, List.nil_append]
      exact hrest.takeWhile fun _ hc => isWordPart_of_isDigit hc
    | cons d ds => simp [point, hfraction]
  have hwhole : (cs ++ rest).takeWhile Char.isDigit = whole ∧
      (cs ++ rest).dropWhile Char.isDigit = point ++ rest := by
    rw [hparts.text, List.append_assoc, List.takeWhile_append_of_pos hdigits.1,
      List.dropWhile_append_of_pos hdigits.1, hpoint.1, hpoint.2, List.append_nil]
    exact ⟨rfl, rfl⟩
  have hfraction := splitFraction_of_digits hdigits.2 hrest
  simp only [numberLexeme, hwhole, point, hfraction, and_self]

theorem cuts_number {n : Nat} {k : Int} {whole fraction : List Char}
    (hparts : Decimal.Parts cs n k whole fraction) (hrest : Breaks rest) (negative : Bool) :
    Cuts ((if negative then ['-'] else []) ++ cs ++ rest)
      [.number (Decimal.ofParts negative whole fraction 0)] rest := by
  obtain ⟨htoken, hleft⟩ := numberLexeme_parts hparts hrest negative
  obtain ⟨d, ds, hwhole⟩ := List.exists_cons_of_ne_nil hparts.started
  obtain ⟨tail, htail⟩ : ∃ tail, cs = d :: tail := ⟨_, by rw [hparts.text, hwhole]; rfl⟩
  have hdigit : d.isDigit = true := hparts.digits d (by simp [hwhole])
  subst htail
  cases negative with
  | false =>
    have hcuts := Cuts.one (begins_of_isWordPart (isWordPart_of_isDigit hdigit))
      (lexeme_digit hdigit (tail ++ rest))
    rwa [← List.cons_append, htoken, hleft] at hcuts
  | true =>
    have hcuts := Cuts.one (by decide) (lexeme_minus hdigit (tail ++ rest))
    rwa [← List.cons_append, htoken, hleft] at hcuts

end Spellings

section Strings

variable {c : Char} {cs rest : List Char}

/-- A plain character is escaped by itself or by an escape that strings may have. -/
theorem escape_cases (c : Char) :
    (Text.isPlain c = true ∧ Text.escape c = [c] ∧ c ≠ '"' ∧ c ≠ '\\') ∨
    (Text.isPlain c = true ∧ ∃ e, Text.escape c = ['\\', e] ∧ unescape? e = some c) ∨
    Text.isPlain c = false ∧ ∃ e more, Text.escape c = '\\' :: e :: more ∧ unescape? e = none := by
  unfold Text.isPlain Text.escape
  split
  case h_1 | h_2 | h_3 | h_4 => exact .inr (.inl ⟨by decide, _, rfl, rfl⟩)
  case h_5 | h_6 => exact .inr (.inr ⟨by decide, _, _, rfl, rfl⟩)
  case h_7 hquote hslash hline htab _ _ =>
    split
    · exact .inr (.inr ⟨by simpa using ⟨hquote, hslash, hline, htab⟩, _, _, rfl, rfl⟩)
    · exact .inl ⟨by simp, rfl, hquote, hslash⟩

theorem stringTail_shown (hquote : c ≠ '"') (hslash : c ≠ '\\') (cs : List Char) :
    stringTail (c :: cs) = (stringTail cs).cons c [c] := by
  rw [stringTail.eq_def]
  split <;> simp_all

theorem stringTail_escaped {e : Char} (h : unescape? e = some c) (cs : List Char) :
    stringTail ('\\' :: e :: cs) = (stringTail cs).cons c ['\\', e] := by
  rw [stringTail, h]

theorem stringTail_unknown {e : Char} (h : unescape? e = none) (cs : List Char) :
    stringTail ('\\' :: e :: cs) = .unknownEscape e ['\\', e] := by
  rw [stringTail, h]

/-- A quoted string is read back, or it has a character that no string may have so. -/
theorem stringTail_quoted (cs rest : List Char) :
    (cs.all Text.isPlain = true ∧
      ∃ spelling, stringTail (cs.flatMap Text.escape ++ '"' :: rest) = .closed cs spelling rest) ∨
    cs.all Text.isPlain = false ∧ ∃ e spelling,
      stringTail (cs.flatMap Text.escape ++ '"' :: rest) = .unknownEscape e spelling := by
  induction cs with
  | nil => exact .inl ⟨rfl, ['"'], by simp [stringTail]⟩
  | cons c cs ih =>
    rw [List.flatMap_cons, List.append_assoc, List.all_cons]
    generalize cs.flatMap Text.escape ++ '"' :: rest = tail at ih ⊢
    have hcons {written : List Char} (hplain : Text.isPlain c = true)
        (h : stringTail (Text.escape c ++ tail) = (stringTail tail).cons c written) :
        (Text.isPlain c && cs.all Text.isPlain) = true ∧
          (∃ spelling, stringTail (Text.escape c ++ tail) = .closed (c :: cs) spelling rest) ∨
        (Text.isPlain c && cs.all Text.isPlain) = false ∧
          ∃ e spelling, stringTail (Text.escape c ++ tail) = .unknownEscape e spelling := by
      rw [h, hplain, Bool.true_and]
      obtain ⟨hall, spelling, htail⟩ | ⟨hall, e, spelling, htail⟩ := ih
      · exact .inl ⟨hall, _, by rw [htail]; rfl⟩
      · exact .inr ⟨hall, e, _, by rw [htail]; rfl⟩
    obtain ⟨hplain, hescape, hquote, hslash⟩ | ⟨hplain, e, hescape, he⟩ |
      ⟨hplain, e, more, hescape, he⟩ := escape_cases c
    · exact hcons hplain (by rw [hescape]; exact stringTail_shown hquote hslash tail)
    · exact hcons hplain (by rw [hescape]; exact stringTail_escaped he tail)
    · refine .inr ⟨by rw [hplain, Bool.false_and], e, ['\\', e], ?_⟩
      rw [hescape]
      exact stringTail_unknown he (more ++ tail)

theorem toList_quoted (s : String) :
    (Text.quoted s).toList = '"' :: (s.toList.flatMap Text.escape ++ ['"']) := by
  rw [Text.quoted, String.toList_ofList]

/-- A quoted string is one token if all its characters are plain, and else it is not cut. -/
theorem cuts_quoted (s : String) (rest : List Char) :
    (s.toList.all Text.isPlain = true ∧ Cuts ((Text.quoted s).toList ++ rest) [.text s] rest) ∨
      s.toList.all Text.isPlain = false ∧ Fails ((Text.quoted s).toList ++ rest) := by
  have hbegins : Begins '"' := by decide
  have hlexeme (cs : List Char) : lexeme '"' cs = stringLexeme cs := by
    simp [lexeme, Punctuation.ofChar?]
  rw [toList_quoted, List.cons_append, List.append_assoc, List.singleton_append]
  obtain ⟨hplain, spelling, htail⟩ | ⟨hplain, e, spelling, htail⟩ :=
    stringTail_quoted s.toList rest
  · refine .inl ⟨hplain, ?_⟩
    have hstring := Cuts.one hbegins ((hlexeme _).trans (by rw [stringLexeme, htail]))
    rwa [String.ofList_toList] at hstring
  · exact .inr ⟨hplain, .here hbegins ((hlexeme _).trans (by rw [stringLexeme, htail]))⟩

end Strings

section Numbers

/-- A finite number is spelled by a numeral, which is read as the number without the sign of a
zero. -/
theorem cuts_finite {x : Float} {negative : Bool} {m : Nat} {q : Int}
    (hx : Decimal.Exact.ofFloat x = .finite negative m q) {rest : List Char}
    (hrest : Breaks rest) :
    Cuts ((Value.numberLayout.write x).toList ++ rest) [.number (Decimal.unsignedZero x)] rest := by
  obtain ⟨whole, fraction, n, k, hparts, hwritten, hread⟩ :=
    Decimal.write_parts Value.numberLayout rfl rfl rfl hx
  rw [hwritten, ← hread]
  exact cuts_number hparts hrest _

/-- The greater infinity is spelled by a word. -/
theorem cuts_infinity {rest : List Char} (hrest : Breaks rest) :
    Cuts ("inf".toList ++ rest) [.word "inf"] rest :=
  cuts_word (.of_all rfl (by decide)) hrest

theorem fails_infinity (rest : List Char) : Fails ("-inf".toList ++ rest) :=
  .here (by decide) rfl

end Numbers

end Source

end TaskNetwork
