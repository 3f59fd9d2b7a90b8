import TaskNetwork.Proofs.Source.Grammar

/-! How readers run. A reading has tokens left and then `finish`; a reader that ends well has read a
phrase, and otherwise it refuses the text with a fault of its grammar. -/

namespace TaskNetwork

namespace SymbolTable

/-- Later tables keep the names that earlier ones gave. -/
instance : LE SymbolTable := ⟨fun t t' => ∀ s n, t.name? s = some n → t'.name? s = some n⟩

theorem le_refl (t : SymbolTable) : t ≤ t := fun _ _ h => h

theorem le_trans {t t' t'' : SymbolTable} (h : t ≤ t') (h' : t' ≤ t'') : t ≤ t'' :=
  fun s n hn => h' s n (h s n hn)

theorem le_intern (t : SymbolTable) (name : String) : t ≤ (t.intern name).2 :=
  fun _ _ h => name?_intern_of_name? h name

/-- A symbol keeps the name that it was given for. -/
theorem name?_of_intern_le {t names : SymbolTable} {name : String} (h : (t.intern name).2 ≤ names) :
    names.name? (t.intern name).1 = some name := h _ _ (name?_intern t name)

end SymbolTable

namespace Source

variable {α β : Type}

namespace Reading

/-- The tokens `ts` are left, and then `finish`. -/
structure Left (s : Reading) (ts : List Token) : Prop where
  tokens : s.tokens.map (·.token) = ts ++ [.finish]
  inner : .finish ∉ ts
  bound : ts.length < s.size

theorem left_start {tokens : List Placed} {ts : List Token}
    (htokens : tokens.map (·.token) = ts ++ [.finish]) (hinner : .finish ∉ ts)
    (names : SymbolTable) : (Reading.start tokens names).Left ts := by
  have hlength : tokens.length = ts.length + 1 := by simpa using congrArg List.length htokens
  refine ⟨htokens, hinner, ?_⟩
  show ts.length < tokens.length
  omega

def place (s : Reading) : Position := (s.tokens.head?.map (·.place)).getD default

def next (s : Reading) : Reading := { s with tokens := s.tokens.tail }

@[simp] theorem next_draft (s : Reading) : s.next.draft = s.draft := rfl

theorem Left.next {s : Reading} {t : Token} {ts : List Token} (h : s.Left (t :: ts)) :
    s.next.Left ts := by
  refine ⟨?_, fun hmem => h.inner (List.mem_cons_of_mem _ hmem), Nat.lt_of_succ_lt h.bound⟩
  rw [Reading.next, List.map_tail, h.tokens]
  rfl

theorem Left.ne_finish {s : Reading} {t : Token} {ts : List Token} (h : s.Left (t :: ts)) :
    t ≠ .finish := by
  rintro rfl
  exact h.inner List.mem_cons_self

theorem Left.tokens_eq {s : Reading} {ts : List Token} (h : s.Left ts) :
    ∃ rest, s.tokens = ⟨ts.headD .finish, s.place⟩ :: rest := by
  have htokens := h.tokens
  unfold place
  cases hs : s.tokens with
  | nil => simp [hs] at htokens
  | cons t rest =>
    rw [hs] at htokens
    have htoken : t.token = ts.headD .finish := by
      cases ts with
      | nil => exact (List.cons.inj htokens).1
      | cons t' ts => exact (List.cons.inj htokens).1
    exact ⟨rest, by rw [← htoken]; rfl⟩

theorem Left.tokens_cons {s : Reading} {t : Token} {ts : List Token} (h : s.Left (t :: ts)) :
    s.tokens = ⟨t, s.place⟩ :: s.next.tokens := by
  obtain ⟨rest, htokens⟩ := h.tokens_eq
  rw [Reading.next, htokens]
  rfl

end Reading

/-- Of the tokens `ts` those up to `rest` were read, at least one, and names may have been given. -/
structure Passes (s : Reading) (ts rest : List Token) (s' : Reading) : Prop where
  left : s'.Left rest
  shorter : rest.length < ts.length
  symbols : s.draft.symbols ≤ s'.draft.symbols

/-- A phrase that describes `b` was read, and `a` made of it. -/
structure Reads (view : SymbolTable → α → Option β) (s : Reading) (ts rest : List Token) (b : β)
    (a : α) (s' : Reading) : Prop extends Passes s ts rest s' where
  shown : ∀ names, s'.draft.symbols ≤ names → view names a = some b

namespace Passes

variable {s s₁ s' : Reading} {t : Token} {ts mid rest : List Token}

theorem token (h : s.Left (t :: ts)) : Passes s (t :: ts) ts s.next :=
  ⟨h.next, Nat.lt_succ_self _, SymbolTable.le_refl _⟩

theorem trans (h : Passes s ts mid s₁) (h' : Passes s₁ mid rest s') : Passes s ts rest s' :=
  ⟨h'.left, Nat.lt_trans h'.shorter h.shorter, SymbolTable.le_trans h.symbols h'.symbols⟩

theorem next (h : Passes s ts (t :: rest) s') : Passes s ts rest s'.next := h.trans (token h.left)

/-- What is left may be less, as long as nothing is drafted. -/
theorem skip {s'' : Reading} (h : Passes s ts mid s') (hleft : s''.Left rest)
    (hlength : rest.length ≤ mid.length) (hdraft : s''.draft = s'.draft) : Passes s ts rest s'' :=
  ⟨hleft, Nat.lt_of_le_of_lt hlength h.shorter, by rw [hdraft]; exact h.symbols⟩

theorem cons (h : Passes s.next ts rest s') : Passes s (t :: ts) rest s' :=
  ⟨h.left, Nat.lt_succ_of_lt h.shorter, h.symbols⟩

end Passes

/-- What a list shows, item by item. -/
abbrev viewAll (view : SymbolTable → α → Option β) (names : SymbolTable) (as : List α) :
    Option (List β) := as.mapM (view names)

namespace Reads

variable {view : SymbolTable → α → Option β} {s s₁ s' : Reading} {t : Token}
  {ts mid rest : List Token} {a : α} {b : β}

theorem nil (h : Passes s ts rest s') : Reads (viewAll view) s ts rest [] [] s' :=
  ⟨h, fun _ _ => rfl⟩

theorem single (h : Reads view s ts rest b a s') : Reads (viewAll view) s ts rest [b] [a] s' :=
  ⟨h.toPasses, fun names hnames => by simp [h.shown names hnames]⟩

theorem also {as : List α} {bs : List β} (h : Reads view s ts mid b a s₁)
    (h' : Reads (viewAll view) s₁ mid rest bs as s') :
    Reads (viewAll view) s ts rest (b :: bs) (a :: as) s' := by
  refine ⟨h.toPasses.trans h'.toPasses, fun names hnames => ?_⟩
  have hfirst := h.shown names (SymbolTable.le_trans h'.symbols hnames)
  have hrest := h'.shown names hnames
  simp [hfirst, hrest]

theorem next (h : Reads view s ts (t :: rest) b a s') : Reads view s ts rest b a s'.next :=
  ⟨h.toPasses.next, h.shown⟩

end Reads

/-- Everything that was left has been read. -/
structure ReadsAll (view : SymbolTable → α → Option β) (s : Reading) (bs : List β) (as : List α)
    (s' : Reading) : Prop where
  symbols : s.draft.symbols ≤ s'.draft.symbols
  shown : ∀ names, s'.draft.symbols ≤ names → viewAll view names as = some bs

namespace ReadsAll

variable {view : SymbolTable → α → Option β} {s s₁ s' : Reading}

theorem nil : ReadsAll view s [] [] s := ⟨SymbolTable.le_refl _, fun _ _ => rfl⟩

theorem append {ts rest : List Token} {as as' : List α} {bs bs' : List β}
    (h : Reads (viewAll view) s ts rest bs as s₁) (h' : ReadsAll view s₁ bs' as' s') :
    ReadsAll view s (bs ++ bs') (as ++ as') s' := by
  refine ⟨SymbolTable.le_trans h.symbols h'.symbols, fun names hnames => ?_⟩
  have hfirst : as.mapM (view names) = some bs :=
    h.shown names (SymbolTable.le_trans h'.symbols hnames)
  have hothers : as'.mapM (view names) = some bs' := h'.shown names hnames
  simp [List.mapM_append, hfirst, hothers]

end ReadsAll

/-- A phrase was read, or the text was refused with a fault of its grammar. -/
def Ends (result : EStateM.Result ReadError Reading α) (Q : α → Reading → Prop) : Prop :=
  match result with
  | .ok a s => Q a s
  | .error e _ => ∃ fault place, e = .refused ⟨.grammatical fault, place⟩

def Succeeds (result : EStateM.Result ReadError Reading α) (Q : α → Reading → Prop) : Prop :=
  ∃ a s, result = .ok a s ∧ Q a s

section Binds

variable {σ : Type} {r : EStateM ReadError σ α} {f : α → EStateM ReadError σ β} {s s' : σ}

theorem bind_ok {a : α} (h : r s = .ok a s') : (r >>= f) s = f a s' := by
  show EStateM.bind r f s = f a s'
  rw [EStateM.bind, h]

theorem bind_error {e : ReadError} (h : r s = .error e s') : (r >>= f) s = .error e s' := by
  show EStateM.bind r f s = .error e s'
  rw [EStateM.bind, h]

end Binds

section Rules

variable {r : Reader α} {f : α → Reader β} {s s' : Reading} {Q : α → Reading → Prop}
  {Q' : β → Reading → Prop}

theorem Ends.bind (h : Ends (r s) Q) (hf : ∀ a s', Q a s' → Ends (f a s') Q') :
    Ends ((r >>= f) s) Q' := by
  cases hr : r s with
  | ok a s' =>
    rw [hr] at h
    rw [bind_ok hr]
    exact hf a s' h
  | error e s' =>
    rw [hr] at h
    rw [bind_error hr]
    exact h

theorem Ends.mono {result : EStateM.Result ReadError Reading α} {Q Q' : α → Reading → Prop}
    (h : Ends result Q) (hQ : ∀ a s, Q a s → Q' a s) : Ends result Q' := by
  cases result with
  | ok a s => exact hQ a s h
  | error e s => exact h

theorem Ends.of_ok {a : α} (h : r s = .ok a s') (hQ : Q a s') : Ends (r s) Q := by
  rw [h]
  exact hQ

theorem Ends.bind_ok {a : α} (h : r s = .ok a s') (hf : Ends (f a s') Q') :
    Ends ((r >>= f) s) Q' := by
  rwa [Source.bind_ok h]

theorem Succeeds.bind_ok {a : α} (h : r s = .ok a s') (hf : Succeeds (f a s') Q') :
    Succeeds ((r >>= f) s) Q' := by
  rwa [Source.bind_ok h]

theorem Succeeds.bind (h : Succeeds (r s) Q) (hf : ∀ a s', Q a s' → Succeeds (f a s') Q') :
    Succeeds ((r >>= f) s) Q' := by
  obtain ⟨a, s', hr, hQ⟩ := h
  exact .bind_ok hr (hf a s' hQ)

theorem Succeeds.ends {result : EStateM.Result ReadError Reading α} {Q Q' : α → Reading → Prop}
    (h : Succeeds result Q) (hQ : ∀ a s, Q a s → Q' a s) : Ends result Q' := by
  obtain ⟨a, s, rfl, ha⟩ := h
  exact hQ a s ha

theorem Succeeds.ends_bind (h : Succeeds (r s) Q) (hf : ∀ a s', Q a s' → Ends (f a s') Q') :
    Ends ((r >>= f) s) Q' := (h.ends fun _ _ hQ => hQ).bind hf

end Rules

namespace Reader

variable {s : Reading} {t : Token} {ts rest : List Token} {p : Punctuation}
  {Q : α → Reading → Prop}

section Tokens

theorem current_eq (h : s.Left ts) : current s = .ok ⟨ts.headD .finish, s.place⟩ s := by
  obtain ⟨rest, htokens⟩ := h.tokens_eq
  rw [current, htokens]

theorem advance_eq (h : s.Left (t :: ts)) : advance s = .ok ⟨t, s.place⟩ s.next := by
  rw [advance, h.tokens_cons]
  cases t with
  | finish => exact absurd rfl h.ne_finish
  | _ => rfl

theorem advance_finish (h : s.Left []) : advance s = .ok ⟨.finish, s.place⟩ s := by
  obtain ⟨rest, htokens⟩ := h.tokens_eq
  rw [advance, htokens]
  rfl

theorem ends_refuseAt (place : Position) (fault : GrammarFault) :
    Ends (refuseAt place fault s) Q := ⟨fault, place, rfl⟩

theorem ends_unexpected (h : s.Left ts) (wanted : Wanted) : Ends (unexpected wanted s) Q :=
  .bind_ok (current_eq h) (ends_refuseAt _ _)

theorem eat_eq (h : s.Left (.mark p :: ts)) : eat p s = .ok true s.next := by
  rw [eat, bind_ok (current_eq h)]
  simp only [List.headD_cons, ↓reduceIte]
  rw [bind_ok (advance_eq h)]
  rfl

theorem eat_of_ne (h : s.Left ts) (hne : Stops p ts) : eat p s = .ok false s := by
  rw [eat, bind_ok (current_eq h)]
  cases ts with
  | nil => rfl
  | cons t ts =>
    cases t with
    | mark q =>
      have hq : q ≠ p := fun h => hne (by rw [h]; rfl)
      simp only [List.headD_cons, if_neg hq]
      rfl
    | _ => rfl

theorem ends_eat (h : s.Left ts) :
    Ends (eat p s) fun eaten s' => match eaten with
      | true => ∃ rest, ts = .mark p :: rest ∧ s' = s.next
      | false => Stops p ts ∧ s' = s := by
  by_cases hhead : ts.head? = some (.mark p)
  · obtain ⟨rest, rfl⟩ := List.head?_eq_some_iff.mp hhead
    exact .of_ok (eat_eq h) ⟨rest, rfl, rfl⟩
  · exact .of_ok (eat_of_ne h hhead) ⟨hhead, rfl⟩

theorem expect_eq (h : s.Left (.mark p :: ts)) : expect p s = .ok () s.next := by
  rw [expect, bind_ok (eat_eq h)]
  rfl

theorem ends_expect (h : s.Left ts) :
    Ends (expect p s) fun _ s' => ∃ rest, ts = .mark p :: rest ∧ s' = s.next := by
  refine (ends_eat h).bind fun eaten s' heaten => ?_
  cases eaten with
  | true => exact heaten
  | false =>
    obtain ⟨-, rfl⟩ := heaten
    exact ends_unexpected h _

theorem word_eq {name : String} (h : s.Left (.word name :: ts)) (wanted : Wanted) :
    word wanted s = .ok name s.next := by
  rw [word, bind_ok (current_eq h)]
  simp only [List.headD_cons]
  rw [bind_ok (advance_eq h)]
  rfl

theorem ends_word (h : s.Left ts) (wanted : Wanted) :
    Ends (word wanted s) fun name s' => ∃ rest, ts = .word name :: rest ∧ s' = s.next := by
  match ts with
  | .word name :: rest => exact .of_ok (word_eq h wanted) ⟨rest, rfl, rfl⟩
  | [] | .inputVar _ :: _ | .outputVar _ :: _ | .inOutVar _ :: _ | .number _ :: _ | .text _ :: _
  | .mark _ :: _ | .finish :: _ => exact .bind_ok (current_eq h) (ends_unexpected h wanted)

theorem keyword_eq {name : String} (h : s.Left (.word name :: ts)) :
    keyword name s = .ok () s.next := by
  rw [keyword, bind_ok (current_eq h)]
  simp only [List.headD_cons, ↓reduceIte]
  rw [bind_ok (advance_eq h)]
  rfl

theorem ends_keyword (h : s.Left ts) (name : String) :
    Ends (keyword name s) fun _ s' => ∃ rest, ts = .word name :: rest ∧ s' = s.next := by
  match ts with
  | .word found :: rest =>
    by_cases hfound : found = name
    · subst hfound
      exact .of_ok (keyword_eq h) ⟨rest, rfl, rfl⟩
    · refine .bind_ok (current_eq h) ?_
      simp only [List.headD_cons, if_neg hfound]
      exact ends_unexpected h _
  | [] | .inputVar _ :: _ | .outputVar _ :: _ | .inOutVar _ :: _ | .number _ :: _ | .text _ :: _
  | .mark _ :: _ | .finish :: _ => exact .bind_ok (current_eq h) (ends_unexpected h _)

theorem nextIs_eq (h : s.Left (t :: .mark p :: ts)) : nextIs p s = .ok true s := by
  rw [nextIs, h.tokens_cons, h.next.tokens_cons]
  simp

theorem nextIs_of_ne (h : s.Left (t :: ts)) (hne : Stops p ts) :
    nextIs p s = .ok false s := by
  obtain ⟨rest, htokens⟩ := h.next.tokens_eq
  rw [nextIs, h.tokens_cons, htokens]
  cases ts with
  | nil => rfl
  | cons t' ts =>
    cases t' with
    | mark q =>
      have hq : q ≠ p := fun h => hne (by rw [h]; rfl)
      simp [hq]
    | _ => rfl

end Tokens

/-- The part shows `b`, also in later tables. -/
structure Drafts (view : SymbolTable → α → Option β) (part : Builder α) (d : Draft) (b : β) :
    Prop where
  symbols : d.symbols ≤ (part d).2.symbols
  shown : ∀ names, (part d).2.symbols ≤ names → view names (part d).1 = some b

/-- What is drafted at the end of a phrase. -/
theorem succeeds_draft {view : SymbolTable → α → Option β} {part : Builder α} {s' : Reading} {b : β}
    (h : Passes s ts rest s') (hpart : Drafts view part s'.draft b) :
    Succeeds (draft part s') (Reads view s ts rest b) :=
  ⟨_, _, rfl, ⟨⟨h.left.tokens, h.left.inner, h.left.bound⟩, h.shorter,
    SymbolTable.le_trans h.symbols hpart.symbols⟩, hpart.shown⟩

theorem ends_draft {view : SymbolTable → α → Option β} {phrase : Phrase β} {part : Builder α}
    {s' : Reading} {b : β} (h : Passes s ts rest s') (hpart : Drafts view part s'.draft b)
    (hb : phrase ts rest b) : Ends (draft part s') fun a s' =>
      ∃ rest b, phrase ts rest b ∧ Reads view s ts rest b a s' :=
  (succeeds_draft h hpart).ends fun _ _ hreads => ⟨rest, b, hb, hreads⟩

/-- Where less than `n` tokens are left, the reader reads phrases or refuses the text. -/
def Sound (n : Nat) (r : Reader α) (view : SymbolTable → α → Option β) (phrase : Phrase β) : Prop :=
  ∀ s ts, s.Left ts → ts.length < n →
    Ends (r s) fun a s' => ∃ rest b, phrase ts rest b ∧ Reads view s ts rest b a s'

/-- Where less than `n` tokens are left, the reader reads each phrase after which `follow` holds. -/
def Complete (n : Nat) (r : Reader α) (view : SymbolTable → α → Option β) (phrase : Phrase β)
    (follow : List Token → Prop) : Prop :=
  ∀ s ts rest b, s.Left ts → ts.length < n → phrase ts rest b → follow rest →
    Succeeds (r s) (Reads view s ts rest b)

section Lists

variable {n : Nat} {item : Reader α} {view : SymbolTable → α → Option β} {phrase : Phrase β}

theorem sound_commaList (h : Sound n item view phrase) (rounds : Nat) {s : Reading}
    {ts : List Token} (hs : s.Left ts) (hn : ts.length < n) (hrounds : ts.length < rounds) :
    Ends (commaList item rounds s) fun as s' =>
      ∃ rest bs, Separated phrase ts rest bs ∧ Reads (viewAll view) s ts rest bs as s' := by
  induction rounds generalizing s ts with
  | zero => exact absurd hrounds (Nat.not_lt_zero _)
  | succ rounds ih =>
    refine (h s ts hs hn).bind fun first s₁ ⟨mid, b, hb, hfirst⟩ => ?_
    refine (ends_eat hfirst.left).bind fun eaten s₂ heaten => ?_
    cases eaten with
    | false =>
      obtain ⟨-, rfl⟩ := heaten
      exact ⟨mid, [b], .one hb, hfirst.single⟩
    | true =>
      obtain ⟨mid, rfl, rfl⟩ := heaten
      have hmid := hfirst.shorter
      rw [List.length_cons] at hmid
      refine (ih hfirst.left.next (by omega) (by omega)).bind ?_
      rintro others s' ⟨rest, bs, hbs, hothers⟩
      exact ⟨rest, b :: bs, .more hb hbs, hfirst.next.also hothers⟩

theorem complete_commaList {follow : List Token → Prop} (h : Complete n item view phrase follow)
    (hcomma : ∀ rest, follow (.mark .comma :: rest)) (rounds : Nat) {s : Reading}
    {ts rest : List Token} {bs : List β} (hs : s.Left ts) (hn : ts.length < n)
    (hrounds : ts.length < rounds) (hbs : Separated phrase ts rest bs) (hfollow : follow rest)
    (hstops : Stops .comma rest) :
    Succeeds (commaList item rounds s) (Reads (viewAll view) s ts rest bs) := by
  induction rounds generalizing s ts bs with
  | zero => exact absurd hrounds (Nat.not_lt_zero _)
  | succ rounds ih =>
    cases hbs with
    | one hb =>
      refine (h s ts rest _ hs hn hb hfollow).bind fun first s₁ hfirst => ?_
      exact .bind_ok (eat_of_ne hfirst.left hstops) ⟨_, _, rfl, hfirst.single⟩
    | more hb hbs =>
      refine (h s ts _ _ hs hn hb (hcomma _)).bind fun first s₁ hfirst => ?_
      refine .bind_ok (eat_eq hfirst.left) ?_
      have hmid := hfirst.shorter
      rw [List.length_cons] at hmid
      refine (ih hfirst.left.next (by omega) (by omega) hbs).bind fun others s' hothers => ?_
      exact ⟨_, _, rfl, hfirst.next.also hothers⟩

theorem sound_separated (h : Sound n item view phrase) :
    Sound n (bounded (commaList item)) (viewAll view) (Separated phrase) :=
  fun s _ hs hn => sound_commaList h s.size hs hn hs.bound

theorem complete_separated {follow : List Token → Prop} (h : Complete n item view phrase follow)
    (hcomma : ∀ rest, follow (.mark .comma :: rest)) :
    Complete n (bounded (commaList item)) (viewAll view) (Separated phrase)
      fun rest => follow rest ∧ Stops .comma rest :=
  fun s _ _ _ hs hn hbs hfollow =>
    complete_commaList h hcomma s.size hs hn hs.bound hbs hfollow.1 hfollow.2

theorem sound_listUntil (close : Punctuation) (h : Sound n item view phrase) :
    Sound n (listUntil close item) (viewAll view) (Listed close phrase) := by
  intro s ts hs hn
  refine (ends_eat hs).bind fun eaten s₁ heaten => ?_
  cases eaten with
  | true =>
    obtain ⟨rest, rfl, rfl⟩ := heaten
    exact ⟨rest, [], .none, .nil (.token hs)⟩
  | false =>
    obtain ⟨-, rfl⟩ := heaten
    refine (sound_separated h s₁ ts hs hn).bind fun as s₂ ⟨mid, bs, hbs, has⟩ => ?_
    refine (ends_expect has.left).bind fun _ s₃ ⟨rest, hmid, hs₃⟩ => ?_
    subst hmid hs₃
    exact ⟨rest, bs, .some hbs, has.next⟩

theorem complete_listUntil (close : Punctuation) {follow : List Token → Prop}
    (h : Complete n item view phrase follow) (hcomma : ∀ rest, follow (.mark .comma :: rest))
    (hclose : close ≠ .comma) (hfollow : ∀ rest, follow (.mark close :: rest))
    (hstarts : ∀ ts rest b, phrase ts rest b → Stops close ts) :
    Complete n (listUntil close item) (viewAll view) (Listed close phrase) fun _ => True := by
  intro s ts rest bs hs hn hbs _
  cases hbs with
  | none => exact .bind_ok (eat_eq hs) ⟨_, _, rfl, .nil (.token hs)⟩
  | some hbs =>
    have hstops : Stops close ts := by
      cases hbs with
      | one hb | more hb => exact hstarts _ _ _ hb
    refine .bind_ok (eat_of_ne hs hstops) ?_
    refine (complete_separated h hcomma s ts _ bs hs hn hbs ⟨hfollow _, ?_⟩).bind
      fun as s₁ has => ?_
    · simpa [Stops] using hclose
    · exact .bind_ok (expect_eq has.left) ⟨_, _, rfl, has.next⟩

theorem sound_itemsUntil (close : Punctuation) (h : Sound n item view phrase) (rounds : Nat)
    {s : Reading} {ts : List Token} (hs : s.Left ts) (hn : ts.length < n)
    (hrounds : ts.length < rounds) : Ends (itemsUntil close item rounds s) fun as s' =>
      ∃ rest bs, Repeated close phrase ts rest bs ∧ Reads (viewAll view) s ts rest bs as s' := by
  induction rounds generalizing s ts with
  | zero => exact absurd hrounds (Nat.not_lt_zero _)
  | succ rounds ih =>
    refine (ends_eat hs).bind fun eaten s₁ heaten => ?_
    cases eaten with
    | true =>
      obtain ⟨rest, rfl, rfl⟩ := heaten
      exact ⟨rest, [], .done, .nil (.token hs)⟩
    | false =>
      obtain ⟨-, rfl⟩ := heaten
      refine (h s₁ ts hs hn).bind fun first s₂ ⟨mid, b, hb, hfirst⟩ => ?_
      have hmid := hfirst.shorter
      refine (ih hfirst.left (by omega) (by omega)).bind ?_
      rintro others s' ⟨rest, bs, hbs, hothers⟩
      exact ⟨rest, b :: bs, .more hb hbs, hfirst.also hothers⟩

theorem complete_itemsUntil {close : Punctuation} {follow : List Token → Prop}
    (h : Complete n item view phrase follow)
    (hstarts : ∀ ts rest b, phrase ts rest b → Stops close ts)
    (hfollow : ∀ ts rest bs, Repeated close phrase ts rest bs → follow ts) (rounds : Nat)
    {s : Reading} {ts rest : List Token} {bs : List β} (hs : s.Left ts) (hn : ts.length < n)
    (hrounds : ts.length < rounds) (hbs : Repeated close phrase ts rest bs) :
    Succeeds (itemsUntil close item rounds s) (Reads (viewAll view) s ts rest bs) := by
  induction rounds generalizing s ts bs with
  | zero => exact absurd hrounds (Nat.not_lt_zero _)
  | succ rounds ih =>
    cases hbs with
    | done => exact .bind_ok (eat_eq hs) ⟨_, _, rfl, .nil (.token hs)⟩
    | more hb hbs =>
      refine .bind_ok (eat_of_ne hs (hstarts _ _ _ hb)) ?_
      refine (h s ts _ _ hs hn hb (hfollow _ _ _ hbs)).bind fun first s₁ hfirst => ?_
      have hmid := hfirst.shorter
      refine (ih hfirst.left (by omega) (by omega) hbs).bind fun others s' hothers => ?_
      exact ⟨_, _, rfl, hfirst.also hothers⟩

theorem sound_repeated (close : Punctuation) (h : Sound n item view phrase) :
    Sound n (bounded (itemsUntil close item)) (viewAll view) (Repeated close phrase) :=
  fun s _ hs hn => sound_itemsUntil close h s.size hs hn hs.bound

theorem complete_repeated (close : Punctuation) {follow : List Token → Prop}
    (h : Complete n item view phrase follow)
    (hstarts : ∀ ts rest b, phrase ts rest b → Stops close ts)
    (hfollow : ∀ ts rest bs, Repeated close phrase ts rest bs → follow ts) :
    Complete n (bounded (itemsUntil close item)) (viewAll view) (Repeated close phrase)
      fun _ => True :=
  fun s _ _ _ hs hn hbs _ => complete_itemsUntil h hstarts hfollow s.size hs hn hs.bound hbs

end Lists

end Reader

end Source

end TaskNetwork
