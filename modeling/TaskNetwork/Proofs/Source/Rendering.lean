import TaskNetwork.Proofs.Source.Facts
import Mathlib.Data.List.Forall2

/-! World text that is written from an accepted world reads back as the same world, unless a number
is infinite or a string has a character that strings cannot have in world text. -/

namespace TaskNetwork

open Source Decimal

open World (Entry)

open Reader (isWildcard)

theorem forall₂_of_mapM {α β : Type} {f : α → Option β} {as : List α} {bs : List β}
    (h : as.mapM f = some bs) : List.Forall₂ (fun a b => f a = some b) as bs := by
  induction as generalizing bs with
  | nil => simp_all
  | cons a as ih =>
    rw [List.mapM_cons] at h
    obtain ⟨b, hb, h⟩ := Option.bind_eq_some_iff.mp h
    obtain ⟨bs', hbs, h⟩ := Option.bind_eq_some_iff.mp h
    cases h
    exact .cons hb (ih hbs)

namespace Value

mutual

/-- No number in the value is infinite, and quoted text shows each character of the strings in it as
it is or by an escape that strings may have. -/
def isPlain : Value → Bool
  | number x => match Exact.ofFloat x with
    | .infinite _ => false
    | _ => true
  | text s => s.toList.all Text.isPlain
  | list items => allPlain items
  | _ => true

def allPlain : List Value → Bool
  | [] => true
  | v :: vs => isPlain v && allPlain vs

end

theorem allPlain_eq_all (vs : List Value) : allPlain vs = vs.all isPlain := by
  induction vs with
  | nil => rfl
  | cons v vs ih => simp [allPlain, ih]

/-- A value that text can describe. -/
inductive Spellable (names : SymbolTable) : Value → Prop
  | bool (b : Bool) : Spellable names (.bool b)
  | number {x} : Exact.ofFloat x ≠ .notANumber → Spellable names (.number x)
  | text (s : String) : Spellable names (.text s)
  | symbol {s name} : names.name? s = some name → IsWord name → name ≠ "true" → name ≠ "false" →
      isWildcard name = false → Spellable names (.symbol s)
  | list {items} : (∀ v ∈ items, Spellable names v) → Spellable names (.list items)

variable {names : SymbolTable}

theorem Spellable.isGround {v : Value} (h : v.Spellable names) : v.isGround = true := by
  induction h with
  | list _ ih => rw [Value.isGround, allGround_eq_all]; exact List.all_eq_true.mpr ih
  | _ => rfl

theorem eq_nil_of_treeAll? {vs : List Value} (h : treeAll? names vs = some []) : vs = [] := by
  rw [treeAll?_eq_mapM] at h
  cases forall₂_of_mapM h
  rfl

/-- A tree shows what the value is. -/
theorem inv_of_tree? {v : Value} {t : Tree.Literal} (h : v.tree? names = some t) : match t with
    | .bool b => v = .bool b
    | .number x => v = .number x
    | .text s => v = .text s
    | .symbol name => ∃ s, v = .symbol s ∧ names.name? s = some name
    | .list trees => ∃ items, v = .list items ∧ items.mapM (tree? names) = some trees := by
  cases v with
  | symbol s =>
    obtain ⟨name, hname, htree⟩ := Option.bind_eq_some_iff.mp h
    cases htree
    exact ⟨s, rfl, hname⟩
  | list items =>
    obtain ⟨trees, htrees, htree⟩ := Option.bind_eq_some_iff.mp h
    cases htree
    exact ⟨items, rfl, treeAll?_eq_mapM names items ▸ htrees⟩
  | _ => cases h <;> rfl

mutual

theorem spellable_of_isLiteral : (v : Value) → ∀ {t : Tree.Literal} {ts rest : List Token},
    v.tree? names = some t → IsLiteral ts rest t → (∀ k ∈ ts, k.IsSpelled) →
      v.Spellable names ∧ ∀ k ∈ rest, k.IsSpelled
  | .unbound, _, _, _, htree, _, _ => by cases htree
  | .bool b, _, _, _, htree, h, hspelled => by
    cases htree
    cases h <;> exact ⟨.bool _, (List.forall_mem_cons.mp hspelled).2⟩
  | .number x, _, _, _, htree, h, hspelled => by
    cases htree
    cases h
    exact ⟨.number ((List.forall_mem_cons.mp hspelled).1),
      (List.forall_mem_cons.mp hspelled).2⟩
  | .text s, _, _, _, htree, h, hspelled => by
    cases htree
    cases h
    exact ⟨.text s, (List.forall_mem_cons.mp hspelled).2⟩
  | .symbol s, _, _, _, htree, h, hspelled => by
    obtain ⟨name, hname, htree⟩ := Option.bind_eq_some_iff.mp htree
    cases htree
    cases h with
    | symbol hyes hno hwildcard =>
      exact ⟨.symbol hname ((List.forall_mem_cons.mp hspelled).1) hyes hno hwildcard,
        (List.forall_mem_cons.mp hspelled).2⟩
  | .list items, _, _, _, htree, h, hspelled => by
    obtain ⟨trees, htrees, htree⟩ := Option.bind_eq_some_iff.mp htree
    cases htree
    cases h with
    | list h =>
      have hspelled := (List.forall_mem_cons.mp hspelled).2
      cases h with
      | none =>
        obtain rfl := eq_nil_of_treeAll? htrees
        exact ⟨.list (by simp), (List.forall_mem_cons.mp hspelled).2⟩
      | some h =>
        obtain ⟨hitems, hrest⟩ := spellable_of_separated items htrees h hspelled
        exact ⟨.list hitems, (List.forall_mem_cons.mp hrest).2⟩

theorem spellable_of_separated : (vs : List Value) → ∀ {trees : List Tree.Literal}
    {ts rest : List Token}, treeAll? names vs = some trees → Separated IsLiteral ts rest trees →
      (∀ k ∈ ts, k.IsSpelled) → (∀ v ∈ vs, v.Spellable names) ∧ ∀ k ∈ rest, k.IsSpelled
  | [], _, _, _, htrees, h, _ => by
    cases htrees
    cases h
  | v :: vs, _, _, _, htrees, h, hspelled => by
    obtain ⟨t, ht, htrees⟩ := Option.bind_eq_some_iff.mp htrees
    obtain ⟨trees, hothers, htrees⟩ := Option.bind_eq_some_iff.mp htrees
    cases htrees
    cases h with
    | one hfirst =>
      obtain rfl := eq_nil_of_treeAll? hothers
      obtain ⟨hv, hrest⟩ := spellable_of_isLiteral v ht hfirst hspelled
      exact ⟨by simpa using hv, hrest⟩
    | more hfirst h =>
      obtain ⟨hv, hmid⟩ := spellable_of_isLiteral v ht hfirst hspelled
      obtain ⟨hvs, hrest⟩ := spellable_of_separated vs hothers h
        (List.forall_mem_cons.mp hmid).2
      exact ⟨List.forall_mem_cons.mpr ⟨hv, hvs⟩, hrest⟩

end

theorem spellable_of_listed {vs : List Value} {trees : List Tree.Literal} {ts rest : List Token}
    {close : Punctuation} (htrees : vs.mapM (tree? names) = some trees)
    (h : Listed close IsLiteral ts rest trees) (hspelled : ∀ k ∈ ts, k.IsSpelled) :
    (∀ v ∈ vs, v.Spellable names) ∧ ∀ k ∈ rest, k.IsSpelled := by
  rw [← treeAll?_eq_mapM] at htrees
  cases h with
  | none =>
    obtain rfl := eq_nil_of_treeAll? htrees
    exact ⟨by simp, (List.forall_mem_cons.mp hspelled).2⟩
  | some h =>
    obtain ⟨hvs, hrest⟩ := spellable_of_separated vs htrees h hspelled
    exact ⟨hvs, (List.forall_mem_cons.mp hrest).2⟩

end Value

/-- An entry that text can describe. -/
structure World.Entry.Spellable (names : SymbolTable) (e : Entry) : Prop where
  word : ∃ name, names.name? e.fact = some name ∧ IsWord name
  args : ∀ v ∈ e.args, v.Spellable names

section Facts

variable {names : SymbolTable} {ts rest : List Token}

theorem spellable_of_mayEnd (h : MayEnd ts rest) (hspelled : ∀ k ∈ ts, k.IsSpelled) :
    ∀ k ∈ rest, k.IsSpelled := by
  cases h with
  | absent => exact hspelled
  | present => exact (List.forall_mem_cons.mp hspelled).2

theorem spellable_of_isFact {e : Entry} {f : Tree.Fact} (he : e.tree? names = some f)
    (h : IsFact ts rest f) (hspelled : ∀ k ∈ ts, k.IsSpelled) :
    e.Spellable names ∧ ∀ k ∈ rest, k.IsSpelled := by
  obtain ⟨name, hname, he⟩ := Option.bind_eq_some_iff.mp he
  obtain ⟨trees, htrees, he⟩ := Option.bind_eq_some_iff.mp he
  cases he
  cases h with
  | applied hargs hend =>
    obtain ⟨hword, hspelled⟩ := List.forall_mem_cons.mp hspelled
    obtain ⟨hvalues, hmid⟩ :=
      Value.spellable_of_listed htrees hargs (List.forall_mem_cons.mp hspelled).2
    exact ⟨⟨⟨name, hname, hword⟩, hvalues⟩, spellable_of_mayEnd hend hmid⟩
  | bare _ hend =>
    obtain ⟨hword, hspelled⟩ := List.forall_mem_cons.mp hspelled
    have hnone : e.args = [] := List.eq_nil_of_length_eq_zero (forall₂_of_mapM htrees).length_eq
    exact ⟨⟨⟨name, hname, hword⟩, by simp [hnone]⟩, spellable_of_mayEnd hend hspelled⟩

/-- What spelled tokens describe can be spelled. -/
theorem spellable_of_areFacts {es : List Entry} {fs : List Tree.Fact}
    (hes : List.Forall₂ (fun e f => Entry.tree? names e = some f) es fs) (h : AreFacts ts fs)
    (hspelled : ∀ k ∈ ts, k.IsSpelled) : ∀ e ∈ es, e.Spellable names := by
  induction hes generalizing ts with
  | nil => simp
  | cons he _ ih =>
    cases h with
    | cons hf hfs =>
      obtain ⟨hfirst, hrest⟩ := spellable_of_isFact he hf hspelled
      exact List.forall_mem_cons.mpr ⟨hfirst, ih hfs hrest⟩

end Facts

section Agreement

variable {α β γ : Type}

/-- Lists whose items are equal as `q` says are equal if it says so of all. -/
theorem beq_of_forall₂ [BEq α] {q : α → Bool} {as bs : List α}
    (h : List.Forall₂ (fun a b => (a == b) = q b) as bs) : (as == bs) = bs.all q := by
  induction h with
  | nil => rfl
  | cons hab _ ih => rw [List.cons_beq_cons, hab, ih, List.all_cons]

/-- What the tree shows in a later table equals the value exactly if the value is plain. -/
def Value.Agrees (names : SymbolTable) (v : Value) (t : Tree.Literal) : Prop :=
  ∀ names' v', names ≤ names' → v'.tree? names' = some t → (v' == v) = v.isPlain

theorem Value.beqList_eq (vs us : List Value) : beqList vs us = (vs == us) := by
  induction vs generalizing us with
  | nil => cases us <;> rfl
  | cons v vs ih =>
    cases us with
    | nil => rfl
    | cons u us => rw [beqList, ih, List.cons_beq_cons]; rfl

theorem forall₂_comp {R : α → β → Prop} {S : γ → β → Prop} {as : List α} {bs : List β}
    {cs : List γ} (h : List.Forall₂ R as bs) (h' : List.Forall₂ S cs bs) :
    List.Forall₂ (fun a c => ∃ b, R a b ∧ S c b) as cs := by
  induction h generalizing cs with
  | nil => cases h'; exact .nil
  | cons hab _ ih =>
    cases h' with
    | cons hcb h' => exact .cons ⟨_, hab, hcb⟩ (ih h')

theorem exists_of_mem_forall₂ {R : α → β → Prop} {as : List α} {bs : List β}
    (h : List.Forall₂ R as bs) {a : α} (ha : a ∈ as) : ∃ b ∈ bs, R a b := by
  induction h with
  | nil => cases ha
  | cons hab _ ih =>
    obtain rfl | ha := List.mem_cons.mp ha
    · exact ⟨_, List.mem_cons_self, hab⟩
    · obtain ⟨b, hb, hR⟩ := ih ha
      exact ⟨b, List.mem_cons_of_mem _ hb, hR⟩

theorem Value.forall₂_of_agrees {names names' : SymbolTable} {vs vs' : List Value}
    {trees : List Tree.Literal} (h : List.Forall₂ (Value.Agrees names) vs trees)
    (hle : names ≤ names') (h' : vs'.mapM (tree? names') = some trees) :
    List.Forall₂ (fun v' v => (v' == v) = v.isPlain) vs' vs :=
  (forall₂_comp (forall₂_of_mapM h') h).imp fun _ _ ⟨_, htree, hagrees⟩ =>
    hagrees _ _ hle htree

end Agreement

section Texts

variable {β : Type}

/-- How a piece of text is read where no word goes on after it: it is cut into a phrase, and what
this describes agrees; or it is not plain, and is not cut. -/
def ReadsBack (text : List Char) (phrase : Phrase β) (agrees : β → Prop) (plain : Bool) : Prop :=
  (∃ ts b, (∀ rest, Breaks rest → Cuts (text ++ rest) ts rest) ∧
    (∀ more, phrase (ts ++ more) more b) ∧ agrees b) ∨
  plain = false ∧ ∀ rest, Breaks rest → Fails (text ++ rest)

/-- One token. -/
theorem ReadsBack.token {text : List Char} {phrase : Phrase β} {agrees : β → Prop} {plain : Bool}
    {t : Token} {b : β} (hcuts : ∀ rest, Breaks rest → Cuts (text ++ rest) [t] rest)
    (hphrase : ∀ more, phrase (t :: more) more b) (hagrees : agrees b) :
    ReadsBack text phrase agrees plain := .inl ⟨[t], b, hcuts, hphrase, hagrees⟩

theorem breaks_mark {c : Char} {p : Punctuation} (h : Punctuation.ofChar? c = some p)
    (hp : p ≠ .dot) (rest : List Char) : Breaks (c :: rest) := by
  refine breaks_cons ?_ ?_
  · cases hpart : isWordPart c with
    | false => rfl
    | true => rw [ofChar?_of_isWordPart hpart] at h; cases h
  · rintro rfl
    cases h
    exact hp rfl

section Lists

variable {α : Type} {text : α → List Char} {phrase : Phrase β} {agrees : α → β → Prop}
  {plain : α → Bool}

theorem readsBack_separated (a : α) (as : List α)
    (h : ∀ a' ∈ a :: as, ReadsBack (text a') phrase (agrees a') (plain a')) :
    ReadsBack ([',', ' '].intercalate ((a :: as).map text)) (Separated phrase)
      (List.Forall₂ agrees (a :: as)) ((a :: as).all plain) := by
  induction as generalizing a with
  | nil =>
    obtain ⟨ts, b, hcuts, hphrase, hagrees⟩ | ⟨hplain, hfails⟩ := h a List.mem_cons_self
    · refine .inl ⟨ts, [b], ?_, fun more => .one (hphrase more), .cons hagrees .nil⟩
      simpa using hcuts
    · exact .inr ⟨by simpa using hplain, by simpa using hfails⟩
  | cons a' as ih =>
    have hbreaks (rest : List Char) : Breaks (',' :: rest) := breaks_mark rfl (by decide) rest
    have hcomma (rest : List Char) : Cuts (',' :: ' ' :: rest) [.mark .comma] rest :=
      (cuts_mark rfl _).append (.blank (by decide) .done)
    rw [List.map_cons, List.map_cons, List.intercalate_cons_cons, List.all_cons]
    obtain ⟨hfirst, hothers⟩ := List.forall_mem_cons.mp h
    obtain ⟨ts, b, hcuts, hphrase, hagrees⟩ | ⟨hplain, hfails⟩ := hfirst
    · obtain ⟨ts', bs, hcuts', hphrase', hagrees'⟩ | ⟨hplain, hfails⟩ := ih a' hothers
      · refine .inl ⟨ts ++ (.mark .comma :: ts'), b :: bs, fun rest hrest => ?_, fun more => ?_,
          .cons hagrees hagrees'⟩
        · simp only [List.append_assoc]
          exact (hcuts _ (hbreaks _)).append ((hcomma _).append (hcuts' rest hrest))
        · rw [List.append_assoc]
          exact .more (hphrase _) (hphrase' more)
      · refine .inr ⟨by rw [hplain, Bool.and_false], fun rest hrest => ?_⟩
        simp only [List.append_assoc]
        exact ((hcuts _ (hbreaks _)).append (hcomma _)).fails (hfails rest hrest)
    · refine .inr ⟨by rw [hplain, Bool.false_and], fun rest _ => ?_⟩
      simp only [List.append_assoc]
      exact hfails _ (hbreaks _)

/-- A list in brackets or parentheses, without the one that opens it. -/
theorem readsBack_listed (c : Char) {close : Punctuation} (hc : Punctuation.ofChar? c = some close)
    (hclose : close ≠ .dot) (as : List α)
    (h : ∀ a ∈ as, ReadsBack (text a) phrase (agrees a) (plain a)) :
    ReadsBack ([',', ' '].intercalate (as.map text) ++ [c]) (Listed close phrase)
      (List.Forall₂ agrees as) (as.all plain) := by
  cases as with
  | nil => exact .token (fun rest _ => cuts_mark hc rest) (fun _ => .none) .nil
  | cons a as =>
    obtain ⟨ts, bs, hcuts, hphrase, hagrees⟩ | ⟨hplain, hfails⟩ := readsBack_separated a as h
    · refine .inl ⟨ts ++ [.mark close], bs, fun rest _ => ?_, fun more => ?_, hagrees⟩
      · rw [List.append_assoc]
        exact (hcuts _ (breaks_mark hc hclose rest)).append (cuts_mark hc rest)
      · rw [List.append_assoc]
        exact .some (hphrase _)
    · refine .inr ⟨hplain, fun rest _ => ?_⟩
      rw [List.append_assoc]
      exact hfails _ (breaks_mark hc hclose rest)

end Lists

section Literals

variable {names : SymbolTable}

theorem agrees_of_forall₂ {items : List Value} {trees : List Tree.Literal}
    (h : List.Forall₂ (Value.Agrees names) items trees) :
    (Value.list items).Agrees names (.list trees) := by
  intro names' v' hle htree
  obtain ⟨items', rfl, htrees⟩ := Value.inv_of_tree? htree
  have hall := beq_of_forall₂ (Value.forall₂_of_agrees h hle htrees)
  rw [Value.isPlain, Value.allPlain_eq_all, ← hall, ← Value.beqList_eq]
  rfl

theorem format_list (items : List Value) : ((Value.list items).format names).toList =
    '[' :: ([',', ' '].intercalate (items.map fun v => (v.format names).toList) ++ [']']) := by
  rw [Value.format, Value.formatAll_eq_map]
  simp [String.toList_append, String.toList_intercalate, Function.comp_def]

/-- An infinite number reads as a name, or not at all. -/
theorem readsBack_infinite {x : Float} {negative : Bool}
    (hx : Exact.ofFloat x = .infinite negative) :
    ReadsBack ((Value.number x).format names).toList IsLiteral ((Value.number x).Agrees names)
      (Value.number x).isPlain := by
  have hplain : (Value.number x).isPlain = false := by rw [Value.isPlain, hx]
  rw [Value.format, Layout.write, hx]
  cases negative with
  | true => exact .inr ⟨hplain, fun rest _ => fails_infinity rest⟩
  | false =>
    refine .token (fun _ => cuts_infinity) (fun _ => .symbol (by decide) (by decide) (by decide)) ?_
    intro names' v' _ htree
    obtain ⟨s, rfl, -⟩ := Value.inv_of_tree? htree
    exact hplain.symm

theorem readsBack_finite {x : Float} {negative : Bool} {m : Nat} {q : Int}
    (hx : Exact.ofFloat x = .finite negative m q) :
    ReadsBack ((Value.number x).format names).toList IsLiteral ((Value.number x).Agrees names)
      (Value.number x).isPlain := by
  rw [Value.format]
  refine .token (fun _ => cuts_finite hx) (fun _ => .number) fun names' v' _ htree => ?_
  obtain rfl : v' = .number (unsignedZero x) := Value.inv_of_tree? htree
  rw [Value.isPlain, hx]
  exact unsignedZero_beq hx

/-- A value is read as one that equals it, or else it is not plain. -/
theorem readsBack_literal {v : Value} (h : v.Spellable names) :
    ReadsBack (v.format names).toList IsLiteral (v.Agrees names) v.isPlain := by
  induction h with
  | bool b =>
    have hagrees : (Value.bool b).Agrees names (.bool b) := by
      intro names' v' _ htree
      obtain rfl : v' = .bool b := Value.inv_of_tree? htree
      cases b <;> rfl
    rw [Value.format]
    cases b with
    | true =>
      exact .token (fun _ => cuts_word (.of_all rfl (by decide))) (fun _ => .yes) hagrees
    | false =>
      exact .token (fun _ => cuts_word (.of_all rfl (by decide))) (fun _ => .no) hagrees
  | @number x hx =>
    cases hexact : Exact.ofFloat x with
    | notANumber => exact absurd hexact hx
    | infinite negative => exact readsBack_infinite hexact
    | finite negative m q => exact readsBack_finite hexact
  | text s =>
    rw [Value.format, Value.isPlain]
    cases hplain : s.toList.all Text.isPlain with
    | true =>
      have hcuts (rest : List Char) : Cuts ((Text.quoted s).toList ++ rest) [.text s] rest :=
        ((cuts_quoted s rest).resolve_right (by simp [hplain])).2
      refine .token (fun rest _ => hcuts rest) (fun _ => .text) fun names' v' _ htree => ?_
      obtain rfl : v' = .text s := Value.inv_of_tree? htree
      rw [Value.isPlain, hplain]
      exact beq_self_eq_true s
    | false =>
      refine .inr ⟨rfl, fun rest _ => ?_⟩
      exact ((cuts_quoted s rest).resolve_left (by simp [hplain])).2
  | @symbol s name hname hword hyes hno hwildcard =>
    have hformat : (Value.symbol s).format names = name := by
      rw [Value.format, SymbolTable.name, hname]
      rfl
    rw [hformat]
    refine .token (fun _ => cuts_word hword) (fun _ => .symbol hyes hno hwildcard)
      fun names' v' hle htree => ?_
    obtain ⟨s', rfl, hname'⟩ := Value.inv_of_tree? htree
    obtain rfl := SymbolTable.name?_inj hname' (hle s name hname)
    exact beq_self_eq_true s'
  | @list items _ ih =>
    rw [format_list]
    have hopen (rest : List Char) : Cuts ('[' :: rest) [.mark .openBracket] rest :=
      cuts_mark rfl rest
    obtain ⟨ts, trees, hcuts, hphrase, hagrees⟩ | ⟨hplain, hfails⟩ :=
      readsBack_listed ']' rfl (by decide) items ih
    · exact .inl ⟨.mark .openBracket :: ts, .list trees, fun rest hrest =>
        (hopen _).append (hcuts rest hrest), fun more => .list (hphrase more),
        agrees_of_forall₂ hagrees⟩
    · rw [← Value.allPlain_eq_all] at hplain
      exact .inr ⟨hplain, fun rest hrest => (hopen _).fails (hfails rest hrest)⟩

end Literals

section Entries

variable {names : SymbolTable} {e : Entry}

/-- What the tree shows in a later table is of the same fact, and its values equal those of the
entry exactly if these are plain. -/
def World.Entry.Agrees (names : SymbolTable) (e : Entry) (f : Tree.Fact) : Prop :=
  ∀ names' (e' : Entry), names ≤ names' → e'.tree? names' = some f →
    e'.fact = e.fact ∧ List.Forall₂ (fun v' v => (v' == v) = v.isPlain) e'.args e.args

/-- The entry on a line of its own. -/
def World.Entry.line (names : SymbolTable) (e : Entry) : String :=
  let args := if e.args.isEmpty then ""
    else "(" ++ String.intercalate ", " (e.args.map (·.format names)) ++ ")"
  names.name e.fact ++ args ++ "\n"

def World.render (names : SymbolTable) (entries : List Entry) : String :=
  String.join (entries.map (·.line names))

theorem agrees_of_args {name : String} {trees : List Tree.Literal}
    (hname : names.name? e.fact = some name)
    (h : List.Forall₂ (Value.Agrees names) e.args trees) : e.Agrees names ⟨name, trees⟩ := by
  intro names' e' hle htree
  obtain ⟨name', hname', htree⟩ := Option.bind_eq_some_iff.mp htree
  obtain ⟨trees', htrees, htree⟩ := Option.bind_eq_some_iff.mp htree
  cases htree
  exact ⟨SymbolTable.name?_inj hname' (hle _ _ hname), Value.forall₂_of_agrees h hle htrees⟩

theorem toList_line {name : String} (hname : names.name? e.fact = some name) :
    (e.line names).toList = name.toList ++ ((if e.args.isEmpty then [] else
      '(' :: ([',', ' '].intercalate (e.args.map fun v => (v.format names).toList) ++ [')'])) ++
        ['\n']) := by
  rw [Entry.line, SymbolTable.name, hname]
  split <;> simp [String.toList_append, String.toList_intercalate, Function.comp_def]

/-- A line is read as a fact that agrees with the entry, or else the entry is not plain. -/
theorem readsBack_line (h : e.Spellable names) :
    (∃ ts f, (∀ rest, Cuts ((e.line names).toList ++ rest) ts rest) ∧
      (∀ more, Stops .openParen more → IsFact (ts ++ more) more f) ∧ e.Agrees names f) ∨
    e.args.all Value.isPlain = false ∧ ∀ rest, Fails ((e.line names).toList ++ rest) := by
  obtain ⟨name, hname, hword⟩ := h.word
  have hbreaks (rest : List Char) : Breaks ('\n' :: rest) := breaks_cons (by decide) (by decide)
  have hline (rest : List Char) : Cuts ('\n' :: rest) [] rest := .blank (by decide) .done
  rw [toList_line hname]
  cases hnone : e.args.isEmpty with
  | true =>
    have hargs : e.args = [] := List.isEmpty_iff.mp hnone
    refine .inl ⟨[.word name], ⟨name, []⟩, fun rest => ?_, fun more hmore => .bare hmore .absent,
      agrees_of_args hname (hargs ▸ .nil)⟩
    rw [List.append_assoc]
    exact (cuts_word hword (hbreaks rest)).append (hline rest)
  | false =>
    have hopen (rest : List Char) : Cuts (name.toList ++ '(' :: rest)
        [.word name, .mark .openParen] rest :=
      (cuts_word hword (breaks_mark rfl (by decide) rest)).append (cuts_mark rfl rest)
    obtain ⟨ts, trees, hcuts, hphrase, hagrees⟩ | ⟨hplain, hfails⟩ :=
      readsBack_listed ')' rfl (by decide) e.args fun v hv => readsBack_literal (h.args v hv)
    · refine .inl ⟨.word name :: .mark .openParen :: ts, ⟨name, trees⟩, fun rest => ?_,
        fun more _ => .applied (hphrase more) .absent, agrees_of_args hname hagrees⟩
      rw [List.append_assoc, List.append_assoc]
      have hall := (hopen _).append ((hcuts _ (hbreaks rest)).append (hline rest))
      rwa [List.append_nil] at hall
    · refine .inr ⟨hplain, fun rest => ?_⟩
      rw [List.append_assoc, List.append_assoc]
      exact (hopen _).fails (hfails _ (hbreaks rest))

/-- A rendered world is read as facts that agree with its entries, or else an entry is not plain. -/
theorem readsBack_render {entries : List Entry} (h : ∀ e ∈ entries, e.Spellable names) :
    (∃ ts fs, Cuts (World.render names entries).toList ts [] ∧ AreFacts ts fs ∧
      List.Forall₂ (Entry.Agrees names) entries fs) ∨
    (∃ e ∈ entries, e.args.all Value.isPlain = false) ∧
      Fails (World.render names entries).toList := by
  unfold World.render
  rw [String.toList_join, List.flatMap_map]
  induction entries with
  | nil => exact .inl ⟨[], [], .done, .nil, .nil⟩
  | cons e entries ih =>
    obtain ⟨hfirst, hothers⟩ := List.forall_mem_cons.mp h
    rw [List.flatMap_cons]
    obtain ⟨ts, f, hcuts, hfact, hagrees⟩ | ⟨hplain, hfails⟩ := readsBack_line hfirst
    · obtain ⟨ts', fs, hcuts', hfacts, hagrees'⟩ | ⟨⟨e', he', hplain⟩, hfails⟩ := ih hothers
      · exact .inl ⟨ts ++ ts', f :: fs, (hcuts _).append hcuts',
          .cons (hfact ts' (Reader.stops_of_areFacts hfacts _)) hfacts, .cons hagrees hagrees'⟩
      · exact .inr ⟨⟨e', List.mem_cons_of_mem _ he', hplain⟩, (hcuts _).fails hfails⟩
    · exact .inr ⟨⟨e, List.mem_cons_self, hplain⟩, hfails _⟩

end Entries

end Texts

/-- Entries of the same facts whose values are equal exactly where they are plain make tables that
are equal exactly where they are plain. -/
theorem rows_beq {w w' : World} {entries entries' : List Entry} (hlists : w.Lists entries)
    (hlists' : w'.Lists entries') (h : List.Forall₂ (fun e' e => e'.fact = e.fact ∧
      List.Forall₂ (fun v' v => (v' == v) = v.isPlain) e'.args e.args) entries' entries)
    (fact : Symbol) (arity : Nat) : ((w'.rows fact arity).toList == (w.rows fact arity).toList) =
      (w.rows fact arity).toList.all (·.all Value.isPlain) := by
  let inTable (e : Entry) : Bool := decide (e.fact = fact ∧ e.args.length = arity)
  have hfiltered := @List.rel_filter _ _ _ inTable inTable
    (fun e' e he => by simp [inTable, he.1, he.2.length_eq]) _ _ h
  rw [hlists' fact arity, hlists fact arity]
  refine beq_of_forall₂ ?_
  rw [List.forall₂_map_left_iff, List.forall₂_map_right_iff]
  exact hfiltered.imp fun e' e he => beq_of_forall₂ he.2

/-- An accepted world is written with its facts on lines of their own, and the text is read with the
names as they were left. This makes a world with equal rows in equal order if and only if no number
is infinite and every character of every string is shown as it is or by one of the four escapes of
strings. -/
theorem World.read_render_iff {text : String} {names names' : SymbolTable} {w : World}
    (hread : World.read text names = (.ok w, names')) {entries : List Entry}
    (hlists : w.Lists entries) :
    (∃ w', (World.read (World.render names' entries) names').1 = .ok w' ∧
      ∀ fact arity, (w'.rows fact arity).toList == (w.rows fact arity).toList) ↔
    ∀ fact arity, ∀ row ∈ (w.rows fact arity).toList, ∀ v ∈ row, v.isPlain = true := by
  obtain ⟨_, _, fs, es, -, -, hspelled, hfs, hinsert, -, hes⟩ := World.entries_of_read hread
  have hspellable := spellable_of_areFacts (forall₂_of_mapM hes) hfs hspelled
  have hmem : ∀ e ∈ entries, e ∈ es := fun e he =>
    ((lists_of_insertAll hinsert).exists_mem (hlists.mem he)).2
  obtain ⟨ts, fs', hcuts, hfs', hagrees⟩ | ⟨⟨e, he, hplain⟩, hfails⟩ :=
    readsBack_render fun e he => hspellable e (hmem e he)
  · obtain ⟨placed, htokens, hts⟩ := hcuts.tokensFrom .start
    obtain ⟨es', names'', hle, hes', hread'⟩ := World.read_of_areFacts htokens hts hfs' names'
    have hes' := forall₂_of_mapM hes'
    have hsame := (forall₂_comp hes' hagrees).imp fun e' e ⟨f, htree, h⟩ => h names'' e' hle htree
    have hspelled' : ∀ k ∈ ts, k.IsSpelled := by
      obtain ⟨ts', hts', hspelled'⟩ := isSpelled_of_tokensFrom htokens
      rwa [← List.append_cancel_right (hts'.symm.trans hts)]
    have hspellable' := spellable_of_areFacts hes' hfs' hspelled'
    obtain ⟨w', hw'⟩ := insertAll_ok empty fun e' he' => by
      obtain ⟨e, he, -, hargs⟩ := exists_of_mem_forall₂ hsame he'
      refine ⟨?_, fun v hv => ((hspellable' e' he').args v hv).isGround⟩
      rw [hargs.length_eq]
      exact (accepted_of_insertAll hinsert (hmem e he)).1
    have hrows := rows_beq hlists (lists_of_insertAll hw') hsame
    rw [hread' w' hw']
    simp only [Except.ok.injEq, exists_eq_left', hrows, List.all_eq_true]
  · obtain ⟨e', htokens⟩ := hfails.tokensFrom .start
    have hnone : (World.read (World.render names' entries) names').1 = .error (.refused e') := by
      unfold World.read
      rw [tokens, htokens]
    rw [hnone]
    refine iff_of_false (fun ⟨_, h, _⟩ => by cases h) fun h => ?_
    rw [List.all_eq_true.mpr (h _ _ _ (hlists.mem he))] at hplain
    cases hplain

namespace Shed

/-- A shed holds a box with a label, and it is open. -/
def text : String := "holds(shed, [\"box \\\"A\\\"\", true])\nopen;"

def names : SymbolTable := ⟨#["shed", "holds", "open"], by decide⟩

def entries : List Entry :=
  [⟨⟨1⟩, [.symbol ⟨0⟩, .list [.text "box \"A\"", .bool true]]⟩, ⟨⟨2⟩, []⟩]

def world : World := .attemptAll .empty entries

/-- The label is a carriage return. -/
def oddText : String := "holds(shed, \"\r\")"

def oddEntries : List Entry := [⟨⟨1⟩, [.symbol ⟨0⟩, .text "\r"]⟩]

def oddNames : SymbolTable := ⟨#["shed", "holds"], by decide⟩

def oddWorld : World := .attemptAll .empty oddEntries

theorem read_text : World.read text .empty = (.ok world, names) := by cbv

theorem read_oddText : World.read oddText .empty = (.ok oddWorld, oddNames) := by cbv

theorem lists_entries : world.Lists entries := World.lists_of_insertAll rfl

theorem lists_oddEntries : oddWorld.Lists oddEntries := World.lists_of_insertAll rfl

theorem entries_plain : ∀ e ∈ entries, ∀ v ∈ e.args, v.isPlain = true := by
  simp only [entries, List.forall_mem_cons]
  exact ⟨⟨rfl, by cbv, by simp⟩, by simp, by simp⟩

theorem read_render_iff_shed :
    (∃ w, (World.read (World.render names entries) names).1 = .ok w ∧
      ∀ fact arity, (w.rows fact arity).toList == (world.rows fact arity).toList) ∧
    ¬∃ w, (World.read (World.render oddNames oddEntries) oddNames).1 = .ok w ∧
      ∀ fact arity, (w.rows fact arity).toList == (oddWorld.rows fact arity).toList := by
  refine ⟨(World.read_render_iff read_text lists_entries).mpr fun fact arity row hrow v hv => ?_,
    fun h => ?_⟩
  · exact entries_plain _ (lists_entries.exists_mem hrow).2 v hv
  · have hplain := (World.read_render_iff read_oddText lists_oddEntries).mp h ⟨1⟩ 2
      _ (lists_oddEntries.mem (List.mem_singleton.mpr rfl)) (.text "\r") (by simp)
    exact absurd hplain (by decide)

end Shed

end TaskNetwork
