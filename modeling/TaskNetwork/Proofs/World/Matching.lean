import TaskNetwork.Proofs.World.Entries

/-! Matching a row. It tells whether the row agrees with the buffer wherever that is bound, and only
then fills the rest of the buffer from the row. -/

namespace TaskNetwork

namespace Row

variable {stored : Row} {query filled : List Value}

/-- The query agrees with the row wherever it is bound. -/
def Agrees (stored : Row) (query : List Value) : Prop :=
  ∀ (i : Nat) (q v : Value), query[i]? = some q → stored[i]? = some v → q.isBound = true →
    (q == v) = true

/-- Bound positions of the query stay, and the others take the value of the row. -/
def Fills (stored : Row) (query filled : List Value) : Prop :=
  filled.length = query.length ∧ ∀ (i : Nat) (q v : Value), query[i]? = some q →
    stored[i]? = some v → filled[i]? = some (if q.isBound then q else v)

theorem fits_iff : stored.fits query = true ↔ stored.Agrees query := by
  rw [fits, List.all_eq_true]
  constructor
  · intro h i q v hq hv hbound
    have hpair : (q, v) ∈ query.zip stored :=
      List.mem_of_getElem? (List.getElem?_zip_eq_some.mpr ⟨hq, hv⟩)
    simpa [hbound] using h _ hpair
  · rintro h ⟨q, v⟩ hpair
    obtain ⟨i, hi⟩ := List.mem_iff_getElem?.mp hpair
    obtain ⟨hq, hv⟩ := List.getElem?_zip_eq_some.mp hi
    cases hbound : q.isBound
    · simp [hbound]
    · simpa [hbound] using h i q v hq hv hbound

theorem length_fill (stored : Row) (query : List Value) :
    (stored.fill query).length = query.length := by
  fun_induction fill stored query with
  | case1 v stored q query ih => rw [List.length_cons, List.length_cons, ih]
  | case2 => rfl

/-- Each position is written on its own, if it is. -/
theorem getElem?_fill {i : Nat} {q v : Value} (hq : query[i]? = some q) (hv : stored[i]? = some v) :
    (stored.fill query)[i]? = some (if q.isBound then q else v) := by
  induction stored generalizing query i with
  | nil => cases hv
  | cons u stored ih =>
    cases query with
    | nil => cases hq
    | cons p query =>
      cases i with
      | zero =>
        cases hq
        cases hv
        rfl
      | succ i => exact ih hq hv

/-- What is bound stays, even behind the end of the row. -/
theorem getElem?_fill_of_bound (stored : Row) {i : Nat} {q : Value} (hq : query[i]? = some q)
    (hbound : q.isBound = true) : (stored.fill query)[i]? = some q := by
  cases hv : stored[i]? with
  | some v => rw [getElem?_fill hq hv, hbound, if_pos rfl]
  | none =>
    fun_induction fill stored query generalizing i with
    | case1 v stored p query ih =>
      cases i with
      | zero => cases hv
      | succ i => exact ih hq hv
    | case2 => exact hq

theorem fills_fill (stored : Row) (query : List Value) : stored.Fills query (stored.fill query) :=
  ⟨stored.length_fill query, fun _ _ _ => getElem?_fill⟩

/-- The values that a query takes from a row with which it agrees. -/
def fill? (stored : Row) (query : List Value) : Option (List Value) :=
  if stored.fits query then some (stored.fill query) else none

end Row

namespace World

variable {w : World} {fact : Symbol} {arity row : Nat} {query : List Value}

/-- The reply of a match and the buffer after it. -/
theorem run_matchRow (w : World) (fact : Symbol) (arity row : Nat) (query : List Value) :
    (w.matchRow fact arity row).run query =
      if maxArity < arity ∨ query.length ≠ arity then (false, query)
      else match (w.rows fact arity)[row]? with
        | none => (false, query)
        | some stored =>
          if stored.fits query then (true, stored.fill query) else (false, query) := by
  have hstored : (w.table? fact arity).bind (·[row]?) = (w.rows fact arity)[row]? := by
    rw [rows]
    cases w.table? fact arity <;> rfl
  unfold matchRow
  rw [hstored]
  show StateT.run (if maxArity < arity ∨ query.length ≠ arity then _ else _) query = _
  by_cases hguard : maxArity < arity ∨ query.length ≠ arity
  · rw [if_pos hguard, if_pos hguard]
    rfl
  · rw [if_neg hguard, if_neg hguard]
    cases (w.rows fact arity)[row]? with
    | none => rfl
    | some stored =>
      show StateT.run (if stored.fits query then _ else _) query =
        if stored.fits query then _ else _
      cases stored.fits query <;> rfl

/-- The probe of a row whose query is as wide as the row should be. -/
theorem matchRow?_eq (hlength : query.length = arity) (harity : arity ≤ maxArity) :
    w.matchRow? fact arity row query = (w.rows fact arity)[row]?.bind (·.fill? query) := by
  have hguard : ¬(maxArity < arity ∨ query.length ≠ arity) := by omega
  rw [matchRow?, run_matchRow, if_neg hguard]
  cases (w.rows fact arity)[row]? with
  | none => rfl
  | some stored =>
    dsimp only [Option.bind_some, Row.fill?]
    cases stored.fits query <;> rfl

/-- A row is matched exactly if it exists for a query of its arity and agrees with it. -/
theorem matchRow_iff : ((w.matchRow fact arity row).run query).1 = true ↔
    arity ≤ maxArity ∧ query.length = arity ∧ row < w.numRows fact arity ∧
      ∀ stored, (w.rows fact arity)[row]? = some stored → stored.Agrees query := by
  rw [run_matchRow, numRows_eq]
  by_cases hguard : maxArity < arity ∨ query.length ≠ arity
  · rw [if_pos hguard]
    refine ⟨fun h => absurd h Bool.false_ne_true, fun ⟨harity, hlength, _⟩ => ?_⟩
    omega
  rw [if_neg hguard]
  cases hrow : (w.rows fact arity)[row]? with
  | none =>
    have hlast := Array.getElem?_eq_none_iff.mp hrow
    refine ⟨fun h => absurd h Bool.false_ne_true, fun ⟨_, _, hlt, _⟩ => ?_⟩
    omega
  | some stored =>
    obtain ⟨hlt, -⟩ := Array.getElem?_eq_some_iff.mp hrow
    have hwidth : arity ≤ maxArity ∧ query.length = arity := by omega
    simp only [hwidth, hlt, Option.some.injEq, forall_eq', true_and, ← Row.fits_iff]
    cases stored.fits query <;> simp

/-- A match that fails leaves the buffer as it was, and one that succeeds fills it from the row. -/
theorem matchRow_buffer : let reply := (w.matchRow fact arity row).run query
    (reply.1 = true → ∃ stored, (w.rows fact arity)[row]? = some stored ∧
      stored.Fills query reply.2) ∧ (reply.1 = false → reply.2 = query) := by
  intro reply
  have hreply : reply = _ := run_matchRow w fact arity row query
  by_cases hguard : maxArity < arity ∨ query.length ≠ arity
  · rw [if_pos hguard] at hreply
    simp [hreply]
  rw [if_neg hguard] at hreply
  cases hrow : (w.rows fact arity)[row]? with
  | none => simp [hreply, hrow]
  | some stored =>
    cases hfits : stored.fits query with
    | false => simp [hreply, hrow, hfits]
    | true => simp [hreply, hrow, hfits, stored.fills_fill query]

end World

end TaskNetwork
