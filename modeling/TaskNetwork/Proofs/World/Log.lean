import TaskNetwork.Proofs.World.Matching
import Mathlib.Data.Finset.Card
import Mathlib.Order.Interval.Finset.Nat

/-! A world after any insertions, some of them refused. It holds the accepted ones in their order
and nothing else, whatever facts and arities they were mixed of, and its counter has counted
them. -/

namespace TaskNetwork

/-- The first argument that is not ground is at `position`. -/
def Row.FirstUnbound (args : Row) (position : Nat) : Prop :=
  (∃ v, args[position]? = some v ∧ v.isGround = false) ∧
    ∀ i < position, ∀ v, args[i]? = some v → v.isGround = true

theorem Row.firstUnbound_iff {args : Row} {position : Nat} :
    args.findIdx? (!·.isGround) = some position ↔ args.FirstUnbound position := by
  rw [List.findIdx?_eq_some_iff_getElem, FirstUnbound]
  constructor
  · rintro ⟨hlt, hfound, hbefore⟩
    refine ⟨⟨args[position], List.getElem?_eq_getElem hlt, by simpa using hfound⟩, ?_⟩
    intro i hi v hv
    obtain ⟨_, rfl⟩ := List.getElem?_eq_some_iff.mp hv
    simpa using hbefore i hi
  · rintro ⟨⟨v, hv, hunbound⟩, hbefore⟩
    obtain ⟨hlt, rfl⟩ := List.getElem?_eq_some_iff.mp hv
    refine ⟨hlt, by simpa using hunbound, fun i hi => ?_⟩
    simpa using hbefore i hi _ (List.getElem?_eq_getElem (by omega))

namespace World

/-- An entry that the world takes: it is no wider than facts are, and ground. -/
def Entry.Accepted (e : Entry) : Prop :=
  e.args.length ≤ maxArity ∧ ∀ v ∈ e.args, v.isGround = true

instance : DecidablePred Entry.Accepted := fun _ => inferInstanceAs (Decidable (_ ∧ _))

variable {w w' : World} {e : Entry} {entries : List Entry} {fact : Symbol} {args : Row}

/-- An insertion that is refused leaves the world as it is. The width is looked at first, and then
the arguments from left to right. -/
theorem append_eq_error_iff {cause : InsertError} : append fact args w = .error cause w' ↔
    w' = w ∧ (maxArity < args.length ∧ cause = .arityOutOfRange args.length ∨
      args.length ≤ maxArity ∧
        ∃ position, args.FirstUnbound position ∧ cause = .unboundArgument position) := by
  rw [append_eq]
  split
  · next hwide => simp [hwide, Nat.not_le_of_lt hwide, eq_comm, and_comm]
  · next hwide =>
    have hnarrow : args.length ≤ maxArity := Nat.le_of_not_lt hwide
    simp only [← Row.firstUnbound_iff]
    cases hposition : args.findIdx? (!·.isGround) with
    | none => simp [hwide]
    | some position => simp [hwide, hnarrow, eq_comm, and_comm]

theorem insert_iff_accepted :
    (∃ w', w.insert e.fact e.args = .ok w') ↔ e.Accepted := by
  simp only [insert_eq_ok_iff]
  exact ⟨fun ⟨_, harity, hground, _⟩ => ⟨harity, hground⟩,
    fun ⟨harity, hground⟩ => ⟨_, harity, hground, rfl⟩⟩

theorem attempt_of_insert (h : w.insert e.fact e.args = .ok w') : w.attempt e = w' := by
  unfold insert at h
  unfold attempt
  cases hresult : append e.fact e.args w with
  | ok u w₁ =>
    rw [hresult] at h
    cases h
    rfl
  | error cause w₁ =>
    rw [hresult] at h
    cases h

theorem attempt_of_not_accepted (h : ¬e.Accepted) : w.attempt e = w := by
  unfold attempt
  cases hresult : append e.fact e.args w with
  | ok u w' =>
    have hinsert : w.insert e.fact e.args = .ok w' := by rw [insert, hresult]
    exact absurd (insert_iff_accepted.mp ⟨w', hinsert⟩) h
  | error cause w' => exact (append_eq_error_iff.mp hresult).1

/-- The refused entries play no part. -/
theorem insertAll_accepted (w : World) (entries : List Entry) :
    w.insertAll (entries.filter Entry.Accepted) = .ok (w.attemptAll entries) := by
  induction entries generalizing w with
  | nil => rfl
  | cons e entries ih =>
    rw [attemptAll, List.foldl_cons]
    by_cases haccepted : e.Accepted
    · obtain ⟨w', hw'⟩ := insert_iff_accepted.mpr haccepted
      rw [List.filter_cons_of_pos (by simpa using haccepted), insertAll_cons_of_ok hw',
        attempt_of_insert hw']
      exact ih w'
    · rw [List.filter_cons_of_neg (by simpa using haccepted), attempt_of_not_accepted haccepted]
      exact ih w

theorem size_insert (h : w.insert fact args = .ok w') : w'.size = w.size + 1 := by
  obtain ⟨-, -, rfl⟩ := insert_eq_ok_iff.mp h
  rfl

theorem size_insertAll (h : w.insertAll entries = .ok w') : w'.size = w.size + entries.length := by
  induction entries generalizing w with
  | nil => cases h; rfl
  | cons e entries ih =>
    obtain ⟨w₁, hfirst, hothers⟩ := exists_of_insertAll_cons h
    rw [ih hothers, size_insert hfirst, List.length_cons]
    omega

/-- The tables behind the first are those of the arities above 0. -/
theorem tableCount_eq_countP (w : World) (fact : Symbol) : w.tableCount fact =
    (List.range maxArity).countP fun k => !(w.rows fact (k + 1)).isEmpty := by
  have hrows (k : Nat) (hk : k < maxArity) :
      w.rows fact (k + 1) = ((w.tables.get? fact).getD .empty).rows[k + 1] :=
    rows_eq w fact (Nat.succ_lt_succ hk)
  unfold tableCount
  cases htables : w.tables.get? fact with
  | none =>
    symm
    rw [List.countP_eq_zero]
    intro k hk
    rw [hrows k (List.mem_range.mp hk), htables]
    simp
  | some t =>
    have hdrop : t.rows.toList.drop 1 =
        (List.range maxArity).map fun k => w.rows fact (k + 1) := by
      refine List.ext_getElem (by simp) fun k hk _ => ?_
      have hlt : k < maxArity := by simpa using hk
      simp [hrows k hlt, htables]
    show (t.rows.toList.drop 1).countP _ = _
    rw [hdrop, List.countP_map]
    rfl

/-- The arities above 0 at which a fact has a row are counted, each once. -/
theorem tableCount_eq (w : World) (fact : Symbol) : w.tableCount fact =
    ((Finset.Icc 1 maxArity).filter fun arity => (w.rows fact arity).isEmpty = false).card := by
  obtain ⟨below, hbelow⟩ : ∃ below : List Nat,
      (List.range maxArity).filter (fun k => !(w.rows fact (k + 1)).isEmpty) = below := ⟨_, rfl⟩
  have hmem (k : Nat) : k ∈ below ↔ k < maxArity ∧ (w.rows fact (k + 1)).isEmpty = false := by
    simp [← hbelow]
  have harities : ((Finset.Icc 1 maxArity).filter fun arity =>
      (w.rows fact arity).isEmpty = false) = (below.map (· + 1)).toFinset := by
    ext arity
    rw [Finset.mem_filter, Finset.mem_Icc, List.mem_toFinset, List.mem_map]
    constructor
    · rintro ⟨⟨hpos, hle⟩, hrows⟩
      obtain ⟨k, rfl⟩ := Nat.exists_eq_add_of_le' hpos
      exact ⟨k, (hmem k).mpr ⟨by omega, hrows⟩, rfl⟩
    · rintro ⟨k, hk, rfl⟩
      obtain ⟨hlt, hrows⟩ := (hmem k).mp hk
      exact ⟨⟨by omega, by omega⟩, hrows⟩
  have hdistinct : (below.map (· + 1)).Nodup :=
    (hbelow ▸ List.nodup_range.filter _).map (add_left_injective 1)
  rw [harities, List.toFinset_card_of_nodup hdistinct, List.length_map, ← hbelow,
    ← List.countP_eq_length_filter, tableCount_eq_countP]

/-- The rows of a table are as wide as its arity and no wider than facts are, and ground. -/
def Sound (w : World) : Prop :=
  ∀ fact arity, ∀ row ∈ (w.rows fact arity).toList,
    row.length = arity ∧ arity ≤ maxArity ∧ ∀ v ∈ row, v.isGround = true

theorem sound_of_insertAll (h : empty.insertAll entries = .ok w) : w.Sound := by
  intro fact arity row hrow
  obtain ⟨hlength, hentry⟩ := (lists_of_insertAll h).exists_mem hrow
  obtain ⟨harity, hground⟩ := accepted_of_insertAll h hentry
  exact ⟨hlength, hlength ▸ harity, hground⟩

/-- A world that was empty is the log of the insertions that it accepted. What is refused leaves it
as it is, each table has its rows in the order of their insertion, all rows are counted, and a match
tells whether a row agrees with the buffer, which it fills only then. -/
theorem attemptAll_eq_log (entries : List Entry) :
    let w := empty.attemptAll entries
    let log := entries.filter Entry.Accepted
    (∀ (e : Entry) (cause : InsertError) (w' : World),
      append e.fact e.args w = .error cause w' ↔ w' = w ∧
        (maxArity < e.args.length ∧ cause = .arityOutOfRange e.args.length ∨
          e.args.length ≤ maxArity ∧
            ∃ position, e.args.FirstUnbound position ∧ cause = .unboundArgument position)) ∧
    (∀ fact arity, (w.rows fact arity).toList =
      (log.filter fun e => e.fact = fact ∧ e.args.length = arity).map (·.args)) ∧
    (∀ fact arity, ∀ row ∈ (w.rows fact arity).toList,
      row.length = arity ∧ arity ≤ maxArity ∧ ∀ v ∈ row, v.isGround = true) ∧
    w.size = log.length ∧
    (∀ fact arity, w.numRows fact arity = (w.rows fact arity).size) ∧
    (∀ fact, w.tableCount fact =
      ((Finset.Icc 1 maxArity).filter fun arity => (w.rows fact arity).isEmpty = false).card) ∧
    ∀ (fact : Symbol) (arity row : Nat) (buffer : List Value),
      let reply := (w.matchRow fact arity row).run buffer
      (reply.1 = true ↔ arity ≤ maxArity ∧ buffer.length = arity ∧ row < w.numRows fact arity ∧
        ∀ stored, (w.rows fact arity)[row]? = some stored → stored.Agrees buffer) ∧
      (reply.1 = true → ∃ stored, (w.rows fact arity)[row]? = some stored ∧
        stored.Fills buffer reply.2) ∧
      (reply.1 = false → reply.2 = buffer) := by
  intro w log
  have hlog : empty.insertAll log = .ok w := insertAll_accepted empty entries
  have hsize : w.size = 0 + log.length := size_insertAll hlog
  refine ⟨fun e cause w' => append_eq_error_iff, lists_of_insertAll hlog, sound_of_insertAll hlog,
    by omega, numRows_eq w, tableCount_eq w, fun fact arity row buffer => ⟨matchRow_iff, ?_⟩⟩
  exact matchRow_buffer

end World

end TaskNetwork
