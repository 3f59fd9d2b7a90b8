/-! Names and their symbols. A table gives each distinct name one symbol, numbered from 0 in the
order of first use, and gives the name of a symbol back.

Three things are guaranteed of the symbols, whatever their numbers are. The same name is always
given the same symbol (`intern_of_name?`), different names are given different symbols
(`eq_of_intern_eq`), and a symbol leads back to its name (`name?_intern`), also after further names
were given theirs (`name?_intern_of_name?`). -/

namespace TaskNetwork

/-- A name, by its number in the table that interned it. -/
structure Symbol where
  id : Nat
deriving DecidableEq, Inhabited

/-- Distinct names in the order of their first use. -/
structure SymbolTable where
  names : Array String
  distinct : names.toList.Nodup

namespace SymbolTable

def empty : SymbolTable := ⟨#[], by simp⟩

instance : Inhabited SymbolTable := ⟨empty⟩

def find? (t : SymbolTable) (name : String) : Option Symbol :=
  (t.names.idxOf? name).map Symbol.mk

/-- The name of a symbol, unless another table made it. -/
def name? (t : SymbolTable) (s : Symbol) : Option String := t.names[s.id]?

/-- The name of a symbol for display. -/
def name (t : SymbolTable) (s : Symbol) : String := (t.name? s).getD "<unknown>"

def contains (t : SymbolTable) (name : String) : Bool := (t.find? name).isSome

def size (t : SymbolTable) : Nat := t.names.size

def isEmpty (t : SymbolTable) : Bool := t.size == 0

/-- The table with `name` in it, behind all others if it is new. -/
def insert (t : SymbolTable) (name : String) : SymbolTable where
  names := if t.contains name then t.names else t.names.push name
  distinct := by
    split
    · exact t.distinct
    · next hnew =>
      have hnot : name ∉ t.names.toList := by
        simpa [contains, find?] using hnew
      simpa [List.nodup_append] using
        ⟨t.distinct, fun a ha => fun heq => hnot (heq ▸ by simpa using ha)⟩

/-- The symbol of `name`: the one it has, or the next free one. -/
def intern (t : SymbolTable) (name : String) : Symbol × SymbolTable :=
  match t.find? name with
  | some s => (s, t)
  | none => (⟨t.names.size⟩, t.insert name)

theorem name?_of_find? {t : SymbolTable} {name : String} {s : Symbol}
    (h : t.find? name = some s) : t.name? s = some name := by
  simp only [find?, Array.idxOf?, Option.map_map, Option.map_eq_some_iff] at h
  obtain ⟨i, hi, rfl⟩ := h
  simpa [name?] using (Array.finIdxOf?_eq_some_iff.1 hi).1

theorem names_insert_of_find? {t : SymbolTable} {name : String} (h : t.find? name = none) :
    (t.insert name).names = t.names.push name := by
  simp [insert, contains, h]

theorem name?_intern (t : SymbolTable) (name : String) :
    (t.intern name).2.name? (t.intern name).1 = some name := by
  unfold intern
  split
  · exact name?_of_find? ‹_›
  · next h => simp [name?, names_insert_of_find? h]

/-- Interning keeps the symbols that were given before. -/
theorem name?_intern_of_name? {t : SymbolTable} {s : Symbol} {n : String}
    (h : t.name? s = some n) (name : String) : (t.intern name).2.name? s = some n := by
  unfold intern
  split
  · exact h
  · next hnew =>
    obtain ⟨hs, hn⟩ := Array.getElem?_eq_some_iff.1 h
    simp [name?, names_insert_of_find? hnew, Array.getElem?_push, Nat.ne_of_lt hs, hs, hn]

theorem name?_inj {t : SymbolTable} {s s' : Symbol} {name : String}
    (h : t.name? s = some name) (h' : t.name? s' = some name) : s = s' := by
  obtain ⟨hs, -⟩ := Array.getElem?_eq_some_iff.mp h
  have heq : t.names.toList[s.id]? = t.names.toList[s'.id]? := by
    rw [Array.getElem?_toList, Array.getElem?_toList]
    exact h.trans h'.symm
  exact congrArg Symbol.mk ((List.getElem?_inj (by simpa using hs) t.distinct).mp heq)

theorem find?_of_name? {t : SymbolTable} {s : Symbol} {name : String}
    (h : t.name? s = some name) : t.find? name = some s := by
  cases hfind : t.find? name with
  | none =>
    have hmem : name ∈ t.names := Array.mem_of_getElem? h
    simp [find?, hmem] at hfind
  | some s' => rw [name?_inj h (name?_of_find? hfind)]

/-- A name that has a symbol is given it again. -/
theorem intern_of_name? {t : SymbolTable} {s : Symbol} {name : String}
    (h : t.name? s = some name) : t.intern name = (s, t) := by
  rw [intern, find?_of_name? h]

/-- Two names are not given the same symbol. -/
theorem eq_of_intern_eq {t : SymbolTable} {name name' : String}
    (h : ((t.intern name).2.intern name').1 = (t.intern name).1) : name' = name := by
  have hlater := name?_intern (t.intern name).2 name'
  have hfirst := name?_intern_of_name? (t.name?_intern name) name'
  rw [h, hfirst] at hlater
  exact (Option.some.inj hlater).symm

def summary (t : SymbolTable) : String :=
  "SymbolStore \x7b len: " ++ toString t.size ++ " \x7d"

end SymbolTable

end TaskNetwork
