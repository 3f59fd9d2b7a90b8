import TaskNetwork.Domain.Declaration

/-! Making a domain of declarations. The rules of a well-formed domain are checked, and the places
of clauses and methods are noted by their signatures while they are gone through. -/

namespace TaskNetwork

section Results

variable {ε α β : Type}

theorem bind_eq_ok {r : Except ε α} {f : α → Except ε β} {b : β} :
    (r >>= f) = .ok b ↔ ∃ a, r = .ok a ∧ f a = .ok b := by
  cases r <;> simp [bind, Except.bind]

theorem return_eq_ok {a b : α} : (pure a : Except ε α) = .ok b ↔ a = b := by
  simp [pure, Except.pure]

end Results

/-- Collects constants by their groups and names. None is declared twice. -/
def collectConstants (known : Assignment (Symbol × Symbol) Value) :
    List Constant → Except DeclarationError (Assignment (Symbol × Symbol) Value)
  | [] => .ok known
  | c :: cs =>
    if (known.get? (c.group, c.name)).isSome then .error (.duplicateConstant c.group c.name)
    else collectConstants (known.put (c.group, c.name) c.value) cs

/-- Notes each clause behind those of its signature. The first one stands at `place`. -/
def indexClauses (index : Assignment Signature (List Nat)) (place : Nat) :
    List Clause → Assignment Signature (List Nat)
  | [] => index
  | c :: cs =>
    indexClauses (index.update (c.name, c.arity) fun places => places.getD [] ++ [place])
      (place + 1) cs

/-- Resolves the calls in methods and notes where each stands. No two share a signature. -/
def resolveMethods (isAxiom : Symbol → Nat → Bool) (index : Assignment Signature Nat)
    (place : Nat) : List Method → Except DeclarationError (List Method × Assignment Signature Nat)
  | [] => .ok ([], index)
  | m :: ms =>
    if (index.get? (m.name, m.arity)).isSome then .error (.duplicateMethod m.name m.arity)
    else do
      let resolved ← m.resolve isAxiom
      let (others, index) ←
        resolveMethods isAxiom (index.put (m.name, m.arity) place) (place + 1) ms
      return (resolved :: others, index)

/-- Where the method to start from stands: the one without parameters that has the only marked
name. -/
def startPlace (index : Assignment Signature Nat) :
    List Symbol → Except DeclarationError (Option Nat)
  | [] => .ok none
  | [mark] =>
    match index.get? (mark, 0) with
    | some place => .ok (some place)
    | none => .error (.unknownTopLevel mark)
  | _ => .error .multipleTopLevel

namespace Domain

/-- Constants are checked first, then clauses, then each method with its branches, and the marks
last. The clauses are indexed before any call is resolved. -/
def Parts.ofDeclarations (declarations : List Declaration) : Except DeclarationError Parts := do
  let constants ← collectConstants [] (declarations.filterMap (·.constant?))
  let clauses := declarations.filterMap (·.clause?)
  let clauseIndex := indexClauses [] 0 clauses
  let isAxiom name arity := (clauseIndex.get? (name, arity)).isSome
  let clauses ← clauses.mapM (·.resolve isAxiom)
  let (methods, methodIndex) ← resolveMethods isAxiom [] 0 (declarations.filterMap (·.method?))
  let start ← startPlace methodIndex (declarations.filterMap (·.mark?))
  return { constants, clauses := clauses.toArray, methods, methodIndex, clauseIndex, start }

end Domain

section Indexes

variable {isAxiom : Symbol → Nat → Bool}

theorem get?_indexClauses (name : Symbol) (arity : Nat) (index : Assignment Signature (List Nat))
    (place : Nat) (cs : List Clause) :
    ((indexClauses index place cs).get? (name, arity)).getD [] =
      (index.get? (name, arity)).getD [] ++
        ((cs.zipIdx place).filter fun (c, _) => c.name == name && c.arity == arity).map (·.2) := by
  induction cs generalizing index place with
  | nil => simp [indexClauses]
  | cons c cs ih =>
    rw [indexClauses, ih, List.zipIdx_cons]
    by_cases hkey : (c.name, c.arity) = (name, arity)
    · obtain ⟨rfl, rfl⟩ := Prod.mk.inj hkey
      simp [Assignment.get?_update_self]
    · have hfalse : (c.name == name && c.arity == arity) = false := beq_false_of_ne hkey
      simp [Assignment.get?_update_of_ne hkey, hfalse]

theorem isSome_get?_indexClauses (name : Symbol) (arity : Nat)
    (index : Assignment Signature (List Nat)) (place : Nat) (cs : List Clause) :
    ((indexClauses index place cs).get? (name, arity)).isSome =
      ((index.get? (name, arity)).isSome ||
        cs.any fun c => c.name == name && c.arity == arity) := by
  induction cs generalizing index place with
  | nil => simp [indexClauses]
  | cons c cs ih =>
    rw [indexClauses, ih]
    by_cases hkey : (c.name, c.arity) = (name, arity)
    · obtain ⟨rfl, rfl⟩ := Prod.mk.inj hkey
      simp [Assignment.get?_update_self]
    · have hfalse : (c.name == name && c.arity == arity) = false := beq_false_of_ne hkey
      simp [Assignment.get?_update_of_ne hkey, hfalse]

theorem Clause.signature_of_resolve {c c' : Clause} (h : c.resolve isAxiom = .ok c') :
    c'.name = c.name ∧ c'.params = c.params := by
  obtain ⟨_, -, h⟩ := bind_eq_ok.mp h
  obtain rfl := return_eq_ok.mp h
  exact ⟨rfl, rfl⟩

theorem Method.signature_of_resolve {m m' : Method} (h : m.resolve isAxiom = .ok m') :
    m'.name = m.name ∧ m'.params = m.params := by
  unfold Method.resolve at h
  split at h
  · cases h
  · obtain ⟨_, -, h⟩ := bind_eq_ok.mp h
    obtain rfl := return_eq_ok.mp h
    exact ⟨rfl, rfl⟩

/-- The places of clauses depend on their signatures, which resolving does not change. -/
theorem indexClauses_of_resolve {cs cs' : List Clause} (h : cs.mapM (·.resolve isAxiom) = .ok cs')
    (index : Assignment Signature (List Nat)) (place : Nat) :
    indexClauses index place cs' = indexClauses index place cs := by
  induction cs generalizing cs' index place with
  | nil =>
    obtain rfl := return_eq_ok.mp h
    rfl
  | cons c cs ih =>
    rw [List.mapM_cons] at h
    obtain ⟨c', hc, h⟩ := bind_eq_ok.mp h
    obtain ⟨rest, hrest, h⟩ := bind_eq_ok.mp h
    obtain rfl := return_eq_ok.mp h
    obtain ⟨hname, hparams⟩ := Clause.signature_of_resolve hc
    have harity : c'.arity = c.arity := congrArg List.length hparams
    rw [indexClauses, indexClauses, hname, harity, ih hrest]

/-- A signature that is not yet noted leads to the first of the methods that has it. -/
theorem get?_of_resolveMethods {ms : List Method} {index : Assignment Signature Nat} {place : Nat}
    {resolved : List Method × Assignment Signature Nat}
    (h : resolveMethods isAxiom index place ms = .ok resolved) (name : Symbol) (arity : Nat) :
    resolved.2.get? (name, arity) = (index.get? (name, arity)).or
      ((resolved.1.findIdx? fun m => m.name == name && m.arity == arity).map (· + place)) := by
  induction ms generalizing index place resolved with
  | nil =>
    cases h
    simp
  | cons m ms ih =>
    rw [resolveMethods] at h
    split at h
    · cases h
    next hnew =>
    obtain ⟨m', hm, h⟩ := bind_eq_ok.mp h
    obtain ⟨rest, hrest, h⟩ := bind_eq_ok.mp h
    obtain rfl := return_eq_ok.mp h
    obtain ⟨hname, hparams⟩ := Method.signature_of_resolve hm
    have harity : m'.arity = m.arity := congrArg List.length hparams
    rw [ih hrest, List.findIdx?_cons, hname, harity]
    by_cases hkey : (m.name, m.arity) = (name, arity)
    · obtain ⟨rfl, rfl⟩ := Prod.mk.inj hkey
      have hnone : index.get? (m.name, m.arity) = none := by simpa using hnew
      simp [Assignment.get?_put_self, hnone]
    · have hfalse : (m.name == name && m.arity == arity) = false := beq_false_of_ne hkey
      simp [Assignment.get?_put_of_ne hkey, hfalse, Function.comp_def, Nat.add_assoc,
        Nat.add_comm 1]

end Indexes

namespace Domain

theorem Parts.indexed_of_ofDeclarations {declarations : List Declaration} {p : Parts}
    (h : Parts.ofDeclarations declarations = .ok p) : p.Indexed := by
  obtain ⟨constants, -, h⟩ := bind_eq_ok.mp h
  obtain ⟨clauses, hclauses, h⟩ := bind_eq_ok.mp h
  obtain ⟨⟨methods, index⟩, hmethods, h⟩ := bind_eq_ok.mp h
  obtain ⟨start, -, h⟩ := bind_eq_ok.mp h
  obtain rfl := return_eq_ok.mp h
  constructor
  · intro name arity
    simpa [Assignment.get?] using get?_of_resolveMethods hmethods name arity
  · intro name arity
    rw [← indexClauses_of_resolve hclauses, get?_indexClauses]
    rfl

/-- The domain of the declarations. -/
def ofDeclarations (declarations : List Declaration) : Except DeclarationError Domain :=
  match h : Parts.ofDeclarations declarations with
  | .ok parts => .ok ⟨parts, Parts.indexed_of_ofDeclarations h⟩
  | .error e => .error e

theorem ofDeclarations_eq_ok {declarations : List Declaration} {d : Domain} :
    ofDeclarations declarations = .ok d ↔ Parts.ofDeclarations declarations = .ok d.toParts := by
  obtain ⟨parts, hindexed⟩ := d
  unfold ofDeclarations
  split
  · next heq => simp [heq]
  · next heq => simp [heq]

end Domain

end TaskNetwork
