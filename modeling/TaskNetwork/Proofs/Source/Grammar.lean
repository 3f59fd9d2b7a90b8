import TaskNetwork.Source.Domain

/-! The grammar of domain text. A phrase is told by the tokens that are there and those that are
left after it, and describes a tree: what the text says, with names in place of symbols and without
identities. -/

namespace TaskNetwork

namespace Tree

inductive Literal where
  | bool (b : Bool)
  | number (x : Float)
  | text (s : String)
  | symbol (name : String)
  | list (items : List Literal)

inductive Term where
  | literal (value : Literal)
  | var (role : Role) (name : String)
  | constant (group name : String)

structure Task where
  name : String
  args : List Term

inductive Condition where
  | fact (name : String) (args : List Term)
  | derived (name : String) (args : List Term)
  | all (children : List Condition)
  | any (children : List Condition)
  | not (child : Condition)

structure Branch where
  name : String
  condition : Option Condition
  tasks : List Task

inductive Declaration where
  | constant (group name : String) (value : Literal)
  | clause (name : String) (params : List Term) (condition : Condition)
  | method (name : String) (params : List Term) (branches : List Branch) (marked : Bool)

/-- One condition stands for itself; several make a conjunction. -/
def Condition.joined : List Condition → Condition
  | [single] => single
  | items => .all items

end Tree

section Trees

variable (names : SymbolTable)

mutual

/-- The tree of a value, if it is ground and its symbols have names. -/
def Value.tree? : Value → Option Tree.Literal
  | .unbound => none
  | .bool b => some (.bool b)
  | .number x => some (.number x)
  | .text s => some (.text s)
  | .symbol s => return .symbol (← names.name? s)
  | .list items => return .list (← Value.treeAll? items)

def Value.treeAll? : List Value → Option (List Tree.Literal)
  | [] => some []
  | v :: vs => return (← v.tree?) :: (← Value.treeAll? vs)

end

def Term.tree? : Term → Option Tree.Term
  | .literal value => return .literal (← value.tree? names)
  | .var role name => return .var role (← names.name? name)
  | .constant group name => return .constant (← names.name? group) (← names.name? name)

def Task.tree? (t : Task) : Option Tree.Task :=
  return ⟨← names.name? t.name, ← t.args.mapM (·.tree? names)⟩

mutual

def Condition.tree? : Condition → Option Tree.Condition
  | .fact _ name args => return .fact (← names.name? name) (← args.mapM (·.tree? names))
  | .derived _ name args => return .derived (← names.name? name) (← args.mapM (·.tree? names))
  | .all _ children => return .all (← Condition.treeAll? children)
  | .any _ children => return .any (← Condition.treeAll? children)
  | .not _ child => return .not (← child.tree?)

def Condition.treeAll? : List Condition → Option (List Tree.Condition)
  | [] => some []
  | c :: cs => return (← c.tree?) :: (← Condition.treeAll? cs)

end

def Branch.tree? (b : Branch) : Option Tree.Branch :=
  return ⟨← names.name? b.name, ← b.condition.mapM (·.tree? names),
    ← b.tasks.mapM (·.tree? names)⟩

def Declaration.tree? : Declaration → Option Tree.Declaration
  | .constant c =>
    return .constant (← names.name? c.group) (← names.name? c.name) (← c.value.tree? names)
  | .clause c =>
    return .clause (← names.name? c.name) (← c.params.mapM (·.tree? names))
      (← c.condition.tree? names)
  | .method m marked =>
    return .method (← names.name? m.name) (← m.params.mapM (·.tree? names))
      (← m.branches.mapM (·.tree? names)) marked

theorem Value.treeAll?_eq_mapM (vs : List Value) : treeAll? names vs = vs.mapM (·.tree? names) := by
  induction vs with
  | nil => rfl
  | cons v vs ih => rw [treeAll?, ih, List.mapM_cons]

theorem Condition.treeAll?_eq_mapM (cs : List Condition) :
    treeAll? names cs = cs.mapM (·.tree? names) := by
  induction cs with
  | nil => rfl
  | cons c cs ih => rw [treeAll?, ih, List.mapM_cons]

end Trees

namespace Source

open Reader (isWildcard)

/-- The tokens that are there, those that are left after the phrase, and what it describes. -/
abbrev Phrase (β : Type) := List Token → List Token → β → Prop

/-- The tokens do not go on with `p`. -/
def Stops (p : Punctuation) (ts : List Token) : Prop := ts.head? ≠ some (.mark p)

section Lists

variable {β : Type}

/-- One item, and one more after each comma. -/
inductive Separated (item : Phrase β) : Phrase (List β)
  | one {ts rest b} : item ts rest b → Separated item ts rest [b]
  | more {ts mid rest b bs} : item ts (.mark .comma :: mid) b → Separated item mid rest bs →
      Separated item ts rest (b :: bs)

/-- A comma list up to and including `close`; it may be empty. -/
inductive Listed (close : Punctuation) (item : Phrase β) : Phrase (List β)
  | none {rest} : Listed close item (.mark close :: rest) rest []
  | some {ts rest bs} : Separated item ts (.mark close :: rest) bs → Listed close item ts rest bs

/-- Items up to and including `close`. -/
inductive Repeated (close : Punctuation) (item : Phrase β) : Phrase (List β)
  | done {rest} : Repeated close item (.mark close :: rest) rest []
  | more {ts mid rest b bs} : item ts mid b → Repeated close item mid rest bs →
      Repeated close item ts rest (b :: bs)

/-- A semicolon that may be left out. -/
inductive MayEnd : List Token → List Token → Prop
  | absent {ts} : MayEnd ts ts
  | present {rest} : MayEnd (.mark .semicolon :: rest) rest

end Lists

inductive IsLiteral : Phrase Tree.Literal
  | number {x rest} : IsLiteral (.number x :: rest) rest (.number x)
  | text {s rest} : IsLiteral (.text s :: rest) rest (.text s)
  | yes {rest} : IsLiteral (.word "true" :: rest) rest (.bool true)
  | no {rest} : IsLiteral (.word "false" :: rest) rest (.bool false)
  | symbol {name rest} : name ≠ "true" → name ≠ "false" → isWildcard name = false →
      IsLiteral (.word name :: rest) rest (.symbol name)
  | list {ts rest items} : Listed .closeBracket IsLiteral ts rest items →
      IsLiteral (.mark .openBracket :: ts) rest (.list items)

inductive IsTerm : Phrase Tree.Term
  | input {name rest} : IsTerm (.inputVar name :: rest) rest (.var .input name)
  | output {name rest} : IsTerm (.outputVar name :: rest) rest (.var .output name)
  | inOut {name rest} : IsTerm (.inOutVar name :: rest) rest (.var .inOut name)
  | wildcard {name rest} : isWildcard name = true →
      IsTerm (.word name :: rest) rest (.var .wildcard name)
  | constant {group name rest} : isWildcard group = false →
      IsTerm (.word group :: .mark .dot :: .word name :: rest) rest (.constant group name)
  | literal {ts rest value} : IsLiteral ts rest value → IsTerm ts rest (.literal value)

/-- Terms up to and including the parenthesis after them. -/
abbrev AreTerms : Phrase (List Tree.Term) := Listed .closeParen IsTerm

inductive IsTask : Phrase Tree.Task
  | call {name ts rest args} : AreTerms ts rest args →
      IsTask (.word name :: .mark .openParen :: ts) rest ⟨name, args⟩

/-- The words `and`, `or` and `not` are connectives only before a parenthesis. -/
inductive IsCondition : Phrase Tree.Condition
  | all {ts rest cs} : Listed .closeParen IsCondition ts rest cs →
      IsCondition (.word "and" :: .mark .openParen :: ts) rest (.all cs)
  | any {ts rest cs} : Listed .closeParen IsCondition ts rest cs →
      IsCondition (.word "or" :: .mark .openParen :: ts) rest (.any cs)
  | not {ts rest cs} : Separated IsCondition ts (.mark .closeParen :: rest) cs →
      IsCondition (.word "not" :: .mark .openParen :: ts) rest (.not (.joined cs))
  | fact {name ts rest args} : name ∉ ["and", "or", "not"] → AreTerms ts rest args →
      IsCondition (.word name :: .mark .openParen :: ts) rest (.fact name args)
  | bare {name rest} : Stops .openParen rest →
      IsCondition (.word name :: rest) rest (.fact name [])

inductive IsConjunction : Phrase Tree.Condition
  | joined {ts rest cs} : Separated IsCondition ts rest cs → IsConjunction ts rest (.joined cs)

inductive IsBranch : Phrase Tree.Branch
  | always {label ts mid rest tasks} : Separated IsTask ts mid tasks → MayEnd mid rest →
      IsBranch (.word label :: .mark .colon :: .mark .arrow :: ts) rest ⟨label, none, tasks⟩
  | guarded {label cs ts mid rest condition tasks} :
      IsConjunction cs (.mark .arrow :: ts) condition → Separated IsTask ts mid tasks →
      MayEnd mid rest →
      IsBranch (.word label :: .mark .colon :: cs) rest ⟨label, some condition, tasks⟩

inductive IsConstant (group : String) : Phrase Tree.Declaration
  | equation {name ts mid rest value} : IsLiteral ts mid value → MayEnd mid rest →
      IsConstant group (.word name :: .mark .equals :: ts) rest (.constant group name value)

inductive IsMethod (marked : Bool) : Phrase (List Tree.Declaration)
  | method {name ts bs rest params branches} : AreTerms ts (.mark .openBrace :: bs) params →
      Repeated .closeBrace IsBranch bs rest branches →
      IsMethod marked (.word name :: .mark .openParen :: ts) rest
        [.method name params branches marked]

/-- One declaration; a group of constants makes several. -/
inductive IsDeclaration : Phrase (List Tree.Declaration)
  | constants {group ts rest cs} : Repeated .closeBrace (IsConstant group) ts rest cs →
      IsDeclaration (.word "constants" :: .word group :: .mark .openBrace :: ts) rest cs
  | clause {name ts cs rest params condition} : AreTerms ts (.mark .openBrace :: cs) params →
      IsConjunction cs (.mark .closeBrace :: rest) condition →
      IsDeclaration (.word "axiom" :: .word name :: .mark .openParen :: ts) rest
        [.clause name params condition]
  | method {ts rest ds} : IsMethod false ts rest ds → IsDeclaration (.word "method" :: ts) rest ds
  | marked {ts rest ds} : IsMethod true ts rest ds →
      IsDeclaration (.word "top" :: .word "method" :: ts) rest ds

/-- The tokens of a whole text and the declarations that they describe. -/
inductive AreDeclarations : List Token → List Tree.Declaration → Prop
  | nil : AreDeclarations [] []
  | cons {ts rest ds ds'} : IsDeclaration ts rest ds → AreDeclarations rest ds' →
      AreDeclarations ts (ds ++ ds')

end Source

end TaskNetwork
