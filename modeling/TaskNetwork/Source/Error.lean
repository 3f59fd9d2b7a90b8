import TaskNetwork.Source.Token
import TaskNetwork.World

/-! Errors in domain and world text. -/

namespace TaskNetwork.Source

/-- Why a text has no tokens. -/
inductive LexicalFault where
  /-- A `+`, `!` or `?` without a name after it. -/
  | missingName (sign : Char)
  /-- A `-` without a digit after it. -/
  | missingDigit
  | unknownEscape (c : Char)
  | unterminatedString
  | unexpectedCharacter (c : Char)
deriving DecidableEq

def LexicalFault.message : LexicalFault → String
  | missingName sign => s!"expected a variable name after `{sign}`"
  | missingDigit => "expected a digit after `-`"
  | unknownEscape c => s!"unknown escape `\\{c}`"
  | unterminatedString => "unterminated string literal"
  | unexpectedCharacter c => s!"unexpected character `{c}`"

/-- What the grammar calls for at some place. -/
inductive Wanted where
  | mark (p : Punctuation)
  | keyword (name : String)
  | declaration
  /-- One of the words that start a declaration. -/
  | declarationKeyword
  | groupName
  | group
  | constantName
  | axiomName
  | methodName
  | branchLabel
  | condition
  | taskName
  | literal
  | factName
deriving DecidableEq

def Wanted.describe : Wanted → String
  | mark p => s!"`{p.spelling}`"
  | keyword name => s!"`{name}`"
  | declaration => "a declaration"
  | declarationKeyword => "`constants`, `axiom`, `method` or `top method`"
  | groupName => "a constants group name"
  | group => "a constants group"
  | constantName => "a constant name"
  | axiomName => "an axiom name"
  | methodName => "a method name"
  | branchLabel => "a branch label"
  | condition => "a condition"
  | taskName => "a task name"
  | literal => "a literal"
  | factName => "a fact name"

/-- Why tokens follow no grammar. -/
inductive GrammarFault where
  | unexpected (wanted : Wanted) (found : Token)
  | wildcardLiteral (name : String)
  /-- The world takes no such fact. -/
  | refusedFact (name : String) (cause : InsertError)

def GrammarFault.message : GrammarFault → String
  | unexpected wanted found => s!"expected {wanted.describe}, found {found.describe}"
  | wildcardLiteral name => s!"wildcard `{name}` is not a literal"
  | refusedFact name cause => s!"fact `{name}`: {cause.message}"

inductive Fault where
  | lexical (fault : LexicalFault)
  | grammatical (fault : GrammarFault)

def Fault.message : Fault → String
  | lexical fault => s!"lexical error: {fault.message}"
  | grammatical fault => s!"syntax error: {fault.message}"

structure SourceError where
  fault : Fault
  place : Position

def SourceError.message (e : SourceError) : String :=
  s!"{e.place.line}:{e.place.column}: {e.fault.message}"

end TaskNetwork.Source
