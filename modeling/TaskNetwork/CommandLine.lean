import TaskNetwork.Planner
import TaskNetwork.Source.Domain
import TaskNetwork.Source.World

/-! The command line: options that name a domain file and a world file, and the answer that is
printed for them. -/

namespace TaskNetwork.CommandLine

/-- Why a command line asks for no plan. -/
inductive Usage where
  | help
  | version
  | mistake
deriving DecidableEq

def Usage.status : Usage → UInt32
  | help | version => 0
  | mistake => 1

structure Options where
  domain : String
  world : String
  goal : Option String
  json : Bool
  stats : Bool
deriving DecidableEq

structure Given where
  domain : Option String := none
  world : Option String := none
  goal : Option String := none
  json : Bool := false
  stats : Bool := false

inductive Setting where
  | domain
  | world
  | goal

namespace Given

def get (g : Given) : Setting → Option String
  | .domain => g.domain
  | .world => g.world
  | .goal => g.goal

/-- Gives an option its value. It has none yet, and the name of a file is not empty. -/
def set (g : Given) (s : Setting) (value : String) : Except Usage Given :=
  if (g.get s).isSome then .error .mistake
  else match s with
    | .goal => .ok { g with goal := some value }
    | .domain => if value.isEmpty then .error .mistake else .ok { g with domain := some value }
    | .world => if value.isEmpty then .error .mistake else .ok { g with world := some value }

def complete (g : Given) : Except Usage Options :=
  match g.domain, g.world with
  | some domain, some world => .ok { g with domain, world }
  | _, _ => .error .mistake

end Given

/-- What a word of the command line is. -/
inductive Word where
  /-- The mark after which options end. -/
  | endOfOptions
  /-- Spelled `--name` or `--name=value`. -/
  | long (name : String) (value : Option String)
  /-- Letters after one hyphen, of which the first is given. -/
  | short (letter : Char)
  | plain

def Word.ofString (s : String) : Word :=
  match s.toList with
  | ['-', '-'] => .endOfOptions
  | '-' :: '-' :: body =>
    let value := match body.dropWhile (· ≠ '=') with
      | [] => none
      | _ :: value => some (String.ofList value)
    .long (String.ofList (body.takeWhile (· ≠ '='))) value
  | '-' :: letter :: _ => .short letter
  | _ => .plain

/-- Reads words from left to right up to the first mistake or request for help. -/
def scan : List String → Given → Except Usage Given
  | [], g => .ok g
  | word :: rest, g =>
    match Word.ofString word with
    | .endOfOptions => if rest.isEmpty then .ok g else .error .mistake
    | .short 'h' => .error .help
    | .short 'V' => .error .version
    | .long "help" none => .error .help
    | .long "version" none => .error .version
    | .long "json" none =>
      if g.json then .error .mistake else scan rest { g with json := true }
    | .long "stats" none =>
      if g.stats then .error .mistake else scan rest { g with stats := true }
    | .long "domain" value => setting .domain value rest g
    | .long "world" value => setting .world value rest g
    | .long "goal" value => setting .goal value rest g
    | .long .. | .short _ | .plain => .error .mistake
where
  /-- An option whose value stands in its own word or in the next one. -/
  setting (s : Setting) (value : Option String) (rest : List String) (g : Given) :
      Except Usage Given :=
    match value, rest with
    | some value, rest => do scan rest (← g.set s value)
    | none, value :: rest =>
      match Word.ofString value with
      | .plain => do scan rest (← g.set s value)
      | _ => .error .mistake
    | none, [] => .error .mistake

def options (args : List String) : Except Usage Options := do (← scan args {}).complete

/-- Why a file has no text. -/
inductive FileError where
  | missing
  | directory
  | notText
  /-- Part of the path is no directory. -/
  | notDirectory
  /-- The path or a name in it is longer than the system allows. -/
  | nameTooLong
  | linkLoop
  | denied
  | other (reason : String)

def FileError.message : FileError → String
  | missing => "No such file or directory (os error 2)"
  | directory => "Is a directory (os error 21)"
  | notText => "stream did not contain valid UTF-8"
  | notDirectory => "Not a directory (os error 20)"
  | nameTooLong => "File name too long (os error 36)"
  | linkLoop => "Too many levels of symbolic links (os error 40)"
  | denied => "Permission denied (os error 13)"
  | other reason => reason

structure Answer where
  status : UInt32
  output : String := ""
  errors : String := ""

def failure (message : String) : Answer := { status := 1, errors := s!"error: {message}\n" }

/-- The greatest number of rounds of any loop of a search, more than a search comes to. -/
def roundLimit : Nat := Nat.pow 2 62

/-- The answer of a planning call. An exhausted search has a status of its own. -/
def report (o : Options) (names : SymbolTable) (r : Planner.Outcome) : Answer :=
  let stats := if o.stats then r.report.text else ""
  match r.plan with
  | .ok plan =>
    { status := 0
      output := if o.json then plan.json names ++ "\n" else plan.text names
      errors := stats }
  | .error (.exhausted goal) =>
    { status := 2, errors := stats ++ (NoPlan.exhausted goal).message names ++ "\n" }
  | .error e =>
    let answer := failure (e.message names)
    { answer with errors := stats ++ answer.errors }

/-- The answer to the options, given what the two files hold. The domain is read first, then the
world, and then the goal is looked up. -/
def answer (o : Options) (domain world : Except FileError String) : Answer :=
  match domain with
  | .error e => failure s!"{o.domain}: {e.message}"
  | .ok domainText =>
    match Domain.read domainText .empty with
    | (.error e, names) => failure s!"{o.domain}: {e.message names}"
    | (.ok d, names) =>
      match world with
      | .error e => failure s!"{o.world}: {e.message}"
      | .ok worldText =>
        match World.read worldText names with
        | (.error e, _) => failure s!"{o.world}: {e.message}"
        | (.ok w, names) =>
          match o.goal, d.top with
          | some goal, _ => report o names (Planner.plan d w names roundLimit goal)
          | none, some m => report o names (Planner.plan d w names roundLimit (names.name m.name))
          | none, none => failure "no --goal given and the domain has no `top method`"

end TaskNetwork.CommandLine
