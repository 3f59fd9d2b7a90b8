import TaskNetwork.CommandLine

/-! The program: reads the files that the command line names and prints the answer. -/

namespace TaskNetwork.CommandLine

def usageText : String := "Plans a goal from a domain file and a world file.

Usage: htn --domain <FILE> --world <FILE> [--goal <ID>] [--json] [--stats]

  --domain <FILE>  domain with constants, axioms and methods
  --world <FILE>   world with one fact per declaration
  --goal <ID>      method without parameters to plan from, in place of the top method
  --json           print the plan as a JSON array
  --stats          print search counters to the error stream
"

/-- The cause of an error of the system, whose numbers come as they are or negated. -/
def FileError.ofSystem (e : IO.Error) : FileError :=
  match e with
  | .noFileOrDirectory .. => .missing
  | .permissionDenied .. => .denied
  | .inappropriateType _ code _ => if min code (-code) = 21 then .directory else .notDirectory
  | .invalidArgument _ code _ =>
    if min code (-code) = 36 then .nameTooLong
    else if min code (-code) = 40 then .linkLoop
    else .other (toString e)
  | e => .other (toString e)

def readText (path : String) : IO (Except FileError String) := do
  try
    let bytes ← IO.FS.readBinFile path
    match String.fromUTF8? bytes with
    | some text => return .ok text
    | none => return .error .notText
  catch e => return .error (.ofSystem e)

/-- Prints the answer to a command line, or the usage where it asks for no plan. -/
def run (args : List String) : IO UInt32 := do
  match options args with
  | .error usage =>
    let stream ← if usage.status = 0 then IO.getStdout else IO.getStderr
    stream.putStr usageText
    return usage.status
  | .ok o =>
    let result := answer o (← readText o.domain) (← readText o.world)
    (← IO.getStderr).putStr result.errors
    (← IO.getStdout).putStr result.output
    return result.status

end TaskNetwork.CommandLine

def main (args : List String) : IO UInt32 := TaskNetwork.CommandLine.run args
