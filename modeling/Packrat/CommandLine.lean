import Packrat.Calculator

/-! The command `peg-calc`: evaluates the expression in a file. What it does is a function of its
arguments and of what reading a file gives. -/
namespace Packrat.CommandLine

inductive Request where
  | evaluate (file : String) (allowPartial : Bool)
  | help
  | version
  | misused
  deriving DecidableEq, Repr

structure Seen where
  file : Option String := none
  allowPartial : Bool := false

def Seen.addFile (seen : Seen) (file : String) : Option Seen :=
  if seen.file.isSome || file.isEmpty then none else some { seen with file := some file }

def Seen.addPartial (seen : Seen) : Option Seen :=
  if seen.allowPartial then none else some { seen with allowPartial := true }

def Seen.request (seen : Seen) : Request :=
  match seen.file with
  | some file => .evaluate file seen.allowPartial
  | none => .misused

def requestOfFiles (seen : Seen) : List String → Request
  | [] => seen.request
  | file :: rest =>
    match seen.addFile file with
    | some seen => requestOfFiles seen rest
    | none => .misused

/-- Arguments from left to right. Help, version and the first misuse end the reading. Of a cluster of
short options the first decides; a lone hyphen is a file. -/
def requestFrom (seen : Seen) : List String → Request
  | [] => seen.request
  | arg :: rest =>
    if arg = "--" then requestOfFiles seen rest
    else if arg = "--help" then .help
    else if arg = "--version" then .version
    else if arg = "--partial" then
      match seen.addPartial with
      | some seen => requestFrom seen rest
      | none => .misused
    else
      match arg.toList with
      | '-' :: 'h' :: _ => .help
      | '-' :: 'V' :: _ => .version
      | '-' :: _ :: _ => .misused
      | _ =>
        match seen.addFile arg with
        | some seen => requestFrom seen rest
        | none => .misused

def request (args : List String) : Request := requestFrom {} args

inductive ReadError where
  | missing
  | directory
  | notText
  | other (reason : String)
  deriving DecidableEq, Repr

def ReadError.message : ReadError → String
  | missing => "No such file or directory (os error 2)"
  | directory => "Is a directory (os error 21)"
  | notText => "stream did not contain valid UTF-8"
  | other reason => reason

def usage : String := "Usage: peg-calc [OPTIONS] <FILE>"

def helpText : String :=
  "Evaluate an arithmetic expression read from a file\n\n" ++ usage ++ "\n\n" ++
  "Arguments:\n" ++
  "  <FILE>  File containing the expression\n\n" ++
  "Options:\n" ++
  "      --partial  Accept an expression followed by input that is not part of it\n" ++
  "  -h, --help     Print help\n" ++
  "  -V, --version  Print version\n"

def versionText : String := "peg-calc 0.1.0\n"

structure Report where
  code : Nat
  stdout : String := ""
  stderr : String := ""
  deriving DecidableEq, Repr

def evaluate (file text : String) (allowPartial : Bool) : Report :=
  match (Calculator.parser.withPartial allowPartial).parseFile text file with
  | .ok x => { code := 0, stdout := Number.text x ++ "\n" }
  | .error e => { code := 2, stderr := e.message ++ "\n" }

/-- The report on a request. `refusal` is said to a misuse, and `contents` is what reading gave if the
request names a file. -/
def report (refusal : String) (contents : Except ReadError String) : Request → Report
  | .help => { code := 0, stdout := helpText }
  | .version => { code := 0, stdout := versionText }
  | .misused => { code := 1, stderr := refusal }
  | .evaluate file allowPartial =>
    match contents with
    | .ok text => evaluate file text allowPartial
    | .error e =>
      { code := 1, stderr := "error: cannot read " ++ file ++ ": " ++ e.message ++ "\n" }

end Packrat.CommandLine
