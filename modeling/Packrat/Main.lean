import Packrat.CommandLine

/-! The outer layer of the command: arguments, one file, two streams and an exit code. -/
namespace Packrat.CommandLine

def readText (file : String) : IO (Except ReadError String) := do
  try
    let bytes ← IO.FS.readBinFile file
    return match String.fromUTF8? bytes with
      | some text => .ok text
      | none => .error .notText
  catch
    | .noFileOrDirectory .. => return .error .missing
    | .inappropriateType .. => return .error .directory
    | e => return .error (.other (toString e))

def contents : Request → IO (Except ReadError String)
  | .evaluate file _ => readText file
  | _ => return .error .missing

end Packrat.CommandLine

open Packrat.CommandLine in
def main (args : List String) : IO UInt32 := do
  let asked := request args
  let result := report ("error: invalid arguments\n\n" ++ usage ++ "\n") (← contents asked) asked
  (← IO.getStdout).putStr result.stdout
  (← IO.getStderr).putStr result.stderr
  return result.code.toUInt32
