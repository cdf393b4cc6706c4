/-
The program: reads the file named on the command line, lifts the shader in it and delivers the result.
It keeps no log, whether one is asked for or not.
-/
import ShaderLift.CommandLine

open ShaderLift.CommandLine

namespace ShaderLift.Main

def causeText : IO.Error → String
  | .noFileOrDirectory .. => FileFault.missing.message
  | e => toString e

def readInput (path : String) : IO (Except String (List UInt8)) := do
  try
    let bytes ← IO.FS.readBinFile path
    return .ok bytes.toList
  catch e => return .error (causeText e)

/-- Delivers a text, and says what went wrong if it could not be written. -/
def deliver (output : Option String) (text : String) : IO (Option String) := do
  match output with
  | none =>
    try
      IO.print text
      return none
    catch e => return some (failure "write" "stdout" (causeText e))
  | some path =>
    try
      IO.FS.writeFile path text
      return none
    catch e => return some (failure "write" path (causeText e))

/-- Tells what went wrong, if anything did, and gives the exit code. -/
def tell (complaint : String) : IO UInt32 := do
  IO.eprint complaint
  return (exitCodeOf complaint).toUInt32

end ShaderLift.Main

open ShaderLift.Main in
def main (args : List String) : IO UInt32 := do
  match request? args with
  | none =>
    IO.eprintln "usage: [OPTIONS] <INPUT>"
    return 2
  | some r =>
    match respond r (← readInput r.input) with
    | .refusal complaint => tell complaint
    | .delivery none complaint => tell complaint
    | .delivery (some text) complaint =>
      match ← deliver r.output text with
      | some problem => tell problem
      | none => tell complaint
