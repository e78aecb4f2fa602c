import Namesake.CommandLine

/-!
The command line program: reads the named files, runs, and prints.
-/

namespace Namesake.Main

def usage : String :=
  "usage: jsrename [-h] (--at FILE:OFFSET | --property NAME) [--verbose] files [files ...]\n"

def readFile? (path : String) : IO (Option (List UInt8)) := do
  try
    let bytes ← IO.FS.readBinFile path
    return some bytes.toList
  catch _ => return none

def readFiles : List String → IO Directory
  | [] => return []
  | path :: rest => do
      let others ← readFiles rest
      match ← readFile? path with
      | some bytes => return (path, bytes) :: others
      | none => return others

end Namesake.Main

open Namesake in
def main (texts : List String) : IO UInt32 := do
  let errors ← IO.getStderr
  let output ← IO.getStdout
  let colour := wantsColour (← IO.getEnv "NO_COLOR") (← IO.getEnv "JSRENAME_COLOR")
    (← errors.isTty)
  let screen : Screen := { errors := colour, output := colour && (← output.isTty) }
  let directory ←
    match Arguments.read texts with
    | .run arguments => Main.readFiles (arguments.files.map Path.plain)
    | _ => pure []
  match CommandLine.run screen directory texts with
  | .error fault =>
    errors.putStrLn fault.message
    return 1
  | .ok report =>
    output.putStr report.output
    match report.errors with
    | some text => errors.putStr text
    | none => (if report.exitCode = 0 then output else errors).putStr Main.usage
    return report.exitCode.toUInt32
