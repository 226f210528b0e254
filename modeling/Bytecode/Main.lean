/-
  The command as a program: it lists the directory, reads the class files in it, and prints what
  `CommandLine.run` reports.
-/
import Bytecode.CommandLine

namespace Bytecode.Main

/-- More instructions than any run gets to carry out. -/
def fuel : Nat := 0x4000000000000000

/-- The fault behind an error of the system. -/
def faultOf : IO.Error → PathFault
  | .noFileOrDirectory .. => .missing
  | .inappropriateType .. => .notDirectory
  | e => .other e.toString

/-- Whether an entry of a directory is a regular file; an entry that leads nowhere is none. -/
def isRegular (e : IO.FS.DirEntry) : IO Bool := do
  try return (← e.path.metadata).type == .file
  catch _ => return false

/-- Lists a directory, with the contents of the class files in it. -/
def listDirectory (dir : String) : IO (Except PathFault (List DirEntry)) := do
  if dir.isEmpty then return .error .missing
  try
    let entries ← ((← IO.currentDir) / dir).readDir
    let listed ← entries.toList.mapM fun e => do
      if Classpath.isClassName e.fileName && (← isRegular e) then
        let contents ← IO.FS.readBinFile e.path
        return DirEntry.mk e.fileName (some contents.toList)
      else
        return DirEntry.mk e.fileName none
    return .ok listed
  catch e => return .error (faultOf e)

/-- Prints a report and gives the exit code. -/
def finish (r : CommandLine.Report) : IO UInt32 := do
  IO.print r.output
  IO.eprint r.errorOutput
  return r.exitCode.toUInt32

end Bytecode.Main

open Bytecode in
def main (args : List String) : IO UInt32 := do
  match CommandLine.Options.parse args with
  | .error e =>
    IO.eprint (CommandLine.Report.errorText e.message)
    return 1
  | .ok options =>
    let listing ← Main.listDirectory options.classpath
    Main.finish (CommandLine.run Main.fuel options listing)
