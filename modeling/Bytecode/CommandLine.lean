/-
  The command: load the classes of a directory, then run a method of a class or list the class.

  `run` does the work that the options ask for, given what listing the directory gave; a `Report`
  says what was printed and what went wrong.
-/
import Bytecode.Classpath
import Bytecode.CommandLine.Options
import Bytecode.Listing
import Bytecode.Machine.Run

namespace Bytecode.CommandLine

/-- A class name with slashes in place of dots. -/
def slashed (name : String) : String :=
  name.map fun c => if c = '.' then '/' else c

/-- What a use of the command printed, and why it stopped, if it did not come to its end. -/
structure Report where
  output : String
  failure : Option Stop
  deriving DecidableEq, Repr

namespace Report

/-- What a failed use prints besides its output. -/
def errorText (message : String) : String :=
  Role.error.paint "error:" ++ " " ++ message ++ "\n"

def exitCode (r : Report) : Nat :=
  if r.failure.isSome then 1 else 0

def errorOutput (r : Report) : String :=
  match r.failure with
  | none => ""
  | some (.error e) => errorText e.message
  | some .outOfFuel => errorText "out of fuel"

end Report

/-- What the host methods called in a list of events printed. -/
def printed (events : List Event) : String :=
  String.join ((events.filterMap Event.call?).map fun (key, args) => NativeTable.printed key args)

def list (classes : ClassTable) (className : String) : Report :=
  match classes.get className >>= fun c => RunError.ofFormat (Listing.ofClass c) with
  | .ok text => ⟨text, none⟩
  | .error e => ⟨"", some (.error e)⟩

def runMethod (fuel : Nat) (classes : ClassTable) (policy : HeapPolicy)
    (className method : String) : Report :=
  let machine : Machine := ⟨classes, .console, policy⟩
  match machine.runMethod fuel className method .start with
  | (.ok _, w) => ⟨printed w.events, none⟩
  | (.error why, w) => ⟨printed w.events, some why⟩

/-- Carries out the command on what listing the classpath gave. -/
def run (fuel : Nat) (o : Options) (listing : Except PathFault (List DirEntry)) : Report :=
  match (Classpath.load o.classpath listing).1 with
  | .error e => ⟨"", some (.error e)⟩
  | .ok classes =>
    if o.dump then list classes (slashed o.className)
    else
      let policy := if o.sharedHeap then HeapPolicy.shared else HeapPolicy.isolateStatic
      runMethod fuel classes policy (slashed o.className) o.method

end Bytecode.CommandLine
