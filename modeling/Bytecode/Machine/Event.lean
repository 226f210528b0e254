/-
  The events of loading and running, and the log lines they make.

  Everything the machine does leaves an event.  An event belongs to a level of detail and has a
  message; a log at some level shows the events of that level and of the less detailed ones.  The
  call of a host method is an event too (`called`), but no log shows it.
-/
import Bytecode.ClassFile.Basic
import Bytecode.Machine.RunError

namespace Bytecode

/-- How much detail a log has. -/
inductive Level where
  | info
  | debug
  | trace
  deriving DecidableEq, Repr

namespace Level

def name : Level → String
  | info => "INFO"
  | debug => "DEBUG"
  | trace => "TRACE"

/-- The levels from the least detailed one on. -/
def rank : Level → Nat
  | info => 0
  | debug => 1
  | trace => 2

end Level

/-- Something that happened. -/
inductive Event where
  /-- A class file is about to be read. -/
  | reading (path : String)
  /-- A class was put into the table. -/
  | loaded (className : String) (version : Version) (methods : Nat)
  | entered (className method : String)
  | exited (className method : String) (result : Option Value)
  | fetched (offset : Nat) (mnemonic : String)
  /-- The operand stack at a fetch, the bottom first. -/
  | stack (values : List Value)
  | locals (values : List Value)
  | jumped (target : Nat)
  /-- A host method is about to be looked up. -/
  | native (key : NativeKey)
  | called (key : NativeKey) (args : List Value)
  /-- The call of a constructor that does nothing was left out. -/
  | skipped (callee : MemberRef)
  deriving DecidableEq, Repr

namespace Event

/-- The level at which a log shows an event. -/
def level? : Event → Option Level
  | loaded _ _ _ => some .info
  | reading _ | entered _ _ | exited _ _ _ | fetched _ _ | jumped _ | native _ | skipped _ =>
    some .debug
  | stack _ | locals _ => some .trace
  | called _ _ => none

def message : Event → String
  | reading path => s!"reading {path}"
  | loaded className version methods =>
    s!"loaded class {className} (version {version.major.toNat}.{version.minor.toNat}, "
      ++ s!"{methods} methods)"
  | entered className method => s!"enter {className}.{method}"
  | exited className method none => s!"exit {className}.{method}"
  | exited className method (some v) => s!"exit {className}.{method} -> {v.text}"
  | fetched offset mnemonic => Column.alignRight 5 (toString offset) ++ ": " ++ mnemonic
  | stack values => "stack " ++ Value.traceTexts values
  | locals values => "locals " ++ Value.traceTexts values
  | jumped target => s!"jump to {target}"
  | native key => s!"native {key.text}"
  | called key _ => s!"called {key.text}"
  | skipped callee => s!"skipping {callee.text}"

/-- The line of an event in a log of the given detail. -/
def line? (detail : Level) (e : Event) : Option String :=
  match e.level? with
  | some l => if l.rank ≤ detail.rank then some (l.name ++ " " ++ e.message) else none
  | none => none

/-- The call of a host method that an event is. -/
def call? : Event → Option (NativeKey × List Value)
  | called key args => some (key, args)
  | _ => none

end Event

def logLines (detail : Level) (events : List Event) : List String :=
  events.filterMap (Event.line? detail)

end Bytecode
