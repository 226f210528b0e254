/-
  The classes that are loaded, by name.

  A name is taken once: a second class of the same name is refused and the table stays as it was.
-/
import Bytecode.ClassFile.Symbols
import Bytecode.Machine.Event

namespace Bytecode

/-- Classes under the names they give themselves, in the order in which they were put in. -/
structure ClassTable where
  classes : List (String × ClassFile)
  deriving DecidableEq, Repr

namespace ClassTable

def empty : ClassTable := ⟨[]⟩

def size (t : ClassTable) : Nat :=
  t.classes.length

/-- The names of the classes, in the order of their characters. -/
def names (t : ClassTable) : List String :=
  (t.classes.map (·.1)).mergeSort fun a b => decide (a ≤ b)

def get? (t : ClassTable) (name : String) : Option ClassFile :=
  t.classes.lookup name

def get (t : ClassTable) (name : String) : Except RunError ClassFile :=
  match t.get? name with
  | some c => .ok c
  | none => .error (.classNotFound name)

/-- Puts a class in under its name, unless this does not resolve or is taken.  The answer is what
    happened, or why the class was refused. -/
def offer (t : ClassTable) (c : ClassFile) : Except RunError Event × ClassTable :=
  match RunError.ofFormat c.name with
  | .error e => (.error e, t)
  | .ok name =>
    if (t.get? name).isSome then (.error (.duplicateClass name), t)
    else (.ok (.loaded name c.version c.methods.length), ⟨t.classes ++ [(name, c)]⟩)

/-- The table with a class that was not refused, and what happened. -/
def insert (t : ClassTable) (c : ClassFile) : Except RunError (ClassTable × Event) :=
  match t.offer c with
  | (.ok event, t') => .ok (t', event)
  | (.error e, _) => .error e

/-- Puts classes in one after the other, up to the first that is refused. -/
def insertAll (t : ClassTable) : List ClassFile → Except RunError ClassTable × List Event
  | [] => (.ok t, [])
  | c :: cs =>
    match t.insert c with
    | .error e => (.error e, [])
    | .ok (t', event) =>
      let (result, events) := insertAll t' cs
      (result, event :: events)

def ofClasses (cs : List ClassFile) : Except RunError ClassTable × List Event :=
  empty.insertAll cs

def findMethod (t : ClassTable) (className method : String) : Except RunError Member := do
  let c ← t.get className
  match ← RunError.ofFormat (c.findMethod? method) with
  | some m => .ok m
  | none => .error (.methodNotFound className method)

def findCode (t : ClassTable) (className method : String) : Except RunError Code := do
  let c ← t.get className
  let m ← t.findMethod className method
  match ← RunError.ofFormat (m.code? c.pool) with
  | some code => .ok code
  | none => .error (.codeNotFound className method)

end ClassTable

end Bytecode
