/-
  Method descriptors: how many arguments a method takes.

  A descriptor is `(`, the units of its arguments, `)` and a result that is not looked at.  Each
  unit is one argument slot: a letter of a primitive type, `L` and a class name up to `;`, or an
  array, which is one or more `[` before a class unit or any other single character.  The
  arguments end at the first `)`, also within a unit.
-/
import Bytecode.ClassFile.FormatError

namespace Bytecode.Descriptor

/-- The letters of the primitive types. -/
def isPrimitive (c : Char) : Bool :=
  ['B', 'C', 'D', 'F', 'I', 'J', 'S', 'Z'].contains c

/-- Where in a list of arguments a scan stands. -/
inductive Place where
  | between
  /-- After the `[` of an array. -/
  | element
  /-- Within a class name. -/
  | name
  deriving DecidableEq, Repr

/-- Counts the units up to the first `)`, after `n` units and within the one that `place` says. -/
def countFrom : Place → Nat → List Char → Option Nat
  | _, _, [] => none
  | place, n, c :: cs =>
    if c = ')' then (if place = .between then some n else none)
    else
      match place with
      | .between =>
        if c = '[' then countFrom .element n cs
        else if c = 'L' then countFrom .name n cs
        else if isPrimitive c then countFrom .between (n + 1) cs
        else none
      | .element =>
        if c = '[' then countFrom .element n cs
        else if c = 'L' then countFrom .name n cs
        else countFrom .between (n + 1) cs
      | .name =>
        if c = ';' then countFrom .between (n + 1) cs
        else countFrom .name n cs

/-- The number of argument slots of a method descriptor. -/
def argCount (descriptor : String) : Except FormatError Nat :=
  match descriptor.toList with
  | '(' :: cs =>
    match countFrom .between 0 cs with
    | some n => .ok n
    | none => .error (.badDescriptor descriptor)
  | _ => .error (.badDescriptor descriptor)

end Bytecode.Descriptor
