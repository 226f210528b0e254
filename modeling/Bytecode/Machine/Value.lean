/-
  The values that the machine computes with.

  A value is copied when it is loaded or stored; an object is shared, since its value is only its
  number on the heap.  `unset` marks a local slot that has not been written yet.
-/
import Bytecode.ClassFile.Pool
import Bytecode.Text.Quoted

namespace Bytecode

inductive ValueKind where
  | int
  | string
  | object
  | staticMember
  | unset
  deriving DecidableEq, Repr

def ValueKind.name : ValueKind → String
  | .int => "int"
  | .string => "string"
  | .object => "object reference"
  | .staticMember => "static member"
  | .unset => "unset"

/-- An operand or the contents of a local slot. -/
inductive Value where
  | int (n : Int32)
  | str (text : String)
  /-- The object of this number on the heap. -/
  | obj (id : Nat)
  /-- A static field, on which host methods are called. -/
  | staticMember (ref : MemberRef)
  | unset
  deriving DecidableEq, Repr

def objectText (id : Nat) : String :=
  s!"object#{id}"

namespace Value

def kind : Value → ValueKind
  | int _ => .int
  | str _ => .string
  | obj _ => .object
  | staticMember _ => .staticMember
  | unset => .unset

def text : Value → String
  | int n => toString n.toInt
  | str t => t
  | obj id => objectText id
  | staticMember ref => ref.text
  | unset => "<unset>"

/-- A value as it is shown in a trace, with its kind. -/
def traceText : Value → String
  | int n => s!"Int({n.toInt})"
  | str t => "Str(" ++ Quoted.quote t ++ ")"
  | obj id => s!"ObjectRef(ObjectId({id}))"
  | staticMember ref =>
    "Callable \x7b class: " ++ Quoted.quote ref.className ++ ", member: " ++ Quoted.quote ref.name
      ++ ", descriptor: " ++ Quoted.quote ref.descriptor ++ " \x7d"
  | unset => "Unset"

def traceTexts (vs : List Value) : String :=
  "[" ++ ", ".intercalate (vs.map traceText) ++ "]"

end Value

end Bytecode
