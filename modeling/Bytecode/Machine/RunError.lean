/-
  What can go wrong when classes are loaded and run.
-/
import Bytecode.Machine.Value

namespace Bytecode

/-- What a host method is found by: the static field it is called on and its name. -/
structure NativeKey where
  className : String
  field : String
  method : String
  deriving DecidableEq, Repr

namespace NativeKey

def text (k : NativeKey) : String :=
  k.className ++ "." ++ k.field ++ "." ++ k.method

def traceText (k : NativeKey) : String :=
  "NativeKey \x7b class: " ++ Quoted.quote k.className ++ ", field: " ++ Quoted.quote k.field
    ++ ", method: " ++ Quoted.quote k.method ++ " \x7d"

end NativeKey

/-- Why a directory could not be listed. -/
inductive PathFault where
  | missing
  | notDirectory
  /-- For another reason, in the system's words. -/
  | other (message : String)
  deriving DecidableEq, Repr

def PathFault.message : PathFault → String
  | .missing => "No such file or directory (os error 2)"
  | .notDirectory => "Not a directory (os error 20)"
  | .other message => message

/-- Why loading or running failed. -/
inductive RunError where
  | format (cause : FormatError)
  | duplicateClass (name : String)
  | classNotFound (name : String)
  | methodNotFound (className method : String)
  | codeNotFound (className method : String)
  /-- A method has fewer local slots than it gets values. -/
  | tooFewLocals (maxLocals needed : Nat)
  | unsupportedOpcode (opcode : UInt8) (offset : Nat)
  | stackUnderflow (offset : Nat)
  | unsetLocal (slot : Nat)
  | localOutOfRange (slot maxLocals : Nat)
  | typeMismatch (expected : ValueKind) (found : Value)
  | invalidConstant (index : Nat) (found : ConstantKind)
  | nativeNotFound (key : NativeKey)
  | noSuchObject (id : Nat)
  | fieldNotSet (id : Nat) (field : String)
  | branchOutOfBounds (offset : Nat) (target : Int)
  | codeOverrun (offset : Nat)
  | unreadable (path : String) (fault : PathFault)
  deriving DecidableEq, Repr

namespace RunError

def message : RunError → String
  | .format cause => cause.message
  | .duplicateClass name => s!"class `{name}` is defined more than once"
  | .classNotFound name => s!"class `{name}` was not found"
  | .methodNotFound className method => s!"method `{method}` was not found in `{className}`"
  | .codeNotFound className method => s!"method `{className}.{method}` has no Code attribute"
  | .tooFewLocals maxLocals needed =>
    s!"callee has {maxLocals} local slots but receives {needed} values"
  | .unsupportedOpcode opcode offset =>
    s!"unsupported opcode {Column.hex 2 opcode.toNat} at offset {offset}"
  | .stackUnderflow offset => s!"operand stack underflow at offset {offset}"
  | .unsetLocal slot => s!"local #{slot} read before being set"
  | .localOutOfRange slot maxLocals =>
    s!"local #{slot} is out of range (max_locals is {maxLocals})"
  | .typeMismatch expected found => s!"expected {expected.name} value, found `{found.text}`"
  | .invalidConstant index found => s!"ldc cannot load {found.name} constant #{index}"
  | .nativeNotFound key => s!"no native method for `{key.text}`"
  | .noSuchObject id => s!"no object {objectText id} on the heap"
  | .fieldNotSet id field => s!"field `{field}` of {objectText id} was read before being set"
  | .branchOutOfBounds offset target =>
    s!"branch at offset {offset} jumps outside the code to {target}"
  | .codeOverrun offset => s!"execution ran past the end of the code at offset {offset}"
  | .unreadable path fault => s!"{path}: {fault.message}"

/-- Whether an error stops every computation that meets it. -/
def isFatal : RunError → Bool
  | .format cause => cause.isFatal
  | _ => false

end RunError

/-- What is wrong with a class file is wrong with loading or running it. -/
def RunError.ofFormat {α : Type} (r : Except FormatError α) : Except RunError α :=
  r.mapError .format

namespace Value

def asInt : Value → Except RunError Int32
  | int n => .ok n
  | v => .error (.typeMismatch .int v)

def asObject : Value → Except RunError Nat
  | obj id => .ok id
  | v => .error (.typeMismatch .object v)

def asStaticMember : Value → Except RunError MemberRef
  | staticMember ref => .ok ref
  | v => .error (.typeMismatch .staticMember v)

end Value

end Bytecode
