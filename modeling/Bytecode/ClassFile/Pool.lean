/-
  The constant pool: constants under the keys 1, 2, 3, …, in the order of the file.

  Symbols are resolved by following keys: a class or a string to its text, a member reference to
  the texts of its class, name and descriptor.  A key that leads nowhere and a constant of the
  wrong kind are both blamed by key.  Of several faults of a member reference the one in its
  name is met first, then its descriptor's, then its class's.
-/
import Bytecode.ClassFile.FormatError

namespace Bytecode

/-- The constants of a class; the first one has key 1. -/
structure Pool where
  constants : List Constant
  deriving DecidableEq, Repr

/-- A resolved reference to a field or method. -/
structure MemberRef where
  className : String
  name : String
  descriptor : String
  deriving DecidableEq, Repr

def MemberRef.text (m : MemberRef) : String :=
  m.className ++ "." ++ m.name ++ ":" ++ m.descriptor

namespace Pool

/-- The count that a file gives for the pool: one more than it has constants. -/
def count (pool : Pool) : Nat :=
  pool.constants.length + 1

/-- The constant under a key. -/
def get? (pool : Pool) : Nat → Option Constant
  | 0 => none
  | i + 1 => pool.constants[i]?

/-- The constants with their keys, in the order of the file. -/
def entries (pool : Pool) : List (Nat × Constant) :=
  (pool.constants.zipIdx 1).map fun (c, i) => (i, c)

def get (pool : Pool) (i : Nat) : Except FormatError Constant :=
  match pool.get? i with
  | some c => .ok c
  | none => .error (.invalidIndex i)

def octets (pool : Pool) (i : Nat) : Except FormatError Octets := do
  match ← pool.get i with
  | .utf8 bs => .ok bs
  | c => .error (.unexpectedConstant i .utf8 c.kind)

def text (pool : Pool) (i : Nat) : Except FormatError String := do
  let bs ← pool.octets i
  (ModifiedUtf8.decode bs).mapError .ofText

def integer (pool : Pool) (i : Nat) : Except FormatError Int32 := do
  match ← pool.get i with
  | .integer n => .ok n
  | c => .error (.unexpectedConstant i .integer c.kind)

def className (pool : Pool) (i : Nat) : Except FormatError String := do
  match ← pool.get i with
  | .classRef name => pool.text name
  | c => .error (.unexpectedConstant i .classRef c.kind)

def string (pool : Pool) (i : Nat) : Except FormatError String := do
  match ← pool.get i with
  | .string t => pool.text t
  | c => .error (.unexpectedConstant i .string c.kind)

/-- The name and the descriptor of a `nameAndType` constant. -/
def nameAndType (pool : Pool) (i : Nat) : Except FormatError (String × String) := do
  match ← pool.get i with
  | .nameAndType name descriptor =>
    let n ← pool.text name
    let d ← pool.text descriptor
    return (n, d)
  | c => .error (.unexpectedConstant i .nameAndType c.kind)

/-- The member that a `member` constant of the expected kind refers to. -/
def memberRef (pool : Pool) (i : Nat) (expected : ConstantKind) :
    Except FormatError MemberRef := do
  match ← pool.get i with
  | .member kind owner nt =>
    if .member kind = expected then
      let (name, descriptor) ← pool.nameAndType nt
      let cls ← pool.className owner
      return ⟨cls, name, descriptor⟩
    else
      .error (.unexpectedConstant i expected (.member kind))
  | c => .error (.unexpectedConstant i expected c.kind)

end Pool

end Bytecode
