/-
  Class files as data.

  Attributes are kept as the octets they have in the file.  Only `Code` attributes are ever looked
  into, and only when a method's code is asked for.  Fields and methods have the same form, that of
  a `Member`.  Interfaces are not kept.
-/
import Bytecode.ClassFile.Access
import Bytecode.ClassFile.Pool

namespace Bytecode

structure Version where
  major : UInt16
  minor : UInt16
  deriving DecidableEq, Repr

/-- An attribute: the key of its name, and its contents. -/
structure Attribute where
  name : Nat
  info : Octets
  deriving DecidableEq, Repr

/-- A field or a method: access flags, the keys of its name and of its descriptor, attributes. -/
structure Member where
  access : AccessFlags
  name : Nat
  descriptor : Nat
  attributes : List Attribute
  deriving DecidableEq, Repr

/-- The body of a method. -/
structure Code where
  /-- How deep the operand stack may get; nothing checks it. -/
  maxStack : Nat
  /-- The number of local slots, those of the arguments included. -/
  maxLocals : Nat
  octets : Octets
  deriving DecidableEq, Repr

structure ClassFile where
  version : Version
  pool : Pool
  access : AccessFlags
  thisClass : Nat
  /-- The key of the constant that names its superclass; 0 if it has none. -/
  superClass : Nat
  fields : List Member
  methods : List Member
  attributes : List Attribute
  deriving DecidableEq, Repr

/-- The number that every class file starts with. -/
def ClassFile.magic : UInt32 := 0xcafebabe

end Bytecode
