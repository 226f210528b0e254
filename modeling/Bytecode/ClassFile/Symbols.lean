/-
  What a class file says by name: its own name, the names and descriptors of its methods, and the
  code that belongs to a method.

  A method is looked for by the standard UTF-8 of the wanted name, octet by octet, so a method
  whose name holds U+0000 or a character above U+FFFF is never found.
-/
import Bytecode.ClassFile.Decode
import Bytecode.ClassFile.Descriptor

namespace Bytecode

def Attribute.codeName : Octets := utf8 "Code"

def Attribute.isCode (pool : Pool) (a : Attribute) : Except FormatError Bool := do
  let name ← pool.octets a.name
  return name = Attribute.codeName

/-- The code in an attribute, if it is a `Code` attribute. -/
def Attribute.code? (pool : Pool) (a : Attribute) : Except FormatError (Option Code) := do
  if ← a.isCode pool then some <$> Code.read.parse a.info else return none

/-- The code in the first `Code` attribute of a list. -/
def Attribute.firstCode? (pool : Pool) : List Attribute → Except FormatError (Option Code)
  | [] => .ok none
  | a :: as => do
    match ← a.code? pool with
    | some code => return some code
    | none => Attribute.firstCode? pool as

/-- The code of a method; abstract and native methods have none. -/
def Member.code? (pool : Pool) (m : Member) : Except FormatError (Option Code) :=
  Attribute.firstCode? pool m.attributes

def Member.argCount (pool : Pool) (m : Member) : Except FormatError Nat := do
  let descriptor ← pool.text m.descriptor
  Descriptor.argCount descriptor

/-- The first member of a list whose name is the given octets. -/
def Member.find? (pool : Pool) (name : Octets) : List Member → Except FormatError (Option Member)
  | [] => .ok none
  | m :: ms => do
    if (← pool.octets m.name) = name then return some m else Member.find? pool name ms

namespace ClassFile

def name (c : ClassFile) : Except FormatError String :=
  c.pool.className c.thisClass

def findMethod? (c : ClassFile) (name : String) : Except FormatError (Option Member) :=
  Member.find? c.pool (utf8 name) c.methods

end ClassFile

end Bytecode
