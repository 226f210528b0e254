/-
  Writing class files.

  The form is the one that is read, with an empty table of interfaces.  A number that does not fit
  its field keeps its low bits.
-/
import Bytecode.ClassFile.Basic

namespace Bytecode

/-- A key or a count, on two octets. -/
def indexOctets (n : Nat) : Octets :=
  BigEndian.encode 2 n

def Constant.bodyOctets : Constant → Octets
  | .utf8 bs => indexOctets bs.length ++ bs
  | .integer n => BigEndian.encode 4 n.toUInt32.toNat
  | .classRef i => indexOctets i
  | .string i => indexOctets i
  | .member _ owner nt => indexOctets owner ++ indexOctets nt
  | .nameAndType name descriptor => indexOctets name ++ indexOctets descriptor
  | .methodHandle kind i => kind :: indexOctets i
  | .methodType i => indexOctets i
  | .invokeDynamic bootstrap nt => indexOctets bootstrap ++ indexOctets nt

def Constant.octets (c : Constant) : Octets :=
  c.kind.tag :: c.bodyOctets

def Pool.toOctets (pool : Pool) : Octets :=
  indexOctets pool.count ++ pool.constants.flatMap Constant.octets

def Attribute.octets (a : Attribute) : Octets :=
  indexOctets a.name ++ BigEndian.encode 4 a.info.length ++ a.info

def Attribute.tableOctets (as : List Attribute) : Octets :=
  indexOctets as.length ++ as.flatMap Attribute.octets

def Member.octets (m : Member) : Octets :=
  BigEndian.encode 2 m.access.bits.toNat ++ indexOctets m.name ++ indexOctets m.descriptor
    ++ Attribute.tableOctets m.attributes

def Member.tableOctets (ms : List Member) : Octets :=
  indexOctets ms.length ++ ms.flatMap Member.octets

/-- The contents of a `Code` attribute, with no exception handlers and no attributes. -/
def Code.info (code : Code) : Octets :=
  indexOctets code.maxStack ++ indexOctets code.maxLocals
    ++ BigEndian.encode 4 code.octets.length ++ code.octets ++ indexOctets 0 ++ indexOctets 0

def Version.octets (v : Version) : Octets :=
  BigEndian.encode 2 v.minor.toNat ++ BigEndian.encode 2 v.major.toNat

def ClassFile.octets (c : ClassFile) : Octets :=
  BigEndian.encode 4 ClassFile.magic.toNat ++ c.version.octets ++ c.pool.toOctets
    ++ BigEndian.encode 2 c.access.bits.toNat ++ indexOctets c.thisClass ++ indexOctets c.superClass
    ++ indexOctets 0 ++ Member.tableOctets c.fields ++ Member.tableOctets c.methods
    ++ Attribute.tableOctets c.attributes

end Bytecode
