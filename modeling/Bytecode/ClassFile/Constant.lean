/-
  The constants of a class file and their kinds.

  A constant refers to others by their keys in the pool; a key is a natural number, whatever its
  width in the file.  Each kind has a tag, the octet that announces it in the file, and a name.
-/
import Bytecode.Octets.BigEndian

namespace Bytecode

/-- The three kinds of reference to a member of a class. -/
inductive MemberKind where
  | field
  | method
  | interfaceMethod
  deriving DecidableEq, Repr

inductive ConstantKind where
  | utf8
  | integer
  | classRef
  | string
  | member (kind : MemberKind)
  | nameAndType
  | methodHandle
  | methodType
  | invokeDynamic
  deriving DecidableEq, Repr

def ConstantKind.name : ConstantKind → String
  | .utf8 => "Utf8"
  | .integer => "Integer"
  | .classRef => "Class"
  | .string => "String"
  | .member .field => "Fieldref"
  | .member .method => "Methodref"
  | .member .interfaceMethod => "InterfaceMethodref"
  | .nameAndType => "NameAndType"
  | .methodHandle => "MethodHandle"
  | .methodType => "MethodType"
  | .invokeDynamic => "InvokeDynamic"

def ConstantKind.tag : ConstantKind → UInt8
  | .utf8 => 1
  | .integer => 3
  | .classRef => 7
  | .string => 8
  | .member .field => 9
  | .member .method => 10
  | .member .interfaceMethod => 11
  | .nameAndType => 12
  | .methodHandle => 15
  | .methodType => 16
  | .invokeDynamic => 18

/-- All kinds, in the order of their tags. -/
def ConstantKind.all : List ConstantKind :=
  [.utf8, .integer, .classRef, .string, .member .field, .member .method,
    .member .interfaceMethod, .nameAndType, .methodHandle, .methodType, .invokeDynamic]

def ConstantKind.ofTag? (tag : UInt8) : Option ConstantKind :=
  all.find? (·.tag = tag)

def ConstantKind.ofName? (name : String) : Option ConstantKind :=
  all.find? (·.name = name)

/-- A constant; all of its numbers but an `integer` and a handle's `kind` are keys of the pool. -/
inductive Constant where
  /-- Text, as modified UTF-8 that has not been looked at. -/
  | utf8 (octets : Octets)
  | integer (value : Int32)
  | classRef (name : Nat)
  | string (text : Nat)
  | member (kind : MemberKind) (owner nameAndType : Nat)
  | nameAndType (name descriptor : Nat)
  | methodHandle (kind : UInt8) (index : Nat)
  | methodType (descriptor : Nat)
  /-- A call site; `bootstrap` counts in a table of its own. -/
  | invokeDynamic (bootstrap nameAndType : Nat)
  deriving DecidableEq, Repr

def Constant.kind : Constant → ConstantKind
  | .utf8 _ => .utf8
  | .integer _ => .integer
  | .classRef _ => .classRef
  | .string _ => .string
  | .member kind _ _ => .member kind
  | .nameAndType _ _ => .nameAndType
  | .methodHandle _ _ => .methodHandle
  | .methodType _ => .methodType
  | .invokeDynamic _ _ => .invokeDynamic

theorem ConstantKind.ofTag?_tag (k : ConstantKind) : ofTag? k.tag = some k := by
  match k with
  | .utf8 | .integer | .classRef | .string | .nameAndType | .methodHandle | .methodType
  | .invokeDynamic => decide
  | .member m => cases m <;> decide

end Bytecode
