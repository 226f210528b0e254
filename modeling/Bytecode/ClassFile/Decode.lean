/-
  Reading class files.

  All numbers are big-endian.  A count comes before the items it counts, and a length before the
  octets it measures; the pool's count is one more than the number of its constants.  The table of
  interfaces is passed over.

  `Constant.reading` and so on are the readers of the parts, of whatever kind; `Constant.read` and
  so on are those that run.
-/
import Bytecode.ClassFile.Basic

namespace Bytecode

open Reading (u8 u16 u32 i32 index chunk many fail)

section

variable (R : Type → Type → Type) [∀ ε, Monad (R ε)] [Reading R]

def Constant.readingBody : ConstantKind → R ReadError Constant
  | .utf8 => do
    let length ← index R
    .utf8 <$> chunk R length
  | .integer => .integer <$> i32 R
  | .classRef => .classRef <$> index R
  | .string => .string <$> index R
  | .member kind => do
    let owner ← index R
    let nt ← index R
    return .member kind owner nt
  | .nameAndType => do
    let name ← index R
    let descriptor ← index R
    return .nameAndType name descriptor
  | .methodHandle => do
    let kind ← u8 R
    let i ← index R
    return .methodHandle kind i
  | .methodType => .methodType <$> index R
  | .invokeDynamic => do
    let bootstrap ← index R
    let nt ← index R
    return .invokeDynamic bootstrap nt

def Constant.reading : R FormatError Constant := do
  let tag ← u8 R
  match ConstantKind.ofTag? tag with
  | some kind => Constant.readingBody R kind
  | none => fail (.unknownTag tag)

def Pool.reading : R FormatError Pool := do
  match ← index R with
  | 0 => fail .poolTooSmall
  | n + 1 => Pool.mk <$> many n (Constant.reading R)

/-- A version; the minor number comes first. -/
def Version.reading : R ReadError Version := do
  let minor ← u16 R
  let major ← u16 R
  return ⟨major, minor⟩

def Attribute.reading : R FormatError Attribute := do
  let name ← index R
  let length ← u32 R
  let info ← chunk R length.toNat
  return ⟨name, info⟩

def Attribute.readingTable : R FormatError (List Attribute) := do
  let n ← index R
  many n (Attribute.reading R)

def Member.reading : R FormatError Member := do
  let access ← u16 R
  let name ← index R
  let descriptor ← index R
  let attributes ← Attribute.readingTable R
  return ⟨⟨access⟩, name, descriptor, attributes⟩

def Member.readingTable : R FormatError (List Member) := do
  let n ← index R
  many n (Member.reading R)

/-- The contents of a `Code` attribute, up to the end of the instructions. -/
def Code.reading : R FormatError Code := do
  let maxStack ← index R
  let maxLocals ← index R
  let length ← u32 R
  let octets ← chunk R length.toNat
  return ⟨maxStack, maxLocals, octets⟩

def ClassFile.reading : R FormatError ClassFile := do
  let magic ← u32 R
  if magic ≠ ClassFile.magic then
    fail (.wrongMagic magic)
  else
    let version ← Version.reading R
    let pool ← Pool.reading R
    let access ← u16 R
    let thisClass ← index R
    let superClass ← index R
    let interfaces ← index R
    let _ ← chunk R (interfaces * 2)
    let fields ← Member.readingTable R
    let methods ← Member.readingTable R
    let attributes ← Attribute.readingTable R
    return ⟨version, pool, ⟨access⟩, thisClass, superClass, fields, methods, attributes⟩

end

/-! ## Readers that run -/

abbrev Constant.readBody (kind : ConstantKind) : Reader ReadError Constant :=
  readingBody Reader kind
abbrev Constant.read : Reader FormatError Constant := reading Reader
abbrev Pool.read : Reader FormatError Pool := reading Reader
abbrev Version.read : Reader ReadError Version := reading Reader
abbrev Attribute.read : Reader FormatError Attribute := reading Reader
abbrev Attribute.readTable : Reader FormatError (List Attribute) := readingTable Reader
abbrev Member.read : Reader FormatError Member := reading Reader
abbrev Member.readTable : Reader FormatError (List Member) := readingTable Reader
abbrev Code.read : Reader FormatError Code := reading Reader
abbrev ClassFile.read : Reader FormatError ClassFile := reading Reader

/-- The class file at the start of a string of octets; what follows it is left alone. -/
def ClassFile.parse (source : Octets) : Except FormatError ClassFile :=
  ClassFile.read.parse source

end Bytecode
