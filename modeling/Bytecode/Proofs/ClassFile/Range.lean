/-
  Reading class files within range.

  `Constant.read?` and so on are the ranged readers of the parts of class files.  `confined_read`
  says of each part that both kinds of readers do the same from every cursor that lies in its
  source, that reading stays there and does not go back, and that octets that are said to be missing
  are at least one.
-/
import Bytecode.ClassFile.Decode
import Bytecode.Proofs.Octets.Confined

namespace Bytecode

open Reader (confined_index confined_take confined_u8 confined_u16 confined_u32 confined_i32
  confined_fail)

/-- How many octets are missing, if that is the reason. -/
def FormatError.missing? : FormatError → Option Nat
  | .malformed cause => cause.missing?
  | _ => none

theorem Reader.Confined.lift {α : Type} {back : Prop} {r : Reader ReadError α}
    {s : RangedReader ReadError α} (h : r.Confined back ReadError.missing? s) :
    (liftM r : Reader FormatError α).Confined back FormatError.missing? (liftM s) :=
  h.withError fun _ => rfl

/-! ## Ranged readers -/

abbrev Constant.readBody? (kind : ConstantKind) : RangedReader ReadError Constant :=
  readingBody RangedReader kind

abbrev Constant.read? : RangedReader FormatError Constant := reading RangedReader
abbrev Pool.read? : RangedReader FormatError Pool := reading RangedReader
abbrev Version.read? : RangedReader ReadError Version := reading RangedReader
abbrev Attribute.read? : RangedReader FormatError Attribute := reading RangedReader
abbrev Attribute.readTable? : RangedReader FormatError (List Attribute) := readingTable RangedReader
abbrev Member.read? : RangedReader FormatError Member := reading RangedReader
abbrev Member.readTable? : RangedReader FormatError (List Member) := readingTable RangedReader
abbrev Code.read? : RangedReader FormatError Code := reading RangedReader
abbrev ClassFile.read? : RangedReader FormatError ClassFile := reading RangedReader

/-! ## Constants -/

theorem Constant.confined_readBody (kind : ConstantKind) :
    (Constant.readBody kind).Confined False ReadError.missing? (Constant.readBody? kind) := by
  cases kind with
  | utf8 => exact confined_index.bind fun length => (confined_take length).map utf8
  | integer => exact confined_i32.map integer
  | classRef => exact confined_index.map classRef
  | string => exact confined_index.map string
  | member m => exact confined_index.bind fun i => confined_index.bind fun j => .pure (member m i j)
  | nameAndType =>
    exact confined_index.bind fun i => confined_index.bind fun j => .pure (nameAndType i j)
  | methodHandle =>
    exact confined_u8.bind fun kind => confined_index.bind fun i => .pure (methodHandle kind i)
  | methodType => exact confined_index.map methodType
  | invokeDynamic =>
    exact confined_index.bind fun i => confined_index.bind fun j => .pure (invokeDynamic i j)

theorem Constant.confined_read :
    Constant.read.Confined False FormatError.missing? Constant.read? := by
  refine confined_u8.lift.bind fun tag => ?_
  cases ConstantKind.ofTag? tag with
  | none => exact confined_fail rfl
  | some kind => exact (confined_readBody kind).lift

theorem Pool.confined_read : Pool.read.Confined False FormatError.missing? Pool.read? := by
  refine confined_index.lift.bind fun count => ?_
  cases count with
  | zero => exact confined_fail rfl
  | succ n => exact (Constant.confined_read.many n).map Pool.mk

/-! ## Attributes and members -/

theorem Attribute.confined_read :
    Attribute.read.Confined False FormatError.missing? Attribute.read? :=
  confined_index.lift.bind fun name => confined_u32.lift.bind fun length =>
    (confined_take length.toNat).lift.bind fun info => .pure (Attribute.mk name info)

theorem Attribute.confined_readTable :
    Attribute.readTable.Confined False FormatError.missing? Attribute.readTable? :=
  confined_index.lift.bind fun n => Attribute.confined_read.many n

theorem Member.confined_read : Member.read.Confined False FormatError.missing? Member.read? :=
  confined_u16.lift.bind fun access => confined_index.lift.bind fun name =>
    confined_index.lift.bind fun descriptor => Attribute.confined_readTable.bind fun attributes =>
      .pure (Member.mk ⟨access⟩ name descriptor attributes)

theorem Member.confined_readTable :
    Member.readTable.Confined False FormatError.missing? Member.readTable? :=
  confined_index.lift.bind fun n => Member.confined_read.many n

theorem Code.confined_read : Code.read.Confined False FormatError.missing? Code.read? :=
  confined_index.lift.bind fun maxStack => confined_index.lift.bind fun maxLocals =>
    confined_u32.lift.bind fun length => (confined_take length.toNat).lift.bind fun octets =>
      .pure (Code.mk maxStack maxLocals octets)

/-! ## Class files -/

theorem Version.confined_read : Version.read.Confined False ReadError.missing? Version.read? :=
  confined_u16.bind fun minor => confined_u16.bind fun major => .pure (Version.mk major minor)

theorem ClassFile.confined_read :
    ClassFile.read.Confined False FormatError.missing? ClassFile.read? := by
  refine confined_u32.lift.bind fun n => ?_
  by_cases hn : n ≠ magic
  · rw [if_pos hn, if_pos hn]
    exact confined_fail rfl
  · rw [if_neg hn, if_neg hn]
    exact Version.confined_read.lift.bind fun version => Pool.confined_read.bind fun pool =>
      confined_u16.lift.bind fun access => confined_index.lift.bind fun thisClass =>
      confined_index.lift.bind fun superClass => confined_index.lift.bind fun interfaces =>
      (confined_take (interfaces * 2)).lift.bind fun _ => Member.confined_readTable.bind
        fun fields => Member.confined_readTable.bind fun methods =>
      Attribute.confined_readTable.bind fun attributes =>
      .pure (ClassFile.mk version pool ⟨access⟩ thisClass superClass fields methods attributes)

end Bytecode
