/-
  The instructions that the machine understands.

  Operands are kept as they are encoded: a local slot is one octet, a pool key two, and the operand
  of a branch is signed and counts from the offset of the branch itself.
-/
namespace Bytecode

/-- An instruction with its operands. -/
inductive Instruction where
  | nop
  /-- Push a constant that the opcode stands for. -/
  | constInt (value : Int32)
  | pushByte (value : Int8)
  | pushShort (value : Int16)
  /-- Push the number or the string under a pool key. -/
  | loadConstant (index : UInt8)
  | loadInt (slot : UInt8)
  | loadRef (slot : UInt8)
  | storeInt (slot : UInt8)
  | storeRef (slot : UInt8)
  | pop
  | dup
  | addInt
  | subInt
  /-- Add to the number in a local slot. -/
  | incInt (slot : UInt8) (delta : Int8)
  | ifNotZero (jump : Int16)
  | ifNotEqualInt (jump : Int16)
  | ifGreaterEqualInt (jump : Int16)
  | goto (jump : Int16)
  | returnInt
  | returnRef
  | returnVoid
  | getStatic (index : UInt16)
  | getField (index : UInt16)
  | putField (index : UInt16)
  | invokeVirtual (index : UInt16)
  | invokeSpecial (index : UInt16)
  | invokeStatic (index : UInt16)
  | new (index : UInt16)
  deriving DecidableEq, Repr

namespace Instruction

/-- An instruction as text: its name, and its operands in parentheses. -/
def text : Instruction → String
  | nop => "Nop"
  | constInt n => s!"ConstInt({n.toInt})"
  | pushByte n => s!"PushByte({n.toInt})"
  | pushShort n => s!"PushShort({n.toInt})"
  | loadConstant i => s!"LoadConstant({i.toNat})"
  | loadInt i => s!"LoadInt({i.toNat})"
  | loadRef i => s!"LoadRef({i.toNat})"
  | storeInt i => s!"StoreInt({i.toNat})"
  | storeRef i => s!"StoreRef({i.toNat})"
  | pop => "Pop"
  | dup => "Dup"
  | addInt => "AddInt"
  | subInt => "SubInt"
  | incInt i n => s!"IncInt({i.toNat}, {n.toInt})"
  | ifNotZero n => s!"IfNotZero({n.toInt})"
  | ifNotEqualInt n => s!"IfNotEqualInt({n.toInt})"
  | ifGreaterEqualInt n => s!"IfGreaterEqualInt({n.toInt})"
  | goto n => s!"Goto({n.toInt})"
  | returnInt => "ReturnInt"
  | returnRef => "ReturnRef"
  | returnVoid => "Return"
  | getStatic i => s!"GetStatic({i.toNat})"
  | getField i => s!"GetField({i.toNat})"
  | putField i => s!"PutField({i.toNat})"
  | invokeVirtual i => s!"InvokeVirtual({i.toNat})"
  | invokeSpecial i => s!"InvokeSpecial({i.toNat})"
  | invokeStatic i => s!"InvokeStatic({i.toNat})"
  | new i => s!"New({i.toNat})"

end Instruction

end Bytecode
