/-
  Opcodes and the decoding of instructions.

  `Opcode.table` has one row for each opcode: its tag, its mnemonic, and the form of its operands.
  Decoding looks the tag up and reads the operands, so how many octets an instruction takes depends
  on its tag alone (`Form.width`).

  * `Decoded.reading` decodes the instruction at a cursor, `Decoded.read` is the one that runs.
-/
import Bytecode.Code.Instruction
import Bytecode.Octets.Reader

namespace Bytecode

/-- The form of an instruction's operands, with the instruction they make. -/
inductive Form where
  | fixed (i : Instruction)
  | signed8 (f : Int8 → Instruction)
  | signed16 (f : Int16 → Instruction)
  | unsigned8 (f : UInt8 → Instruction)
  | unsigned16 (f : UInt16 → Instruction)
  | slotAndDelta (f : UInt8 → Int8 → Instruction)

namespace Form

def width : Form → Nat
  | fixed _ => 0
  | signed8 _ | unsigned8 _ => 1
  | signed16 _ | unsigned16 _ | slotAndDelta _ => 2

def reading (R : Type → Type → Type) [∀ ε, Monad (R ε)] [Reading R] :
    Form → R ReadError Instruction
  | fixed i => pure i
  | signed8 f => f <$> Reading.i8 R
  | signed16 f => f <$> Reading.i16 R
  | unsigned8 f => f <$> Reading.u8 R
  | unsigned16 f => f <$> Reading.u16 R
  | slotAndDelta f => do
    let slot ← Reading.u8 R
    let delta ← Reading.i8 R
    return f slot delta

abbrev read (form : Form) : Reader ReadError Instruction := form.reading Reader

end Form

structure Opcode where
  tag : UInt8
  mnemonic : String
  form : Form

namespace Opcode

open Instruction Form

def table : List Opcode :=
  [⟨0x00, "nop", fixed nop⟩,
    ⟨0x02, "iconst_m1", fixed (constInt (-1))⟩,
    ⟨0x03, "iconst_0", fixed (constInt 0)⟩,
    ⟨0x04, "iconst_1", fixed (constInt 1)⟩,
    ⟨0x05, "iconst_2", fixed (constInt 2)⟩,
    ⟨0x06, "iconst_3", fixed (constInt 3)⟩,
    ⟨0x07, "iconst_4", fixed (constInt 4)⟩,
    ⟨0x08, "iconst_5", fixed (constInt 5)⟩,
    ⟨0x10, "bipush", signed8 pushByte⟩,
    ⟨0x11, "sipush", signed16 pushShort⟩,
    ⟨0x12, "ldc", unsigned8 loadConstant⟩,
    ⟨0x15, "iload", unsigned8 loadInt⟩,
    ⟨0x19, "aload", unsigned8 loadRef⟩,
    ⟨0x1a, "iload_0", fixed (loadInt 0)⟩,
    ⟨0x1b, "iload_1", fixed (loadInt 1)⟩,
    ⟨0x1c, "iload_2", fixed (loadInt 2)⟩,
    ⟨0x1d, "iload_3", fixed (loadInt 3)⟩,
    ⟨0x2a, "aload_0", fixed (loadRef 0)⟩,
    ⟨0x2b, "aload_1", fixed (loadRef 1)⟩,
    ⟨0x2c, "aload_2", fixed (loadRef 2)⟩,
    ⟨0x2d, "aload_3", fixed (loadRef 3)⟩,
    ⟨0x36, "istore", unsigned8 storeInt⟩,
    ⟨0x3a, "astore", unsigned8 storeRef⟩,
    ⟨0x3b, "istore_0", fixed (storeInt 0)⟩,
    ⟨0x3c, "istore_1", fixed (storeInt 1)⟩,
    ⟨0x3d, "istore_2", fixed (storeInt 2)⟩,
    ⟨0x3e, "istore_3", fixed (storeInt 3)⟩,
    ⟨0x4b, "astore_0", fixed (storeRef 0)⟩,
    ⟨0x4c, "astore_1", fixed (storeRef 1)⟩,
    ⟨0x4d, "astore_2", fixed (storeRef 2)⟩,
    ⟨0x4e, "astore_3", fixed (storeRef 3)⟩,
    ⟨0x57, "pop", fixed pop⟩,
    ⟨0x59, "dup", fixed dup⟩,
    ⟨0x60, "iadd", fixed addInt⟩,
    ⟨0x64, "isub", fixed subInt⟩,
    ⟨0x84, "iinc", slotAndDelta incInt⟩,
    ⟨0x9a, "ifne", signed16 ifNotZero⟩,
    ⟨0xa0, "if_icmpne", signed16 ifNotEqualInt⟩,
    ⟨0xa2, "if_icmpge", signed16 ifGreaterEqualInt⟩,
    ⟨0xa7, "goto", signed16 goto⟩,
    ⟨0xac, "ireturn", fixed returnInt⟩,
    ⟨0xb0, "areturn", fixed returnRef⟩,
    ⟨0xb1, "return", fixed returnVoid⟩,
    ⟨0xb2, "getstatic", unsigned16 getStatic⟩,
    ⟨0xb4, "getfield", unsigned16 getField⟩,
    ⟨0xb5, "putfield", unsigned16 putField⟩,
    ⟨0xb6, "invokevirtual", unsigned16 invokeVirtual⟩,
    ⟨0xb7, "invokespecial", unsigned16 invokeSpecial⟩,
    ⟨0xb8, "invokestatic", unsigned16 invokeStatic⟩,
    ⟨0xbb, "new", unsigned16 new⟩]

def ofTag? (tag : UInt8) : Option Opcode :=
  table.find? (·.tag = tag)

def mnemonic? (tag : UInt8) : Option String :=
  (ofTag? tag).map (·.mnemonic)

end Opcode

/-- Why no instruction could be decoded. -/
inductive DecodeError where
  | unknownOpcode (tag : UInt8)
  /-- The code ends within the instruction. -/
  | truncated
  deriving DecidableEq, Repr

def DecodeError.text : DecodeError → String
  | .unknownOpcode tag => s!"UnknownOpcode({tag.toNat})"
  | .truncated => "Truncated"

/-- A failed read within an instruction cuts it short. -/
instance {R : Type → Type → Type} [Reading R] : MonadLift (R ReadError) (R DecodeError) where
  monadLift := Reading.withError fun _ => .truncated

/-- A decoded instruction, with the offset at which it starts. -/
structure Decoded where
  start : Nat
  tag : UInt8
  mnemonic : String
  instruction : Instruction
  deriving DecidableEq, Repr

namespace Decoded

def reading (R : Type → Type → Type) [∀ ε, Monad (R ε)] [Reading R] : R DecodeError Decoded := do
  let start ← Reading.offset
  let tag ← Reading.u8 R
  match Opcode.ofTag? tag with
  | none => Reading.fail (.unknownOpcode tag)
  | some op =>
    let instruction ← op.form.reading R
    return ⟨start, tag, op.mnemonic, instruction⟩

abbrev read : Reader DecodeError Decoded := reading Reader

/-- The steps of decoding from a cursor on: for each instruction the offset at which it starts,
    what decoding gave, and the offset after it.  The last step is the one that ends the octets or
    fails.  Each step that succeeds uses up an octet, so as much fuel as there are octets left is
    enough. -/
def steps : Nat → Cursor → List (Nat × Except DecodeError Decoded × Nat)
  | 0, _ => []
  | fuel + 1, c =>
    if c.isEmpty then []
    else
      match read.run c with
      | (.ok d, c') => (c.offset, .ok d, c'.offset) :: steps fuel c'
      | (.error e, c') => [(c.offset, .error e, c'.offset)]

/-- Decodes a string of octets from its start to its end or to the first failure. -/
def linear (code : Octets) : List (Nat × Except DecodeError Decoded × Nat) :=
  steps code.length (.ofOctets code)

end Decoded

end Bytecode
