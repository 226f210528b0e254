/-
  Frames: where a method that runs stands, its operand stack and its local slots.

  `fetch` decodes the instruction at a frame's position.  The operations on a frame that can fail
  say at which offset, that of the instruction being carried out.
-/
import Bytecode.ClassFile.Basic
import Bytecode.ClassFile.Descriptor
import Bytecode.Code.Opcode
import Bytecode.Machine.RunError

namespace Bytecode

/-- Code that runs, with the constants it refers to. -/
structure Routine where
  pool : Pool
  code : Octets
  deriving DecidableEq, Repr

/-- The state of a method that runs. -/
structure Frame where
  pc : Nat
  /-- The operands, the top of the stack first. -/
  stack : List Value
  locals : List Value
  deriving DecidableEq, Repr

/-- Decodes the instruction at an offset; also the offset of the one after it. -/
def fetch (code : Octets) (pc : Nat) : Except RunError (Decoded × Nat) :=
  let c := Cursor.place code pc
  if c.isEmpty then .error (.codeOverrun pc)
  else
    match Decoded.read.run c with
    | (.ok d, c') => .ok (d, c'.offset)
    | (.error (.unknownOpcode tag), _) => .error (.unsupportedOpcode tag pc)
    | (.error .truncated, _) => .error (.codeOverrun pc)

namespace Frame

def start (locals : List Value) : Frame := ⟨0, [], locals⟩

def push (f : Frame) (v : Value) : Frame :=
  { f with stack := v :: f.stack }

/-- Pushes what a call returned, if it returned a value. -/
def pushResult (f : Frame) : Option Value → Frame
  | some v => f.push v
  | none => f

def pop (offset : Nat) (f : Frame) : Except RunError (Value × Frame) :=
  match f.stack with
  | v :: rest => .ok (v, { f with stack := rest })
  | [] => .error (.stackUnderflow offset)

def popInt (offset : Nat) (f : Frame) : Except RunError (Int32 × Frame) := do
  let (v, f) ← f.pop offset
  let n ← v.asInt
  return (n, f)

def popObject (offset : Nat) (f : Frame) : Except RunError (Nat × Frame) := do
  let (v, f) ← f.pop offset
  let id ← v.asObject
  return (id, f)

/-- Pops the arguments of a call, as many as the descriptor says, in the order in which they were
    pushed. -/
def popArgs (offset : Nat) (descriptor : String) (f : Frame) :
    Except RunError (List Value × Frame) := do
  let n ← RunError.ofFormat (Descriptor.argCount descriptor)
  if f.stack.length < n then .error (.stackUnderflow offset)
  else return ((f.stack.take n).reverse, { f with stack := f.stack.drop n })

def load (f : Frame) (slot : Nat) : Except RunError Value :=
  match f.locals[slot]? with
  | some .unset => .error (.unsetLocal slot)
  | some v => .ok v
  | none => .error (.localOutOfRange slot f.locals.length)

def store (f : Frame) (slot : Nat) (v : Value) : Except RunError Frame :=
  if slot < f.locals.length then .ok { f with locals := f.locals.set slot v }
  else .error (.localOutOfRange slot f.locals.length)

/-- Moves to the instruction at a distance from the branch at `offset`; it has to lie within the
    code. -/
def jump (code : Octets) (offset : Nat) (distance : Int16) (f : Frame) : Except RunError Frame :=
  let target := (offset : Int) + distance.toInt
  if target < 0 ∨ (code.length : Int) ≤ target then .error (.branchOutOfBounds offset target)
  else .ok { f with pc := target.toNat }

end Frame

end Bytecode
