/-
  What an instruction does.

  `perform` carries an instruction out as far as the frame and the heap are concerned and says how
  to go on.  It neither loads classes nor calls anything: a call comes back as an `Effect`, with the
  frame to go on with once the call is over.
-/
import Bytecode.Machine.Frame
import Bytecode.Machine.Heap

namespace Bytecode

/-- How to go on after an instruction. -/
inductive Effect where
  /-- With the next instruction of this frame. -/
  | advance (frame : Frame)
  /-- Likewise, at the target of a branch. -/
  | branch (frame : Frame)
  /-- With this frame and a changed heap. -/
  | update (frame : Frame) (heap : Heap)
  /-- Not at all: the method returns. -/
  | finish (result : Option Value)
  /-- With this frame, after a host method has been called. -/
  | native (key : NativeKey) (args : List Value) (frame : Frame)
  /-- With this frame; the call of a constructor that does nothing is left out. -/
  | skip (callee : MemberRef) (frame : Frame)
  /-- With this frame, after a method has been called; a static call has no receiver. -/
  | call (callee : MemberRef) (receiver : Option Value) (args : List Value) (frame : Frame)
  deriving DecidableEq, Repr

/-- The constant that `ldc` pushes: a number or a string. -/
def Pool.loadable (pool : Pool) (i : Nat) : Except RunError Value := do
  match ← RunError.ofFormat (pool.get i) with
  | .string _ => .str <$> RunError.ofFormat (pool.string i)
  | .integer n => return .int n
  | c => .error (.invalidConstant i c.kind)

/-- The constructor of the class that every class extends.  It has nothing to do, and its class is
    never loaded. -/
def MemberRef.isRootConstructor (m : MemberRef) : Bool :=
  m.className = "java/lang/Object" && m.name = "<init>"

/-- Carries out the instruction `i` at `offset`; the frame `f` already stands behind it. -/
def perform (r : Routine) (heap : Heap) (offset : Nat) (i : Instruction) (f : Frame) :
    Except RunError Effect :=
  let fieldRef (index : UInt16) := RunError.ofFormat (r.pool.memberRef index.toNat (.member .field))
  let methodRef (index : UInt16) :=
    RunError.ofFormat (r.pool.memberRef index.toNat (.member .method))
  match i with
  | .nop => return .advance f
  | .constInt n => return .advance (f.push (.int n))
  | .pushByte n => return .advance (f.push (.int n.toInt32))
  | .pushShort n => return .advance (f.push (.int n.toInt32))
  | .loadConstant index => do
    let v ← r.pool.loadable index.toNat
    return .advance (f.push v)
  | .loadInt slot => do
    let n ← (← f.load slot.toNat).asInt
    return .advance (f.push (.int n))
  | .loadRef slot => do
    let v ← f.load slot.toNat
    return .advance (f.push v)
  | .storeInt slot => do
    let (n, f) ← f.popInt offset
    .advance <$> f.store slot.toNat (.int n)
  | .storeRef slot => do
    let (v, f) ← f.pop offset
    .advance <$> f.store slot.toNat v
  | .pop => do
    let (_, f) ← f.pop offset
    return .advance f
  | .dup => do
    let (v, _) ← f.pop offset
    return .advance (f.push v)
  | .addInt => do
    let (b, f) ← f.popInt offset
    let (a, f) ← f.popInt offset
    return .advance (f.push (.int (a + b)))
  | .subInt => do
    let (b, f) ← f.popInt offset
    let (a, f) ← f.popInt offset
    return .advance (f.push (.int (a - b)))
  | .incInt slot delta => do
    let n ← (← f.load slot.toNat).asInt
    .advance <$> f.store slot.toNat (.int (n + delta.toInt32))
  | .ifNotZero distance => do
    let (n, f) ← f.popInt offset
    if n ≠ 0 then .branch <$> f.jump r.code offset distance else return .advance f
  | .ifNotEqualInt distance => do
    let (b, f) ← f.popInt offset
    let (a, f) ← f.popInt offset
    if a ≠ b then .branch <$> f.jump r.code offset distance else return .advance f
  | .ifGreaterEqualInt distance => do
    let (b, f) ← f.popInt offset
    let (a, f) ← f.popInt offset
    if b ≤ a then .branch <$> f.jump r.code offset distance else return .advance f
  | .goto distance => .branch <$> f.jump r.code offset distance
  | .returnInt => do
    let (n, _) ← f.popInt offset
    return .finish (some (.int n))
  | .returnRef => do
    let (v, _) ← f.pop offset
    return .finish (some v)
  | .returnVoid => return .finish none
  | .getStatic index => do
    let ref ← fieldRef index
    return .advance (f.push (.staticMember ref))
  | .getField index => do
    let ref ← fieldRef index
    let (id, f) ← f.popObject offset
    let v ← heap.getField id ref.name
    return .advance (f.push v)
  | .putField index => do
    let ref ← fieldRef index
    let (v, f) ← f.pop offset
    let (id, f) ← f.popObject offset
    .update f <$> heap.putField id ref.name v
  | .invokeVirtual index => do
    let ref ← methodRef index
    let (args, f) ← f.popArgs offset ref.descriptor
    let (receiver, f) ← f.pop offset
    let host ← receiver.asStaticMember
    return .native ⟨host.className, host.name, ref.name⟩ args f
  | .invokeSpecial index => do
    let ref ← methodRef index
    let (args, f) ← f.popArgs offset ref.descriptor
    let (receiver, f) ← f.pop offset
    let _ ← receiver.asObject
    if ref.isRootConstructor then return .skip ref f else return .call ref (some receiver) args f
  | .invokeStatic index => do
    let ref ← methodRef index
    let (args, f) ← f.popArgs offset ref.descriptor
    return .call ref none args f
  | .new index => do
    let name ← RunError.ofFormat (r.pool.className index.toNat)
    let (id, heap) := heap.alloc name
    return .update (f.push (.obj id)) heap

end Bytecode
