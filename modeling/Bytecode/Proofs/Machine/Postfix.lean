/-
  Sums and differences in postfix code.

  An `IntExpr` is a tree of sums and differences over numbers that one instruction pushes and over
  local slots.  Its code evaluates the left operand, then the right one, and then adds or subtracts.
  Whatever stands on the stack below, the code pushes the value of the tree, of which the low 32
  bits are kept as a signed number.
-/
import Bytecode.ClassFile.Assembly
import Bytecode.Proofs.Machine.Paths

namespace Bytecode

inductive IntOp where
  | add
  | sub
  deriving DecidableEq, Repr

namespace IntOp

def tag : IntOp → UInt8
  | add => 0x60
  | sub => 0x64

def apply : IntOp → Int → Int → Int
  | add, a, b => a + b
  | sub, a, b => a - b

end IntOp

inductive IntExpr where
  /-- One of the numbers from -1 to 5, each of which has an instruction of its own: it is one less
      than `n`. -/
  | small (n : Fin 7)
  | byte (n : Int8)
  | short (n : Int16)
  | slot (i : UInt8)
  | node (op : IntOp) (left right : IntExpr)
  deriving DecidableEq, Repr

namespace IntExpr

/-- The local slots that an expression reads. -/
def slots : IntExpr → List UInt8
  | small _ | byte _ | short _ => []
  | slot i => [i]
  | node _ left right => left.slots ++ right.slots

/-- The value of an expression among all integers. -/
def value (env : UInt8 → Int32) : IntExpr → Int
  | small n => n - 1
  | byte n => n.toInt
  | short n => n.toInt
  | slot i => (env i).toInt
  | node op left right => op.apply (left.value env) (right.value env)

def code : IntExpr → Octets
  | small n => [UInt8.ofNat (2 + n)]
  | byte n => [0x10, n.toUInt8]
  | short n => 0x11 :: indexOctets n.toUInt16.toNat
  | slot i => [0x15, i]
  | node op left right => left.code ++ (right.code ++ [op.tag])

variable {r : Routine} {pc : Nat} {stack locals : List Value} {rest : Octets}

/-- The seven numbers stand in the table one after the other. -/
theorem steps_small (n : Fin 7) (hcode : r.code.drop pc = UInt8.ofNat (2 + n) :: rest) :
    r.Steps ⟨pc, stack, locals⟩ ⟨pc + 1, .int (Int32.ofInt (n - 1)) :: stack, locals⟩ := by
  have hrow : ∃ mnemonic, Opcode.ofTag? (UInt8.ofNat (2 + n)) =
      some ⟨UInt8.ofNat (2 + n), mnemonic, .fixed (.constInt (Int32.ofInt (n - 1)))⟩ := by
    match n with
    | 0 | 1 | 2 | 3 | 4 | 5 | 6 => exact ⟨_, rfl⟩
  obtain ⟨mnemonic, hop⟩ := hrow
  have hdecodes : Decodes r.code pc (.constInt (Int32.ofInt (n - 1))) (pc + 1) :=
    decodes_of_drop ⟨_, mnemonic, .fixed (.constInt (Int32.ofInt (n - 1)))⟩ [] hop hcode rfl
  exact Routine.steps_constInt hdecodes

theorem steps_byte (n : Int8) (hcode : r.code.drop pc = 0x10 :: n.toUInt8 :: rest) :
    r.Steps ⟨pc, stack, locals⟩ ⟨pc + 2, .int (Int32.ofInt n.toInt) :: stack, locals⟩ := by
  have hdecodes : Decodes r.code pc (.pushByte n) (pc + 2) := by
    have h := decodes_of_drop ⟨0x10, "bipush", .signed8 .pushByte⟩ [n.toUInt8] rfl hcode rfl
    rwa [Form.make, ofNat_decode_octet, Int8.toInt8_toUInt8] at h
  rw [Int32.ofInt_int8ToInt]
  exact Routine.steps_pushByte hdecodes

theorem steps_short (n : Int16)
    (hcode : r.code.drop pc = 0x11 :: (indexOctets n.toUInt16.toNat ++ rest)) :
    r.Steps ⟨pc, stack, locals⟩ ⟨pc + 3, .int (Int32.ofInt n.toInt) :: stack, locals⟩ := by
  have hdecodes : Decodes r.code pc (.pushShort n) (pc + 3) := by
    have h := decodes_of_drop ⟨0x11, "sipush", .signed16 .pushShort⟩
      (indexOctets n.toUInt16.toNat) rfl hcode rfl
    have hoperand : UInt16.ofNat (BigEndian.decode (indexOctets n.toUInt16.toNat)) =
        n.toUInt16 := by
      apply UInt16.toNat.inj
      exact toNat_decode_indexOctets n.toUInt16.toNat_lt
    rwa [Form.make, hoperand, Int16.toInt16_toUInt16] at h
  rw [Int32.ofInt_int16ToInt]
  exact Routine.steps_pushShort hdecodes

theorem steps_slot {i : UInt8} {n : Int32} (hcode : r.code.drop pc = 0x15 :: i :: rest)
    (hslot : locals[i.toNat]? = some (.int n)) :
    r.Steps ⟨pc, stack, locals⟩ ⟨pc + 2, .int (Int32.ofInt n.toInt) :: stack, locals⟩ := by
  have hdecodes : Decodes r.code pc (.loadInt i) (pc + 2) := by
    have h := decodes_of_drop ⟨0x15, "iload", .unsigned8 .loadInt⟩ [i] rfl hcode rfl
    rwa [Form.make, ofNat_decode_octet] at h
  rw [Int32.ofInt_toInt]
  exact Routine.steps_loadInt hdecodes hslot

theorem steps_op {op : IntOp} {a b : Int} (hcode : r.code.drop pc = op.tag :: rest) :
    r.Steps ⟨pc, .int (Int32.ofInt b) :: .int (Int32.ofInt a) :: stack, locals⟩
      ⟨pc + 1, .int (Int32.ofInt (op.apply a b)) :: stack, locals⟩ := by
  cases op with
  | add =>
    rw [IntOp.apply, Int32.ofInt_add]
    exact Routine.steps_addInt (decodes_of_drop ⟨0x60, "iadd", .fixed .addInt⟩ [] rfl hcode rfl)
  | sub =>
    rw [IntOp.apply, Int32.ofInt_sub]
    exact Routine.steps_subInt (decodes_of_drop ⟨0x64, "isub", .fixed .subInt⟩ [] rfl hcode rfl)

/-- **The code of an expression pushes its value**, by no more instructions than it has octets. -/
theorem path (e : IntExpr) {env : UInt8 → Int32}
    (hslots : ∀ i ∈ e.slots, locals[i.toNat]? = some (.int (env i))) (stack : List Value)
    (hcode : r.code.drop pc = e.code ++ rest) :
    ∃ fs, fs.length ≤ e.code.length ∧ r.Path ⟨pc, stack, locals⟩ fs
      ⟨pc + e.code.length, .int (Int32.ofInt (e.value env)) :: stack, locals⟩ := by
  induction e generalizing pc stack rest with
  | small n => exact ⟨[_], Nat.le_refl 1, .step (steps_small n hcode) (.here _)⟩
  | byte n => exact ⟨[_], Nat.le_succ 1, .step (steps_byte n hcode) (.here _)⟩
  | short n => exact ⟨[_], Nat.le_add_right 1 2, .step (steps_short n hcode) (.here _)⟩
  | slot i =>
    have hslot := hslots i (List.mem_singleton_self i)
    exact ⟨[_], Nat.le_succ 1, .step (steps_slot hcode hslot) (.here _)⟩
  | node op left right ihleft ihright =>
    rw [slots, List.forall_mem_append] at hslots
    rw [code, List.append_assoc, List.append_assoc] at hcode
    have hright := drop_add_length_of_drop left.code hcode
    have hop := drop_add_length_of_drop right.code hright
    obtain ⟨fs, hfs, hpath⟩ := ihleft hslots.1 stack hcode
    -- the right operand is evaluated on top of the left one
    obtain ⟨gs, hgs, hpath'⟩ :=
      ihright hslots.2 (.int (Int32.ofInt (left.value env)) :: stack) hright
    refine ⟨fs ++ (gs ++ [_]), ?_, hpath.trans (hpath'.trans (.step ?_ (.here _)))⟩
    · simp only [code, List.length_append, List.length_singleton]
      omega
    · simp only [code, value, List.length_append, List.length_singleton, ← Nat.add_assoc]
      exact steps_op hop

/-- **Postfix code evaluates its expression.**  On any machine that has the class, in any world and
    with any local slots that hold numbers where the expression reads them, the code of an
    expression and a return give its value, of which the low 32 bits are kept as a signed number;
    the heap stays as it was, and no host method is called. -/
theorem execute_code (e : IntExpr) (env : UInt8 → Int32) (m : Machine) (className : String)
    (hclass : (m.classes.get? className).isSome) (locals : List Value)
    (hslots : ∀ i ∈ e.slots, locals[i.toNat]? = some (.int (env i))) (fuel : Nat)
    (hfuel : e.code.length < fuel) (w : World) :
    let out := m.execute fuel className (e.code ++ [0xac]) locals w
    out.1 = .ok (some (.int (Int32.ofInt (e.value env)))) ∧ out.2.heap = w.heap ∧
      out.2.calls = w.calls := by
  obtain ⟨c, hc⟩ := Option.isSome_iff_exists.1 hclass
  have hget : m.classes.get className = .ok c := by simp only [ClassTable.get, hc]
  have hreturn : Decodes (e.code ++ [0xac]) (0 + e.code.length) .returnInt _ :=
    decodes_of_drop ⟨0xac, "ireturn", .fixed .returnInt⟩ [] rfl
      (drop_add_length_of_drop e.code rfl) rfl
  have hcode : (⟨c.pool, e.code ++ [0xac]⟩ : Routine).code.drop 0 = e.code ++ [0xac] := rfl
  obtain ⟨fs, hfs, hpath⟩ := e.path hslots [] hcode
  obtain ⟨w', halike, -, hrun⟩ := hpath.run_finish (Routine.does_returnInt hreturn)
    (Nat.lt_of_le_of_lt hfs hfuel) m w
  have hout : m.execute fuel className (e.code ++ [0xac]) locals w =
      (.ok (some (.int (Int32.ofInt (e.value env)))), w') := by
    simp only [Machine.execute, hget]
    exact hrun
  dsimp only
  rw [hout]
  exact ⟨rfl, halike.heap, halike.calls⟩

/-- `(-2 - -128) + (x - 5)`, where `x` is in the last local slot that code can name. -/
def farSlot : IntExpr :=
  .node .add (.node .sub (.short (-2)) (.byte (-128))) (.node .sub (.slot 255) (.small 6))

/-- With the least number in that slot the difference on the right wraps to a positive number, and
    the sum wraps back. -/
theorem execute_code_farSlot :
    let m : Machine := ⟨⟨[("A", (Assembly.start "A").cls)]⟩, .empty, .shared⟩
    let code : Octets :=
      [0x11, 0xff, 0xfe, 0x10, 0x80, 0x64, 0x15, 0xff, 0x08, 0x64, 0x60, 0xac]
    let locals : List Value := List.replicate 255 .unset ++ [.int Int32.minValue]
    let out := m.execute 12 "A" code locals .start
    out.1 = .ok (some (.int (-2147483527))) ∧ out.2.heap = .empty ∧ out.2.calls = [] := by
  intro m code locals
  have hslots : ∀ i ∈ farSlot.slots, locals[i.toNat]? = some (.int Int32.minValue) := by
    intro i hi
    obtain rfl : i = 255 := List.mem_singleton.1 hi
    have hlast : locals[(List.replicate 255 Value.unset).length]? = some (.int Int32.minValue) :=
      List.getElem?_concat_length
    rwa [List.length_replicate] at hlast
  have hcode : farSlot.code ++ [0xac] = code := by decide
  have hvalue : Int32.ofInt (farSlot.value fun _ => Int32.minValue) = -2147483527 := by decide
  have hrun := farSlot.execute_code (fun _ => Int32.minValue) m "A" rfl locals hslots 12
    (by decide) .start
  rw [hcode, hvalue] at hrun
  exact hrun

end IntExpr

end Bytecode
