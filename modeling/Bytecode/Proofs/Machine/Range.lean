/-
  Running and listing within range.

  What a machine does with offsets, operands and descriptors is here once more, in operations that
  are defined on their range only: instructions and the contents of a `Code` attribute are read by
  ranged readers, arguments are cut off the end of the stack, the target of a branch becomes an
  offset, and the arguments of a descriptor are cut out of it.

  * `Decoded.inRange_read`, `Code.inRange_read`: the readers stay within range from every cursor
    that lies in its source;
  * `fetch?_eq`, `Decoded.linear?_eq`: so do fetching, from every offset of the code, and the
    decoding of a whole string of octets;
  * `Frame.popArgs?_eq`, `Frame.jump?_eq`, `Descriptor.argCount?_eq`: the others always do, since
    they compare before they cut;
  * `Machine.fetch?_of_visits`: at every point of a run the offset is one of the code.
-/
import Bytecode.Proofs.ClassFile.Range
import Bytecode.Proofs.Machine.Blame
import Bytecode.Proofs.Octets.Range

namespace Bytecode

/-! ## Instructions -/

abbrev Form.read? (form : Form) : RangedReader ReadError Instruction :=
  form.reading RangedReader

abbrev Decoded.read? : RangedReader DecodeError Decoded := reading RangedReader

theorem Form.inRange_read : ∀ form : Form, form.read.InRange form.read?
  | fixed i => .pure i
  | signed8 _ => Reader.inRange_i8.map _
  | signed16 _ => Reader.inRange_i16.map _
  | unsigned8 _ => Reader.inRange_u8.map _
  | unsigned16 _ => Reader.inRange_u16.map _
  | slotAndDelta _ => Reader.inRange_u8.bind fun _ => Reader.inRange_i8.bind fun _ => .pure _

namespace Decoded

theorem inRange_read : read.InRange read? := by
  refine Reader.inRange_offset.bind fun start => (Reader.inRange_u8.withError _).bind fun tag => ?_
  cases Opcode.ofTag? tag with
  | none => exact Reader.inRange_fail _
  | some op => exact (op.form.inRange_read.withError _).bind fun i => .pure _

def steps? : Nat → Cursor → Option (List (Nat × Except DecodeError Decoded × Nat))
  | 0, _ => some []
  | fuel + 1, c => do
    if ← c.isEmpty? then return []
    else
      match ← read?.run c with
      | (.ok d, c') =>
        let rest ← steps? fuel c'
        return (c.offset, .ok d, c'.offset) :: rest
      | (.error e, c') => return [(c.offset, .error e, c'.offset)]

def linear? (code : Octets) : Option (List (Nat × Except DecodeError Decoded × Nat)) :=
  steps? code.length (.ofOctets code)

theorem steps?_eq (fuel : Nat) {c : Cursor} (h : c.InBounds) :
    steps? fuel c = some (steps fuel c) := by
  induction fuel generalizing c with
  | zero => rfl
  | succ fuel ih =>
    obtain ⟨hrun, hreaches⟩ := inRange_read c h
    simp only [steps?, steps, h.isEmpty?_eq, hrun, Option.bind_eq_bind, Option.bind_some]
    cases c.isEmpty with
    | true => rfl
    | false =>
      generalize read.run c = out at hreaches
      obtain ⟨e | d, c'⟩ := out
      · rfl
      · simp only [ih hreaches.inBounds]
        rfl

theorem linear?_eq (code : Octets) : linear? code = some (linear code) :=
  steps?_eq code.length (Cursor.inBounds_ofOctets code)

end Decoded

def fetch? (code : Octets) (pc : Nat) : Option (Except RunError (Decoded × Nat)) := do
  let c := Cursor.place code pc
  if ← c.isEmpty? then return .error (.codeOverrun pc)
  else
    match ← Decoded.read?.run c with
    | (.ok d, c') => return .ok (d, c'.offset)
    | (.error (.unknownOpcode tag), _) => return .error (.unsupportedOpcode tag pc)
    | (.error .truncated, _) => return .error (.codeOverrun pc)

theorem fetch?_eq {code : Octets} {pc : Nat} (h : pc ≤ code.length) :
    fetch? code pc = some (fetch code pc) := by
  have hc := Cursor.inBounds_place h
  obtain ⟨hrun, -⟩ := Decoded.inRange_read _ hc
  simp only [fetch?, fetch, hc.isEmpty?_eq, hrun, Option.bind_eq_bind, Option.bind_some]
  cases (Cursor.place code pc).isEmpty with
  | true => rfl
  | false =>
    generalize Decoded.read.run (Cursor.place code pc) = out
    obtain ⟨(tag | _) | d, c'⟩ := out
    · rfl
    · rfl
    · rfl

/-! ## The contents of a `Code` attribute -/

theorem Code.inRange_read : Code.read.InRange Code.read? :=
  Code.confined_read.inRange

/-! ## Descriptors -/

namespace Descriptor

/-- The number of argument slots of a method descriptor, counted in what stands before the first
    `)`. -/
def argCount? (descriptor : String) : Option (Except FormatError Nat) :=
  match descriptor.toList with
  | '(' :: cs =>
    match cs.findIdx? (· = ')') with
    | none => some (.error (.badDescriptor descriptor))
    | some i => do
      let args ← Ranged.slice cs 0 i
      match countFrom .between 0 (args ++ [')']) with
      | some n => return .ok n
      | none => return .error (.badDescriptor descriptor)
  | _ => some (.error (.badDescriptor descriptor))

/-- Units are counted up to the first `)`, and what comes after it does not matter. -/
theorem countFrom_take {i : Nat} {cs : List Char} (h : cs.findIdx? (· = ')') = some i)
    (place : Place) (n : Nat) : countFrom place n (cs.take i ++ [')']) = countFrom place n cs := by
  induction cs generalizing i place n with
  | nil => cases h
  | cons c cs ih =>
    rw [List.findIdx?_cons] at h
    by_cases hc : c = ')'
    · rw [decide_eq_true hc, if_pos rfl] at h
      obtain rfl := Option.some.inj h
      simp only [List.take_zero, List.nil_append, countFrom, if_pos hc, if_pos]
    · rw [decide_eq_false hc, if_neg Bool.false_ne_true, Option.map_eq_some_iff] at h
      obtain ⟨j, hj, rfl⟩ := h
      simp only [List.take_succ_cons, List.cons_append, countFrom, if_neg hc, ih hj]

/-- Without a `)` there is no end to the units. -/
theorem countFrom_of_findIdx? {cs : List Char} (h : cs.findIdx? (· = ')') = none)
    (place : Place) (n : Nat) : countFrom place n cs = none := by
  rw [List.findIdx?_eq_none_iff] at h
  induction cs generalizing place n with
  | nil => rfl
  | cons c cs ih =>
    rw [List.forall_mem_cons] at h
    have hc : c ≠ ')' := of_decide_eq_false h.1
    simp only [countFrom, if_neg hc, ih h.2]
    cases place <;> simp only [ite_self]

theorem argCount?_eq (descriptor : String) : argCount? descriptor = some (argCount descriptor) := by
  unfold argCount? argCount
  generalize descriptor.toList = chars
  split
  · rename_i cs
    cases hi : cs.findIdx? (· = ')') with
    | none => simp only [countFrom_of_findIdx? hi]
    | some i =>
      have hlt : i < cs.length := (List.findIdx?_eq_some_iff_getElem.1 hi).1
      simp only [Ranged.slice_of_le (Nat.zero_le i) (Nat.le_of_lt hlt), List.drop_zero,
        Nat.sub_zero, Option.bind_eq_bind, Option.bind_some, countFrom_take hi]
      cases countFrom .between 0 cs <;> rfl
  · -- a descriptor that does not start with `(` is refused by both
    simp only

end Descriptor

/-! ## Frames -/

namespace Frame

/-- Pops the arguments of a call, as many as the descriptor says: what lies on the stack, the bottom
    first, is split where they start. -/
def popArgs? (offset : Nat) (descriptor : String) (f : Frame) :
    Option (Except RunError (List Value × Frame)) := do
  match ← Descriptor.argCount? descriptor with
  | .error e => return .error (.format e)
  | .ok n =>
    if f.stack.length < n then return .error (.stackUnderflow offset)
    else
      let split ← Ranged.sub f.stack.length n
      let args ← Ranged.slice f.stack.reverse split f.stack.length
      let kept ← Ranged.slice f.stack.reverse 0 split
      return .ok (args, { f with stack := kept.reverse })

theorem popArgs?_eq (offset : Nat) (descriptor : String) (f : Frame) :
    f.popArgs? offset descriptor = some (f.popArgs offset descriptor) := by
  unfold popArgs? popArgs
  rw [Descriptor.argCount?_eq]
  cases Descriptor.argCount descriptor with
  | error e => rfl
  | ok n =>
    simp only [Option.bind_some, RunError.ofFormat, Except.mapError_ok, bind, Except.bind]
    by_cases hn : f.stack.length < n
    · rw [if_pos hn, if_pos hn]
      rfl
    · have hle := Nat.le_of_not_lt hn
      have hlength := f.stack.length_reverse
      -- The arguments, from the bottom up, are the top of the stack turned round.
      have hargs : (f.stack.reverse.drop (f.stack.length - n)).take
          (f.stack.length - (f.stack.length - n)) = (f.stack.take n).reverse := by
        rw [List.take_of_length_le (by simp), List.reverse_take]
      have hkept : (f.stack.reverse.take (f.stack.length - n)).reverse = f.stack.drop n := by
        rw [List.take_reverse, List.reverse_reverse, Nat.sub_sub_self hle]
      rw [if_neg hn, if_neg hn, Ranged.sub_of_le hle, Option.bind_some,
        Ranged.slice_of_le (by omega) (by omega), Option.bind_some,
        Ranged.slice_of_le (Nat.zero_le _) (by omega), Option.bind_some, hargs, List.drop_zero,
        Nat.sub_zero, hkept]
      rfl

def jump? (code : Octets) (offset : Nat) (distance : Int16) (f : Frame) :
    Option (Except RunError Frame) := do
  let target := (offset : Int) + distance.toInt
  if target < 0 then return .error (.branchOutOfBounds offset target)
  else
    let pc ← Ranged.toNat target
    if code.length ≤ pc then return .error (.branchOutOfBounds offset target)
    else return .ok { f with pc }

theorem jump?_eq (code : Octets) (offset : Nat) (distance : Int16) (f : Frame) :
    f.jump? code offset distance = some (f.jump code offset distance) := by
  unfold jump? jump
  dsimp only
  generalize (offset : Int) + distance.toInt = target
  by_cases hneg : target < 0
  · rw [if_pos hneg, if_pos (.inl hneg)]
    rfl
  · rw [if_neg hneg, Ranged.toNat_of_nonneg (by omega), Option.bind_eq_bind, Option.bind_some]
    by_cases hend : code.length ≤ target.toNat
    · rw [if_pos hend, if_pos (.inr (by omega))]
      rfl
    · rw [if_neg hend, if_neg (by omega)]
      rfl

end Frame

/-! ## Runs -/

theorem Machine.fetch?_of_visits {m : Machine} {fuel : Nat} {className method : String}
    {given : List Value} {w : World} {start p : Point}
    (hstart : m.firstPoint? fuel className method given w = some start) (h : start.Visits m p) :
    p.frame.pc ≤ p.routine.code.length ∧
      fetch? p.routine.code p.frame.pc = some (fetch p.routine.code p.frame.pc) := by
  obtain ⟨owner, name, code, -, hruns⟩ := runs_of_visits hstart h
  have hpc : p.frame.pc ≤ p.routine.code.length := hruns.octets ▸ hruns.pc
  exact ⟨hpc, fetch?_eq hpc⟩

end Bytecode
