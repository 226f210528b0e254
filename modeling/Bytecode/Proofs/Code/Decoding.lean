/-
  What is fetched from code.

  An instruction is the octet that names its row of the table and as many octets behind it as the
  form of the row takes (`Form.width`); `Form.make` is the instruction that these operands make.

  * `Form.run_read`, `Form.run_read_short`: operands are read if they are all there, and only then;
  * `fetch_eq`: what `fetch` gives, from the octets at its offset;
  * `fetch_eq_ok_iff`: the instructions that are fetched, `reason_of_fetch_error`: the
    reasons why none is.
-/
import Bytecode.Machine.Frame
import Bytecode.Proofs.Octets.Grammar

namespace Bytecode

namespace Reader

theorem run_number (w : Nat) (c : Cursor) :
    (number w).run c =
      if c.remaining < w then (.error (.incomplete (w - c.remaining)), c)
      else (.ok (BigEndian.decode (c.rest.take w)), c.advance w) := by
  have htake : (take w).run c = c.take w := rfl
  rw [number, run_map, htake, Cursor.take, Cursor.peek_eq]
  by_cases h : c.remaining < w
  · rw [if_pos h, if_pos h]
  · rw [if_neg h, if_neg h]

end Reader

namespace Form

/-- The instruction that operands make. -/
def make : Form → Octets → Instruction
  | fixed i, _ => i
  | signed8 f, bs => f (UInt8.ofNat (BigEndian.decode bs)).toInt8
  | signed16 f, bs => f (UInt16.ofNat (BigEndian.decode bs)).toInt16
  | unsigned8 f, bs => f (UInt8.ofNat (BigEndian.decode bs))
  | unsigned16 f, bs => f (UInt16.ofNat (BigEndian.decode bs))
  | slotAndDelta f, bs =>
    f (UInt8.ofNat (BigEndian.decode (bs.take 1)))
      (UInt8.ofNat (BigEndian.decode (bs.drop 1))).toInt8

variable {form : Form} {c : Cursor}

theorem run_read (h : form.width ≤ c.remaining) :
    form.read.run c = (.ok (form.make (c.rest.take form.width)), c.advance form.width) := by
  have hlong := Nat.not_lt.2 h
  cases form with
  | fixed i => simp [reading, make, width, Cursor.ext_iff]
  | signed8 f | unsigned8 f =>
    simp only [width] at hlong
    simp only [reading, make, width, Reader.i8_eq, Reader.u8_eq, Reader.run_map, Reader.run_number,
      if_neg hlong]
  | signed16 f | unsigned16 f =>
    simp only [width] at hlong
    simp only [reading, make, width, Reader.i16_eq, Reader.u16_eq, Reader.run_map,
      Reader.run_number, if_neg hlong]
  | slotAndDelta f =>
    simp only [width] at h
    have hslot : ¬ c.remaining < 1 := by omega
    have hdelta : ¬ (c.advance 1).remaining < 1 := by
      simp only [Cursor.remaining, Cursor.rest_advance, List.length_drop] at h ⊢
      omega
    simp only [reading, make, width, Reader.i8_eq, Reader.u8_eq, Reader.run_bind, Reader.run_map,
      Reader.run_number, if_neg hslot, if_neg hdelta, Reader.run_pure, Reader.advance_advance,
      Cursor.rest_advance, List.take_take, List.drop_take]
    rfl

theorem run_read_short (h : c.remaining < form.width) :
    ∃ e c', form.read.run c = (.error e, c') := by
  cases form with
  | fixed i => cases h
  | signed8 f | unsigned8 f =>
    simp only [width] at h
    simp only [reading, Reader.i8_eq, Reader.u8_eq, Reader.run_map, Reader.run_number, if_pos h]
    exact ⟨_, _, rfl⟩
  | signed16 f | unsigned16 f =>
    simp only [width] at h
    simp only [reading, Reader.i16_eq, Reader.u16_eq, Reader.run_map, Reader.run_number, if_pos h]
    exact ⟨_, _, rfl⟩
  | slotAndDelta f =>
    simp only [width] at h
    by_cases hslot : c.remaining < 1
    · simp only [reading, Reader.u8_eq, Reader.run_bind, Reader.run_map, Reader.run_number,
        if_pos hslot]
      exact ⟨_, _, rfl⟩
    · have hdelta : (c.advance 1).remaining < 1 := by
        simp only [Cursor.remaining, Cursor.rest_advance, List.length_drop] at h ⊢
        omega
      simp only [reading, Reader.i8_eq, Reader.u8_eq, Reader.run_bind, Reader.run_map,
        Reader.run_number, if_neg hslot, if_pos hdelta]
      exact ⟨_, _, rfl⟩

end Form

/-- Behind a tag that the table has, the operands of its row are read. -/
theorem Decoded.run_read {code : Octets} {pc : Nat} {tag : UInt8} {rest : Octets}
    (hrest : code.drop pc = tag :: rest) :
    Decoded.read.run (Cursor.place code pc) =
      match Opcode.ofTag? tag with
      | none => (.error (.unknownOpcode tag), Cursor.place code (pc + 1))
      | some op =>
        match op.form.read.run (Cursor.place code (pc + 1)) with
        | (.ok i, c) => (.ok ⟨pc, tag, op.mnemonic, i⟩, c)
        | (.error _, c) => (.error .truncated, c) := by
  have htag : Reader.u8.run (Cursor.place code pc) = (.ok tag, Cursor.place code (pc + 1)) := by
    rw [← Cursor.advance_place]
    exact (Reader.recognizes_u8 _ _ _).2 ⟨[tag], ⟨trivial, rfl⟩, by simp [hrest], rfl⟩
  have hlift : (liftM Reader.u8 : Reader DecodeError UInt8).run (Cursor.place code pc) =
      (.ok tag, Cursor.place code (pc + 1)) := Reader.run_withError_eq_ok.2 htag
  have hoffset : (Reading.offset : Reader DecodeError Nat).run (Cursor.place code pc) =
      (.ok pc, Cursor.place code pc) := rfl
  rw [Decoded.read, Decoded.reading, Reader.run_bind_ok hoffset, Reader.run_bind_ok hlift]
  cases Opcode.ofTag? tag with
  | none => rfl
  | some op =>
    have hoperands : (liftM op.form.read : Reader DecodeError Instruction).run
        (Cursor.place code (pc + 1)) = _ := Reader.run_withError _ _ _
    dsimp only
    rw [Reader.run_bind, hoperands]
    rcases op.form.read.run (Cursor.place code (pc + 1)) with ⟨e | i, c⟩
    · rfl
    · rfl

theorem fetch_eq (code : Octets) (pc : Nat) :
    fetch code pc =
      match code.drop pc with
      | [] => .error (.codeOverrun pc)
      | tag :: rest =>
        match Opcode.ofTag? tag with
        | none => .error (.unsupportedOpcode tag pc)
        | some op =>
          if rest.length < op.form.width then .error (.codeOverrun pc)
          else .ok (⟨pc, tag, op.mnemonic, op.form.make (rest.take op.form.width)⟩,
            pc + 1 + op.form.width) := by
  unfold fetch
  cases hrest : code.drop pc with
  | nil => simp [Cursor.isEmpty, hrest]
  | cons tag rest =>
    have hbehind : (Cursor.place code (pc + 1)).rest = rest := by
      rw [Cursor.rest_place, ← List.drop_drop, hrest]
      rfl
    simp only [Cursor.isEmpty, Cursor.rest_place, hrest, List.isEmpty_cons, Bool.false_eq_true,
      if_false, Decoded.run_read hrest]
    cases Opcode.ofTag? tag with
    | none => rfl
    | some op =>
      by_cases hshort : rest.length < op.form.width
      · have hremaining : (Cursor.place code (pc + 1)).remaining < op.form.width := by
          rw [Cursor.remaining, hbehind]
          exact hshort
        obtain ⟨e, c, hread⟩ := Form.run_read_short hremaining
        simp only [hread, if_pos hshort]
      · have hremaining : op.form.width ≤ (Cursor.place code (pc + 1)).remaining := by
          rw [Cursor.remaining, hbehind]
          exact Nat.le_of_not_lt hshort
        simp only [Form.run_read hremaining, hbehind, Cursor.offset_advance, Cursor.offset_place,
          if_neg hshort]

/-- The row of the table that the octet at an offset names. -/
def Opcode.at? (code : Octets) (offset : Nat) : Option Opcode :=
  code[offset]?.bind Opcode.ofTag?

theorem Opcode.tag_of_ofTag? {tag : UInt8} {op : Opcode} (h : ofTag? tag = some op) :
    op.tag = tag := by
  simpa using List.find?_some h

theorem Opcode.mem_of_at? {code : Octets} {offset : Nat} {op : Opcode}
    (h : at? code offset = some op) : op ∈ table := by
  obtain ⟨tag, -, hop⟩ := Option.bind_eq_some_iff.1 h
  exact List.mem_of_find?_eq_some hop

theorem at?_of_drop {code rest : Octets} {pc : Nat} {tag : UInt8}
    (h : code.drop pc = tag :: rest) :
    code[pc]? = some tag ∧ Opcode.at? code pc = Opcode.ofTag? tag ∧ code.drop (pc + 1) = rest ∧
      code.length = pc + 1 + rest.length := by
  have hget : code[pc]? = some tag := by rw [← List.head?_drop, h, List.head?_cons]
  have hdrop : code.drop (pc + 1) = rest := by
    rw [← List.drop_drop, h]
    rfl
  have hlen := congrArg List.length h
  rw [List.length_drop, List.length_cons] at hlen
  exact ⟨hget, by rw [Opcode.at?, hget]; rfl, hdrop, by omega⟩

theorem fetch_eq_ok_iff {code : Octets} {pc next : Nat} {d : Decoded} :
    fetch code pc = .ok (d, next) ↔
      ∃ op, Opcode.at? code pc = some op ∧ pc + 1 + op.form.width ≤ code.length ∧
        d = ⟨pc, op.tag, op.mnemonic, op.form.make ((code.drop (pc + 1)).take op.form.width)⟩ ∧
        next = pc + 1 + op.form.width := by
  rw [fetch_eq]
  cases hrest : code.drop pc with
  | nil =>
    have hnone : Opcode.at? code pc = none := by
      rw [Opcode.at?, ← List.head?_drop, hrest]
      rfl
    simp [hnone]
  | cons tag rest =>
    obtain ⟨-, hat, hdrop, hlen⟩ := at?_of_drop hrest
    rw [hat, hdrop, hlen]
    cases hop : Opcode.ofTag? tag with
    | none => simp [hop]
    | some op =>
      obtain rfl := Opcode.tag_of_ofTag? hop
      by_cases hshort : rest.length < op.form.width
      · simp only [hop, if_pos hshort, reduceCtorEq, Option.some.injEq, exists_eq_left', false_iff]
        omega
      · have hwhole : op.form.width ≤ rest.length := Nat.le_of_not_lt hshort
        simp only [hop, if_neg hshort, Except.ok.injEq, Prod.mk.injEq, Option.some.injEq,
          exists_eq_left', Nat.add_le_add_iff_left, hwhole, true_and]
        exact and_congr eq_comm eq_comm

/-- Nothing is fetched at the end of the code, where its octet names no row, or where the operands
    are cut short. -/
theorem reason_of_fetch_error {code : Octets} {pc : Nat} {e : RunError}
    (h : fetch code pc = .error e) :
    code.length ≤ pc ∧ e = .codeOverrun pc ∨
      (∃ tag, code[pc]? = some tag ∧ Opcode.ofTag? tag = none ∧ e = .unsupportedOpcode tag pc) ∨
      ∃ op, Opcode.at? code pc = some op ∧ code.length < pc + 1 + op.form.width ∧
        e = .codeOverrun pc := by
  rw [fetch_eq] at h
  cases hrest : code.drop pc with
  | nil =>
    rw [hrest] at h
    exact .inl ⟨List.drop_eq_nil_iff.1 hrest, (Except.error.inj h).symm⟩
  | cons tag rest =>
    obtain ⟨hget, hat, -, hlen⟩ := at?_of_drop hrest
    cases hop : Opcode.ofTag? tag with
    | none =>
      simp only [hrest, hop] at h
      exact .inr (.inl ⟨tag, hget, hop, (Except.error.inj h).symm⟩)
    | some op =>
      simp only [hrest, hop] at h
      split at h
      · next hshort =>
        refine .inr (.inr ⟨op, hat.trans hop, ?_, (Except.error.inj h).symm⟩)
        omega
      · cases h

end Bytecode
