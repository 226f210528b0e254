/-
  Code from its instructions.

  In code an instruction is its tag and the operands that the row of the tag takes.  An operand that
  the tag stands for, like the slot of `iload_0`, is not written.  So the tag and the instruction
  give back the octets they were decoded from, and what is decoded at an offset depends on these
  octets alone.

  * `fetch_eq_ok_iff_drop`: what is fetched, from the octets ahead; `drop_of_fetch`: the octets
    ahead, from what is fetched.
-/
import Bytecode.Proofs.Code.Linear

namespace Bytecode

/-! ## Instructions as octets -/

def Instruction.operandOctets : Instruction → Octets
  | nop | constInt _ | pop | dup | addInt | subInt | returnInt | returnRef | returnVoid => []
  | pushByte n => [n.toUInt8]
  | loadConstant i | loadInt i | loadRef i | storeInt i | storeRef i => [i]
  | incInt slot delta => [slot, delta.toUInt8]
  | pushShort n | ifNotZero n | ifNotEqualInt n | ifGreaterEqualInt n | goto n =>
    BigEndian.encode 2 n.toUInt16.toNat
  | getStatic i | getField i | putField i | invokeVirtual i | invokeSpecial i | invokeStatic i
  | new i => BigEndian.encode 2 i.toNat

/-- How many octets an instruction with this tag takes. -/
def Opcode.length (tag : UInt8) : Nat :=
  match ofTag? tag with
  | none => 1
  | some op => 1 + op.form.width

/-- An instruction as it stands in code, with the tag it is written by. -/
def Instruction.octets (tag : UInt8) (i : Instruction) : Octets :=
  (tag :: i.operandOctets).take (Opcode.length tag)

theorem Opcode.length_of_ofTag? {tag : UInt8} {op : Opcode} (h : ofTag? tag = some op) :
    length tag = 1 + op.form.width := by
  rw [length, h]

theorem Form.width_le_two (form : Form) : form.width ≤ 2 := by
  cases form <;> simp [width]

theorem Opcode.one_le_length (tag : UInt8) : 1 ≤ length tag := by
  unfold length
  split <;> omega

theorem Opcode.length_le_three (tag : UInt8) : length tag ≤ 3 := by
  unfold length
  split
  · decide
  · next op _ =>
    have hwidth := op.form.width_le_two
    omega

/-! ## Operands are kept -/

namespace BigEndian

theorem ofNat_decode_of_length_one {bs : Octets} (h : bs.length = 1) :
    [UInt8.ofNat (decode bs)] = bs := by
  obtain ⟨b, rfl⟩ := List.length_eq_one_iff.1 h
  simp [decode]

theorem encode_decode_of_length_two {bs : Octets} (h : bs.length = 2) :
    encode 2 (UInt16.ofNat (decode bs)).toNat = bs := by
  have hlt := decode_lt bs
  rw [h] at hlt
  rw [UInt16.toNat_ofNat_of_lt' hlt, ← h, encode_decode]

end BigEndian

namespace Form

/-- The operands of the form can be told from the instruction they make. -/
def Keeps : Form → Prop
  | fixed _ => True
  | signed8 f => ∀ n, (f n).operandOctets = [n.toUInt8]
  | signed16 f => ∀ n, (f n).operandOctets = BigEndian.encode 2 n.toUInt16.toNat
  | unsigned8 f => ∀ n, (f n).operandOctets = [n]
  | unsigned16 f => ∀ n, (f n).operandOctets = BigEndian.encode 2 n.toNat
  | slotAndDelta f => ∀ slot delta, (f slot delta).operandOctets = [slot, delta.toUInt8]

theorem Keeps.operandOctets_make {form : Form} (h : form.Keeps) {bs : Octets}
    (hlen : bs.length = form.width) :
    (form.make bs).operandOctets.take form.width = bs := by
  cases form with
  | fixed i => exact (List.eq_nil_of_length_eq_zero hlen).symm
  | signed8 f =>
    rw [make, h, UInt8.toUInt8_toInt8, BigEndian.ofNat_decode_of_length_one hlen]
    exact List.take_of_length_le (Nat.le_of_eq hlen)
  | signed16 f =>
    rw [make, h, UInt16.toUInt16_toInt16, BigEndian.encode_decode_of_length_two hlen]
    exact List.take_of_length_le (Nat.le_of_eq hlen)
  | unsigned8 f =>
    rw [make, h, BigEndian.ofNat_decode_of_length_one hlen]
    exact List.take_of_length_le (Nat.le_of_eq hlen)
  | unsigned16 f =>
    rw [make, h, BigEndian.encode_decode_of_length_two hlen]
    exact List.take_of_length_le (Nat.le_of_eq hlen)
  | slotAndDelta f =>
    obtain ⟨slot, rest, rfl⟩ := List.exists_cons_of_length_eq_add_one hlen
    obtain ⟨delta, rfl⟩ := List.length_eq_one_iff.1 (Nat.succ.inj hlen)
    rw [make, h, UInt8.toUInt8_toInt8]
    simp [BigEndian.decode, width]

end Form

theorem Opcode.keeps_of_mem : ∀ op ∈ table, op.form.Keeps := by
  simp [table, Form.Keeps, Instruction.operandOctets]

theorem Opcode.keeps_of_ofTag? {tag : UInt8} {op : Opcode} (h : ofTag? tag = some op) :
    op.form.Keeps :=
  keeps_of_mem op (List.mem_of_find?_eq_some h)

theorem Instruction.octets_make {op : Opcode} (hop : Opcode.ofTag? op.tag = some op) {bs : Octets}
    (hlen : bs.length = op.form.width) : (op.form.make bs).octets op.tag = op.tag :: bs := by
  rw [octets, Opcode.length_of_ofTag? hop, Nat.add_comm, List.take_succ_cons,
    (Opcode.keeps_of_ofTag? hop).operandOctets_make hlen]

/-! ## What is fetched, and the octets ahead -/

section
variable {code : Octets} {pc next : Nat} {d : Decoded}

theorem fetch_eq_ok_iff_drop :
    fetch code pc = .ok (d, next) ↔
      ∃ op bs rest, Opcode.ofTag? op.tag = some op ∧ bs.length = op.form.width ∧
        code.drop pc = op.tag :: (bs ++ rest) ∧
        d = ⟨pc, op.tag, op.mnemonic, op.form.make bs⟩ ∧ next = pc + 1 + op.form.width := by
  rw [fetch_eq_ok_iff]
  constructor
  · rintro ⟨op, hat, hwhole, rfl, rfl⟩
    cases hrest : code.drop pc with
    | nil =>
      have hend := List.drop_eq_nil_iff.1 hrest
      omega
    | cons tag rest =>
      obtain ⟨-, hat', hdrop, hlen⟩ := at?_of_drop hrest
      have hop : Opcode.ofTag? tag = some op := hat' ▸ hat
      obtain rfl := Opcode.tag_of_ofTag? hop
      refine ⟨op, rest.take op.form.width, rest.drop op.form.width, hop, ?_, ?_, ?_, rfl⟩
      · exact List.length_take_of_le (by omega)
      · rw [List.take_append_drop]
      · rw [hdrop]
  · rintro ⟨op, bs, rest, hop, hlen, hrest, rfl, rfl⟩
    obtain ⟨-, hat, hdrop, hcode⟩ := at?_of_drop hrest
    refine ⟨op, hat.trans hop, ?_, ?_, rfl⟩
    · rw [List.length_append] at hcode
      omega
    · rw [hdrop, ← hlen, List.take_left]

/-- What is fetched stands in the code as its own octets. -/
theorem drop_of_fetch (h : fetch code pc = .ok (d, next)) :
    code.drop pc = d.instruction.octets d.tag ++ code.drop next := by
  obtain ⟨op, bs, rest, hop, hlen, hrest, rfl, rfl⟩ := fetch_eq_ok_iff_drop.1 h
  have hnext : code.drop (pc + 1 + op.form.width) = rest := by
    rw [← hlen, Nat.add_assoc, ← List.drop_drop, hrest, Nat.add_comm, List.drop_succ_cons,
      List.drop_left]
  rw [Instruction.octets_make hop hlen, hnext, hrest, List.cons_append]

/-- The tag says how far it is to the next instruction. -/
theorem next_of_fetch (h : fetch code pc = .ok (d, next)) :
    d.start = pc ∧ code[pc]? = some d.tag ∧ next = pc + Opcode.length d.tag ∧
      next ≤ code.length := by
  obtain ⟨op, bs, rest, hop, hlen, hrest, rfl, rfl⟩ := fetch_eq_ok_iff_drop.1 h
  obtain ⟨hget, -, -, hcode⟩ := at?_of_drop hrest
  rw [List.length_append] at hcode
  refine ⟨rfl, hget, ?_, by omega⟩
  rw [Opcode.length_of_ofTag? hop, Nat.add_assoc]

end

namespace Decoded

variable {code code' : Octets} {pc next : Nat} {d : Decoded} {c : Cursor}

theorem fetch_of_run_read (h : read.run (Cursor.place code pc) = (.ok d, c)) :
    ∃ next, fetch code pc = .ok (d, next) ∧ c = Cursor.place code next := by
  cases hfetch : fetch code pc with
  | ok found =>
    obtain ⟨d', next⟩ := found
    rw [run_read_of_fetch hfetch] at h
    obtain ⟨hd, rfl⟩ := Prod.mk.inj h
    obtain rfl := Except.ok.inj hd
    exact ⟨next, rfl, rfl⟩
  | error e =>
    rcases Nat.lt_or_ge pc code.length with hpc | hpc
    · obtain ⟨e', c', hread, -⟩ := run_read_of_fetch_error hpc hfetch
      rw [hread] at h
      cases h
    · -- Behind the end there is not even a tag.
      obtain ⟨start, c', hoffset, h⟩ := Reader.run_bind_eq_ok.1 h
      obtain ⟨-, rfl⟩ := Prod.mk.inj hoffset
      obtain ⟨tag, c', htag, -⟩ := Reader.run_bind_eq_ok.1 h
      obtain ⟨bs, ⟨-, rfl⟩, hpre, -⟩ :=
        (Reader.recognizes_u8 _ _ _).1 (Reader.run_withError_eq_ok.1 htag)
      rw [Cursor.rest_place, List.drop_of_length_le hpc] at hpre
      cases List.prefix_nil.1 hpre

/-- An instruction is decoded wherever its octets are ahead. -/
theorem run_read_of_prefix (h : fetch code pc = .ok (d, next)) {pc' : Nat}
    (hpre : (code.drop pc).take (Opcode.length d.tag) <+: code'.drop pc') :
    read.run (Cursor.place code' pc') =
      (.ok { d with start := pc' }, Cursor.place code' (pc' + Opcode.length d.tag)) := by
  obtain ⟨op, bs, rest, hop, hlen, hrest, rfl, -⟩ := fetch_eq_ok_iff_drop.1 h
  dsimp only at hpre ⊢
  rw [Opcode.length_of_ofTag? hop, hrest, Nat.add_comm, List.take_succ_cons, ← hlen,
    List.take_left] at hpre
  obtain ⟨rest', hrest'⟩ := hpre
  rw [Opcode.length_of_ofTag? hop, ← Nat.add_assoc]
  exact run_read_of_fetch (fetch_eq_ok_iff_drop.2 ⟨op, bs, rest', hop, hlen, hrest'.symm, rfl, rfl⟩)

/-! ## Code without failures -/

/-- The linear decoding of the code does not fail, and these are the tags and the instructions that
    it gives. -/
def Spells (code : Octets) (ps : List (UInt8 × Instruction)) : Prop :=
  (linear code).map (fun step => step.2.1.toOption.map fun d => (d.tag, d.instruction)) =
    ps.map some

theorem Tiles.drop_eq {steps : List (Nat × Except DecodeError Decoded × Nat)}
    {ps : List (UInt8 × Instruction)} (h : Tiles code pc steps)
    (hps : steps.map (fun step => step.2.1.toOption.map fun d => (d.tag, d.instruction)) =
      ps.map some) :
    code.drop pc = ps.flatMap fun p => p.2.octets p.1 := by
  induction h generalizing ps with
  | done =>
    obtain rfl := List.map_eq_nil_iff.1 hps.symm
    exact List.drop_length
  | step hfetch hrest ih =>
    obtain ⟨p, ps', rfl, hp, hps'⟩ := List.map_eq_cons_iff.1 hps.symm
    obtain rfl := Option.some.inj hp
    rw [List.flatMap_cons, drop_of_fetch hfetch, ih hps'.symm]
  | fail hpc hfetch next =>
    obtain ⟨p, ps', rfl, hp, -⟩ := List.map_eq_cons_iff.1 hps.symm
    cases hp

/-- Code is what is written for the instructions it decodes to. -/
theorem Spells.eq_octets {ps : List (UInt8 × Instruction)} (h : Spells code ps) :
    code = ps.flatMap fun p => p.2.octets p.1 :=
  (linear_tiles code).drop_eq h

/-- **Decoding loses nothing.**  Codes that decode without a failure to the same tags and
    instructions are equal.  A decoded instruction takes one to three octets, as many as its tag
    says, and it is decoded wherever these octets are ahead, whatever stands around them. -/
theorem decoding_keeps_octets :
    (∀ (code code' : Octets) (ps : List (UInt8 × Instruction)),
      Spells code ps → Spells code' ps → code = code') ∧
    ∀ (code : Octets) (pc : Nat) (d : Decoded) (c : Cursor),
      read.run (Cursor.place code pc) = (.ok d, c) →
        d.start = pc ∧ code[pc]? = some d.tag ∧
        1 ≤ Opcode.length d.tag ∧ Opcode.length d.tag ≤ 3 ∧
        c = Cursor.place code (pc + Opcode.length d.tag) ∧
        pc + Opcode.length d.tag ≤ code.length ∧
        ∀ (code' : Octets) (pc' : Nat),
          (code.drop pc).take (Opcode.length d.tag) <+: code'.drop pc' →
            read.run (Cursor.place code' pc') =
              (.ok { d with start := pc' }, Cursor.place code' (pc' + Opcode.length d.tag)) := by
  refine ⟨fun code code' ps h h' => h.eq_octets.trans h'.eq_octets.symm, ?_⟩
  intro code pc d c hread
  obtain ⟨next, hfetch, rfl⟩ := fetch_of_run_read hread
  obtain ⟨hstart, htag, rfl, hwithin⟩ := next_of_fetch hfetch
  refine ⟨hstart, htag, Opcode.one_le_length _, Opcode.length_le_three _, rfl, hwithin, ?_⟩
  intro code' pc' hpre
  exact run_read_of_prefix hfetch hpre

/-- Two ways to load from slot 0, with a branch and a decrement between them. -/
def twoLoads : List (UInt8 × Instruction) :=
  [(0x15, .loadInt 0), (0xa7, .goto (-2)), (0x84, .incInt 2 (-2)), (0x1a, .loadInt 0)]

/-- The code is put together again from what it decodes to, and its third instruction is decoded at
    the end of other code too. -/
theorem decoding_keeps_octets_twoLoads :
    Spells [0x15, 0, 0xa7, 0xff, 0xfe, 0x84, 2, 0xfe, 0x1a] twoLoads ∧
      [0x15, 0, 0xa7, 0xff, 0xfe, 0x84, 2, 0xfe, 0x1a] =
        twoLoads.flatMap (fun p => p.2.octets p.1) ∧
      read.run (Cursor.place [0xff, 0x84, 2, 0xfe] 1) =
        (.ok ⟨1, 0x84, "iinc", .incInt 2 (-2)⟩, Cursor.place [0xff, 0x84, 2, 0xfe] 4) := by
  have hcode : Spells [0x15, 0, 0xa7, 0xff, 0xfe, 0x84, 2, 0xfe, 0x1a] twoLoads := by
    unfold Spells
    decide +kernel
  have hassembled : Spells (twoLoads.flatMap fun p => p.2.octets p.1) twoLoads := by
    unfold Spells
    decide +kernel
  have hread : read.run (Cursor.place [0x15, 0, 0xa7, 0xff, 0xfe, 0x84, 2, 0xfe, 0x1a] 5) =
      (.ok ⟨5, 0x84, "iinc", .incInt 2 (-2)⟩, Cursor.place _ 8) := rfl
  obtain ⟨-, -, -, -, -, -, hagain⟩ := decoding_keeps_octets.2 _ _ _ _ hread
  exact ⟨hcode, decoding_keeps_octets.1 _ _ _ hcode hassembled,
    hagain [0xff, 0x84, 2, 0xfe] 1 (by decide +kernel)⟩

end Decoded

end Bytecode
