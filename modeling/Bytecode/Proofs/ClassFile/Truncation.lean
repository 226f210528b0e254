/-
  A class file says where it ends.

  Every part of a class file comes with its count or its length, so what follows the file has no
  say in how it is read, and a file that is cut off anywhere is found out to be cut off: reading
  fails for want of octets, before anything else can be wrong with it.

  * `selfDelimiting_read` says so of each part, by the parts it is made of.
-/
import Bytecode.ClassFile.Decode
import Bytecode.Proofs.Octets.Delimited

namespace Bytecode

open Reader (SelfDelimiting selfDelimiting_index selfDelimiting_take selfDelimiting_u8
  selfDelimiting_u16 selfDelimiting_u32 selfDelimiting_i32)

/-- The error that a class file lacks octets. -/
def FormatError.short (missing : Nat) : FormatError :=
  .malformed (.incomplete missing)

theorem Reader.SelfDelimiting.lift {α : Type} {r : Reader ReadError α}
    (h : r.SelfDelimiting ReadError.incomplete) :
    (liftM r : Reader FormatError α).SelfDelimiting FormatError.short :=
  h.withError FormatError.malformed

/-! ## Constants -/

theorem Constant.selfDelimiting_readBody (kind : ConstantKind) :
    (Constant.readBody kind).SelfDelimiting ReadError.incomplete := by
  have hpair := fun make : Nat → Nat → Constant => selfDelimiting_index.bind fun i =>
    selfDelimiting_index.bind fun j => SelfDelimiting.pure (make i j)
  cases kind with
  | utf8 => exact selfDelimiting_index.bind fun length => (selfDelimiting_take length).map utf8
  | integer => exact selfDelimiting_i32.map integer
  | classRef => exact selfDelimiting_index.map classRef
  | string => exact selfDelimiting_index.map string
  | member m => exact hpair (member m)
  | nameAndType => exact hpair nameAndType
  | methodHandle =>
    exact selfDelimiting_u8.bind fun kind => selfDelimiting_index.bind fun i =>
      .pure (methodHandle kind i)
  | methodType => exact selfDelimiting_index.map methodType
  | invokeDynamic => exact hpair invokeDynamic

theorem Constant.selfDelimiting_read : Constant.read.SelfDelimiting FormatError.short := by
  refine selfDelimiting_u8.lift.bind fun tag => ?_
  cases ConstantKind.ofTag? tag with
  | none => exact Reader.selfDelimiting_fail _
  | some kind => exact (selfDelimiting_readBody kind).lift

theorem Pool.selfDelimiting_read : Pool.read.SelfDelimiting FormatError.short := by
  refine selfDelimiting_index.lift.bind fun count => ?_
  cases count with
  | zero => exact Reader.selfDelimiting_fail _
  | succ n => exact (Constant.selfDelimiting_read.many n).map Pool.mk

/-! ## Attributes and members -/

theorem Attribute.selfDelimiting_read : Attribute.read.SelfDelimiting FormatError.short :=
  selfDelimiting_index.lift.bind fun name => selfDelimiting_u32.lift.bind fun length =>
    (selfDelimiting_take length.toNat).lift.bind fun info => .pure (Attribute.mk name info)

theorem Attribute.selfDelimiting_readTable :
    Attribute.readTable.SelfDelimiting FormatError.short :=
  selfDelimiting_index.lift.bind fun n => Attribute.selfDelimiting_read.many n

theorem Member.selfDelimiting_read : Member.read.SelfDelimiting FormatError.short :=
  selfDelimiting_u16.lift.bind fun access => selfDelimiting_index.lift.bind fun name =>
    selfDelimiting_index.lift.bind fun descriptor => Attribute.selfDelimiting_readTable.bind
      fun attributes => .pure (Member.mk ⟨access⟩ name descriptor attributes)

theorem Member.selfDelimiting_readTable : Member.readTable.SelfDelimiting FormatError.short :=
  selfDelimiting_index.lift.bind fun n => Member.selfDelimiting_read.many n

/-! ## Class files -/

theorem Version.selfDelimiting_read : Version.read.SelfDelimiting ReadError.incomplete :=
  selfDelimiting_u16.bind fun minor => selfDelimiting_u16.bind fun major =>
    .pure (Version.mk major minor)

namespace ClassFile

theorem selfDelimiting_read : ClassFile.read.SelfDelimiting FormatError.short := by
  refine selfDelimiting_u32.lift.bind fun n => ?_
  by_cases hn : n ≠ magic
  · rw [if_pos hn]
    exact Reader.selfDelimiting_fail _
  · rw [if_neg hn]
    exact Version.selfDelimiting_read.lift.bind fun version =>
      Pool.selfDelimiting_read.bind fun pool => selfDelimiting_u16.lift.bind fun access =>
      selfDelimiting_index.lift.bind fun thisClass => selfDelimiting_index.lift.bind
        fun superClass => selfDelimiting_index.lift.bind fun interfaces =>
      (selfDelimiting_take (interfaces * 2)).lift.bind fun _ =>
      Member.selfDelimiting_readTable.bind fun fields => Member.selfDelimiting_readTable.bind
        fun methods => Attribute.selfDelimiting_readTable.bind fun attributes =>
      .pure (ClassFile.mk version pool ⟨access⟩ thisClass superClass fields methods attributes)

/-- **A class file says where it ends, and cutting it off is found out.**  If a class file is read
    from the first `n` octets of a string, then every string that starts with them is read as the
    same class file up to the same place, and of every shorter beginning it is reported that octets
    are missing, at least one and no more than the `n` octets would need. -/
theorem read_delimited {b : Octets} {cls : ClassFile} {c : Cursor}
    (h : ClassFile.read.run (.ofOctets b) = (.ok cls, c)) :
    c.offset ≤ b.length ∧
    (∀ b', b.take c.offset <+: b' →
      ClassFile.read.run (.ofOctets b') = (.ok cls, .place b' c.offset)) ∧
    ∀ m < c.offset, ∃ k, 1 ≤ k ∧ k ≤ c.offset - m ∧
      ClassFile.parse (b.take m) = .error (.malformed (.incomplete k)) := by
  obtain ⟨bs, hpre, hread⟩ := selfDelimiting_read _ _ _ h
  have hlen : bs.length ≤ b.length := List.IsPrefix.length_le hpre
  have hc : (Cursor.ofOctets b).advance bs.length = c :=
    (Prod.mk.inj ((hread.whole _ hpre).symm.trans h)).2
  have hoffset : c.offset = bs.length := by
    rw [← hc, Cursor.offset_advance]
    exact Nat.zero_add _
  have hbs : b.take bs.length = bs := (List.prefix_iff_eq_take.1 hpre).symm
  rw [hoffset, hbs]
  refine ⟨hlen, fun b' hb' => ?_, fun m hm => ?_⟩
  · rw [hread.whole (.ofOctets b') hb', Cursor.ofOctets_eq, Cursor.advance_place, Nat.zero_add]
  · have hcut : b.take m <+: bs := by
      rw [← hbs]
      exact List.take_prefix_take_left (Nat.le_of_lt hm)
    have hlength : (Cursor.ofOctets (b.take m)).remaining = m :=
      List.length_take_of_le (Nat.le_trans (Nat.le_of_lt hm) hlen)
    obtain ⟨k, c', hrun, hpos, hle⟩ :=
      hread.cut (.ofOctets (b.take m)) hcut (by rw [hlength]; exact hm)
    rw [hlength] at hle
    exact ⟨k, hpos, hle, congrArg Prod.fst hrun⟩

/-- A class with an interface and a method, and an octet behind it, cut off within the attribute
    of the method. -/
theorem read_delimited_attribute :
    let b : Octets := [0xca, 0xfe, 0xba, 0xbe, 0, 0, 0, 52, 0, 3, 1, 0, 1, 0x41, 7, 0, 1, 0, 0x21,
      0, 2, 0, 0, 0, 1, 0, 2, 0, 0, 0, 1, 0, 9, 0, 1, 0, 1, 0, 1, 0, 1, 0, 0, 0, 4, 1, 2, 3, 4,
      0, 0, 0xff]
    let cls : ClassFile := ⟨⟨52, 0⟩, ⟨[.utf8 [0x41], .classRef 1]⟩, ⟨0x21⟩, 2, 0, [],
      [⟨⟨9⟩, 1, 1, [⟨1, [1, 2, 3, 4]⟩]⟩], []⟩
    ClassFile.read.run (.ofOctets b) = (.ok cls, .place b 51) ∧
      ClassFile.read.run (.ofOctets (b.take 51)) = (.ok cls, .place (b.take 51) 51) ∧
      ∃ k, 1 ≤ k ∧ k ≤ 51 - 47 ∧
        ClassFile.parse (b.take 47) = .error (.malformed (.incomplete k)) := by
  intro b cls
  have h : ClassFile.read.run (.ofOctets b) = (.ok cls, .place b 51) := by cbv
  obtain ⟨-, hsame, hcut⟩ := read_delimited h
  exact ⟨h, hsame _ (List.prefix_refl _), hcut 47 (by decide)⟩

end ClassFile

end Bytecode
