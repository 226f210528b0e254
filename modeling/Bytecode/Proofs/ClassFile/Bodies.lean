/-
  Code in class files: what was written for a method is what is found for it.

  * `Code.parse_info`: the contents of a `Code` attribute give back the code they were written for,
    of whose two sizes the low bits are kept.
-/
import Bytecode.ClassFile.Symbols
import Bytecode.Proofs.ClassFile.Interning
import Bytecode.Proofs.ClassFile.RoundTrip

namespace Bytecode

open Reader

theorem BigEndian.encode_mod (w n : Nat) : encode w (n % range w) = encode w n := by
  have h := encode_decode (encode w n)
  rwa [decode_encode, length_encode] at h

namespace Code

/-- The sizes and the length of the code fit their fields. -/
structure Fits (code : Code) : Prop where
  maxStack : code.maxStack < 65536
  maxLocals : code.maxLocals < 65536
  octets : code.octets.length < 0x100000000

/-- What is read of the contents of a `Code` attribute. -/
def readOctets (code : Code) : Octets :=
  indexOctets code.maxStack ++ indexOctets code.maxLocals
    ++ BigEndian.encode 4 code.octets.length ++ code.octets

theorem recognizes_read : Code.read.Recognizes (Written readOctets Fits) := by
  refine (recognizes_index.lift.seq fun maxStack => recognizes_index.lift.seq fun maxLocals =>
    recognizes_u32.lift.seq fun length => (recognizes_take length.toNat).lift.bind fun octets =>
      Recognizes.pure (Code.mk maxStack maxLocals octets)).congr fun bs code => ?_
  constructor
  · rintro ⟨maxStack, _, hstack, rfl, maxLocals, _, hlocals, rfl, length, _, -, rfl, octets, _, _,
      ⟨hlength, rfl⟩, rfl, rfl, rfl⟩
    refine ⟨⟨hstack, hlocals, ?_⟩, by simp [readOctets, indexOctets, hlength]⟩
    rw [hlength]
    exact length.toNat_lt
  · rintro ⟨hfits, rfl⟩
    have hlength : (UInt32.ofNat code.octets.length).toNat = code.octets.length :=
      UInt32.toNat_ofNat_of_lt' hfits.octets
    refine ⟨code.maxStack, _, hfits.maxStack, ?_, code.maxLocals, _, hfits.maxLocals, rfl,
      .ofNat code.octets.length, _, trivial, rfl, code.octets, _, [], ⟨hlength.symm, rfl⟩, rfl, rfl,
      rfl⟩
    simp [readOctets, indexOctets, hlength]

/-- The code as it is read back: of its sizes the low bits are kept. -/
def wrapped (code : Code) : Code :=
  ⟨code.maxStack % 65536, code.maxLocals % 65536, code.octets⟩

theorem readOctets_wrapped (code : Code) : code.wrapped.readOctets = code.readOctets := by
  have hindex : ∀ n, indexOctets (n % 65536) = indexOctets n := BigEndian.encode_mod 2
  simp only [readOctets, wrapped, hindex]

theorem parse_info {code : Code} (h : code.octets.length < 0x100000000) :
    Code.read.parse code.info = .ok code.wrapped := by
  have hfits : code.wrapped.Fits :=
    ⟨Nat.mod_lt _ (by decide), Nat.mod_lt _ (by decide), h⟩
  -- the two tables behind the instructions are not looked at
  have hinfo : code.info = code.wrapped.readOctets ++ (indexOctets 0 ++ indexOctets 0) := by
    rw [readOctets_wrapped, info, readOctets, List.append_assoc]
  have hahead : code.wrapped.readOctets <+: (Cursor.ofOctets code.info).rest :=
    ⟨_, hinfo.symm⟩
  rw [Reader.parse, (recognizes_read _ _ _).2 ⟨_, ⟨hfits, rfl⟩, hahead, rfl⟩]

end Code

variable {pool : Pool} {key : Nat}

theorem Pool.Holds.octets_eq {text : String} (h : pool.Holds key (.utf8 text)) :
    pool.octets key = .ok (ModifiedUtf8.encode text) := by
  cases h with
  | utf8 h => simp [Pool.octets, Pool.get, h, bind, Except.bind]

/-- A method with a single attribute, named `Code`, has the code that this was written for. -/
theorem Member.code?_of_holds {m : Member} {code : Code} (hkey : pool.Holds key (.utf8 "Code"))
    (hattrs : m.attributes = [⟨key, code.info⟩]) (hcode : code.octets.length < 0x100000000) :
    m.code? pool = .ok (some code.wrapped) := by
  have hname : ModifiedUtf8.encode "Code" = Attribute.codeName := by decide
  have hisCode : Attribute.isCode pool ⟨key, code.info⟩ = .ok true := by
    simp [Attribute.isCode, hkey.octets_eq, hname, bind, Except.bind, pure, Except.pure]
  simp [Member.code?, hattrs, Attribute.firstCode?, Attribute.code?, hisCode, Code.parse_info hcode,
    bind, Except.bind, pure, Except.pure, Functor.map, Except.map]

/-- The first method is found by its name, if both spellings of this are the same. -/
theorem ClassFile.findMethod?_of_holds {cls : ClassFile} {m : Member} {ms : List Member}
    {name : String} (hmethods : cls.methods = m :: ms)
    (hname : cls.pool.Holds m.name (.utf8 name)) (hplain : ModifiedUtf8.encode name = utf8 name) :
    cls.findMethod? name = .ok (some m) := by
  simp [ClassFile.findMethod?, hmethods, Member.find?, hname.octets_eq, hplain, bind, Except.bind,
    pure, Except.pure]

end Bytecode
