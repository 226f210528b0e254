/-
  Reading and writing class files are inverse.

  * `Fits` says of a constant, an attribute, a member and a class file that its counts, lengths and
    keys fit the fields that the format has for them;
  * `recognizes_read` says of each part which octets are read as it: those that are written for it,
    and only if it fits.  For a class file these are the octets written for it, but with any table
    of interfaces (`ClassFile.octetsWith`).
-/
import Bytecode.ClassFile.Decode
import Bytecode.ClassFile.Encode
import Bytecode.Proofs.Octets.Grammar

namespace Bytecode

open Reader (Recognizes recognizes_index recognizes_take recognizes_u8 recognizes_u16
  recognizes_u32 recognizes_i32)

/-! ## What fits the format -/

/-- The keys and the text of a constant fit their fields. -/
def Constant.Fits : Constant → Prop
  | .utf8 bs => bs.length < 65536
  | .integer _ => True
  | .classRef i | .string i | .methodType i | .methodHandle _ i => i < 65536
  | .member _ i j | .nameAndType i j | .invokeDynamic i j => i < 65536 ∧ j < 65536

instance : DecidablePred Constant.Fits
  | .utf8 _ | .classRef _ | .string _ | .methodType _ | .methodHandle _ _ => Nat.decLt _ _
  | .integer _ => instDecidableTrue
  | .member _ _ _ | .nameAndType _ _ | .invokeDynamic _ _ => instDecidableAnd

def Attribute.Fits (a : Attribute) : Prop :=
  a.name < 65536 ∧ a.info.length < 0x100000000

instance : DecidablePred Attribute.Fits := fun _ => instDecidableAnd

def Attribute.TableFits (as : List Attribute) : Prop :=
  as.length < 65536 ∧ ∀ a ∈ as, a.Fits

instance : DecidablePred Attribute.TableFits := fun _ => instDecidableAnd

def Member.Fits (m : Member) : Prop :=
  m.name < 65536 ∧ m.descriptor < 65536 ∧ Attribute.TableFits m.attributes

instance : DecidablePred Member.Fits := fun _ => instDecidableAnd

def Member.TableFits (ms : List Member) : Prop :=
  ms.length < 65536 ∧ ∀ m ∈ ms, m.Fits

instance : DecidablePred Member.TableFits := fun _ => instDecidableAnd

/-- There are not too many constants, and each fits; the count is one more than their number. -/
def Pool.Fits (pool : Pool) : Prop :=
  pool.constants.length ≤ 65534 ∧ ∀ c ∈ pool.constants, c.Fits

instance : DecidablePred Pool.Fits := fun _ => instDecidableAnd

structure ClassFile.Fits (cls : ClassFile) : Prop where
  pool : cls.pool.Fits
  thisClass : cls.thisClass < 65536
  superClass : cls.superClass < 65536
  fields : Member.TableFits cls.fields
  methods : Member.TableFits cls.methods
  attributes : Attribute.TableFits cls.attributes

instance : DecidablePred ClassFile.Fits := fun cls =>
  decidable_of_iff
    (cls.pool.Fits ∧ cls.thisClass < 65536 ∧ cls.superClass < 65536 ∧
      Member.TableFits cls.fields ∧ Member.TableFits cls.methods ∧
      Attribute.TableFits cls.attributes)
    ⟨fun ⟨h₁, h₂, h₃, h₄, h₅, h₆⟩ => ⟨h₁, h₂, h₃, h₄, h₅, h₆⟩,
      fun ⟨h₁, h₂, h₃, h₄, h₅, h₆⟩ => ⟨h₁, h₂, h₃, h₄, h₅, h₆⟩⟩

theorem Reader.Recognizes.lift {α : Type} {r : Reader ReadError α} {G : Grammar α}
    (h : r.Recognizes G) : (liftM r : Reader FormatError α).Recognizes G :=
  h.withError FormatError.malformed

/-! ## Constants -/

namespace Constant

/-- The bodies of the constants of a kind. -/
def Body (kind : ConstantKind) : Grammar Constant :=
  fun bs c => c.kind = kind ∧ c.Fits ∧ bs = c.bodyOctets

/-- A body is read by the parts `a` of the constant, if `f` makes the constants of the kind out of
    such parts. -/
theorem recognizes_body {α : Type} {r : Reader ReadError Constant} {kind : ConstantKind}
    {f : α → Constant} {write : α → Octets} {Fits : α → Prop}
    (hr : r.Recognizes fun bs c => ∃ a, Written write Fits bs a ∧ c = f a)
    (hkind : ∀ c : Constant, c.kind = kind ↔ ∃ a, c = f a)
    (hfits : ∀ a, (f a).Fits ↔ Fits a) (hwrite : ∀ a, (f a).bodyOctets = write a) :
    r.Recognizes (Body kind) := by
  refine hr.congr fun bs c => ?_
  constructor
  · rintro ⟨a, ⟨ha, rfl⟩, rfl⟩
    exact ⟨(hkind _).2 ⟨a, rfl⟩, (hfits a).2 ha, (hwrite a).symm⟩
  · rintro ⟨hk, hc, rfl⟩
    obtain ⟨a, rfl⟩ := (hkind c).1 hk
    exact ⟨a, ⟨(hfits a).1 hc, hwrite a⟩, rfl⟩

theorem recognizes_pair {α β γ : Type} {r : Reader ReadError α} {s : Reader ReadError β}
    {write : α → Octets} {write' : β → Octets} {Fits : α → Prop} {Fits' : β → Prop}
    (hr : r.Recognizes (Written write Fits)) (hs : s.Recognizes (Written write' Fits'))
    (f : α → β → γ) :
    (do let a ← r; let b ← s; return f a b : Reader ReadError γ).Recognizes fun bs c =>
      ∃ p : α × β, Written (fun p : α × β => write p.1 ++ write' p.2)
        (fun p => Fits p.1 ∧ Fits' p.2) bs p ∧ c = f p.1 p.2 := by
  refine (hr.seq fun a => hs.seq fun b => Recognizes.pure (f a b)).congr fun bs c => ?_
  constructor
  · rintro ⟨a, _, ha, rfl, b, _, hb, rfl, rfl, rfl⟩
    exact ⟨(a, b), ⟨⟨ha, hb⟩, by simp⟩, rfl⟩
  · rintro ⟨⟨a, b⟩, ⟨⟨ha, hb⟩, rfl⟩, rfl⟩
    exact ⟨a, _, ha, rfl, b, [], hb, by simp, rfl, rfl⟩

theorem recognizes_readBody_utf8 : (readBody .utf8).Recognizes (Body .utf8) := by
  have hr : (readBody .utf8).Recognizes fun bs c => ∃ s : Octets,
      Written (fun s => indexOctets s.length ++ s) (·.length < 65536) bs s ∧ c = utf8 s := by
    refine (recognizes_index.seq fun n => (recognizes_take n).map utf8).congr fun bs c => ?_
    constructor
    · rintro ⟨n, _, hn, rfl, s, ⟨rfl, rfl⟩, rfl⟩
      exact ⟨s, ⟨hn, rfl⟩, rfl⟩
    · rintro ⟨s, ⟨hs, rfl⟩, rfl⟩
      exact ⟨s.length, s, hs, rfl, s, ⟨rfl, rfl⟩, rfl⟩
  exact recognizes_body hr (fun c => by cases c <;> simp [kind]) (fun _ => Iff.rfl) fun _ => rfl

theorem recognizes_readBody (k : ConstantKind) : (readBody k).Recognizes (Body k) := by
  have hnum := fun f : Nat → Constant => recognizes_index.map f
  have hnums := fun f : Nat → Nat → Constant => recognizes_pair recognizes_index recognizes_index f
  cases k with
  | utf8 => exact recognizes_readBody_utf8
  | integer =>
    exact recognizes_body (recognizes_i32.map integer) (fun c => by cases c <;> simp [kind])
      (fun _ => Iff.rfl) fun _ => rfl
  | classRef =>
    exact recognizes_body (hnum classRef) (fun c => by cases c <;> simp [kind])
      (fun _ => Iff.rfl) fun _ => rfl
  | string =>
    exact recognizes_body (hnum string) (fun c => by cases c <;> simp [kind])
      (fun _ => Iff.rfl) fun _ => rfl
  | methodType =>
    exact recognizes_body (hnum methodType) (fun c => by cases c <;> simp [kind])
      (fun _ => Iff.rfl) fun _ => rfl
  | member m =>
    exact recognizes_body (hnums (member m)) (fun c => by cases c <;> simp [kind, eq_comm])
      (fun _ => Iff.rfl) fun _ => rfl
  | nameAndType =>
    exact recognizes_body (hnums nameAndType) (fun c => by cases c <;> simp [kind])
      (fun _ => Iff.rfl) fun _ => rfl
  | invokeDynamic =>
    exact recognizes_body (hnums invokeDynamic) (fun c => by cases c <;> simp [kind])
      (fun _ => Iff.rfl) fun _ => rfl
  | methodHandle =>
    exact recognizes_body (recognizes_pair recognizes_u8 recognizes_index methodHandle)
      (fun c => by cases c <;> simp [kind]) (fun _ => by simp [Constant.Fits]) fun _ => rfl

theorem recognizes_tagged (tag : UInt8) :
    (match ConstantKind.ofTag? tag with
      | some kind => (liftM (readBody kind) : Reader FormatError Constant)
      | none => Reader.fail (.unknownTag tag)).Recognizes
        fun bs c => c.kind.tag = tag ∧ c.Fits ∧ bs = c.bodyOctets := by
  cases h : ConstantKind.ofTag? tag with
  | none =>
    refine (Reader.recognizes_fail _).congr fun bs c => ⟨False.elim, ?_⟩
    rintro ⟨rfl, -⟩
    rw [ConstantKind.ofTag?_tag] at h
    cases h
  | some k =>
    refine (recognizes_readBody k).lift.congr fun bs c => and_congr_left fun _ => ?_
    constructor
    · rintro rfl
      simpa using List.find?_some h
    · rintro rfl
      rw [ConstantKind.ofTag?_tag] at h
      exact Option.some.inj h

theorem recognizes_read : Constant.read.Recognizes (Written octets Constant.Fits) := by
  refine (recognizes_u8.lift.seq recognizes_tagged).congr fun bs c => ?_
  constructor
  · rintro ⟨_, _, -, rfl, rfl, hc, rfl⟩
    exact ⟨hc, rfl⟩
  · rintro ⟨hc, rfl⟩
    exact ⟨c.kind.tag, _, trivial, rfl, rfl, hc, rfl⟩

end Constant

theorem Pool.recognizes_read : Pool.read.Recognizes (Written Pool.toOctets Pool.Fits) := by
  refine (recognizes_index.lift.seq (H := fun n bs pool => pool.count = n ∧
    (∀ c ∈ pool.constants, c.Fits) ∧ bs = pool.constants.flatMap Constant.octets) ?_).congr
      fun bs pool => ?_
  · -- what follows the count
    rintro (_ | n)
    · exact (Reader.recognizes_fail _).congr fun bs pool => by simp [count]
    · refine ((Constant.recognizes_read.many n).map Pool.mk).congr fun bs pool => ?_
      constructor
      · rintro ⟨cs, ⟨rfl, hcs, rfl⟩, rfl⟩
        exact ⟨rfl, hcs, rfl⟩
      · rintro ⟨hn, hcs, rfl⟩
        exact ⟨pool.constants, ⟨by simpa [count] using hn, hcs, rfl⟩, rfl⟩
  · constructor
    · rintro ⟨_, _, hn, rfl, rfl, hcs, rfl⟩
      exact ⟨⟨by simp only [count] at hn; omega, hcs⟩, rfl⟩
    · rintro ⟨⟨hn, hcs⟩, rfl⟩
      exact ⟨pool.count, _, by simp only [count]; omega, rfl, rfl, hcs, rfl⟩

/-! ## Attributes and members -/

theorem Attribute.recognizes_read :
    Attribute.read.Recognizes (Written Attribute.octets Attribute.Fits) := by
  refine (recognizes_index.lift.seq fun name => recognizes_u32.lift.seq fun length =>
    (recognizes_take length.toNat).lift.bind fun info =>
      Recognizes.pure (Attribute.mk name info)).congr fun bs a => ?_
  constructor
  · rintro ⟨name, _, hname, rfl, length, _, -, rfl, info, _, _, ⟨hlength, rfl⟩, rfl, rfl, rfl⟩
    refine ⟨⟨hname, ?_⟩, by simp [Attribute.octets, indexOctets, hlength]⟩
    rw [hlength]; exact length.toNat_lt
  · rintro ⟨⟨hname, hinfo⟩, rfl⟩
    have hlength : (UInt32.ofNat a.info.length).toNat = a.info.length :=
      UInt32.toNat_ofNat_of_lt' hinfo
    refine ⟨a.name, _, hname, ?_, .ofNat a.info.length, _, trivial, rfl,
      a.info, _, [], ⟨hlength.symm, rfl⟩, rfl, rfl, rfl⟩
    simp [Attribute.octets, indexOctets, hlength]

theorem Attribute.recognizes_readTable :
    Attribute.readTable.Recognizes (Written Attribute.tableOctets Attribute.TableFits) :=
  recognizes_index.lift.table Attribute.recognizes_read

theorem Member.recognizes_read : Member.read.Recognizes (Written Member.octets Member.Fits) := by
  refine (recognizes_u16.lift.seq fun access => recognizes_index.lift.seq fun name =>
    recognizes_index.lift.seq fun descriptor => Attribute.recognizes_readTable.seq
      fun attributes => Recognizes.pure (Member.mk ⟨access⟩ name descriptor attributes)).congr
        fun bs m => ?_
  constructor
  · rintro ⟨access, _, -, rfl, name, _, hname, rfl, descriptor, _, hdesc, rfl,
      attributes, _, hattrs, rfl, rfl, rfl⟩
    exact ⟨⟨hname, hdesc, hattrs⟩, by simp [Member.octets, indexOctets]⟩
  · rintro ⟨⟨hname, hdesc, hattrs⟩, rfl⟩
    refine ⟨m.access.bits, _, trivial, ?_, m.name, _, hname, rfl, m.descriptor, _, hdesc, rfl,
      m.attributes, [], hattrs, rfl, rfl, rfl⟩
    simp [Member.octets, indexOctets]

theorem Member.recognizes_readTable :
    Member.readTable.Recognizes (Written Member.tableOctets Member.TableFits) :=
  recognizes_index.lift.table Member.recognizes_read

/-! ## Class files -/

theorem Version.recognizes_read :
    Version.read.Recognizes (Written Version.octets fun _ => True) := by
  refine (recognizes_u16.seq fun minor => recognizes_u16.seq fun major =>
    Recognizes.pure (Version.mk major minor)).congr fun bs v => ?_
  constructor
  · rintro ⟨minor, _, -, rfl, major, _, -, rfl, rfl, rfl⟩
    exact ⟨trivial, by simp [Version.octets]⟩
  · rintro ⟨-, rfl⟩
    exact ⟨v.minor, _, trivial, rfl, v.major, [], trivial, by simp, rfl, rfl⟩

namespace ClassFile

/-- The octets up to the key of the superclass. -/
def headOctets (cls : ClassFile) : Octets :=
  BigEndian.encode 4 magic.toNat ++ cls.version.octets ++ cls.pool.toOctets
    ++ BigEndian.encode 2 cls.access.bits.toNat ++ indexOctets cls.thisClass
    ++ indexOctets cls.superClass

/-- The octets from the count of the fields on. -/
def bodyOctets (cls : ClassFile) : Octets :=
  Member.tableOctets cls.fields ++ Member.tableOctets cls.methods
    ++ Attribute.tableOctets cls.attributes

/-- The octets of a class file that has a table of `k` interfaces. -/
def octetsWith (cls : ClassFile) (k : Nat) (interfaces : Octets) : Octets :=
  cls.headOctets ++ indexOctets k ++ interfaces ++ cls.bodyOctets

theorem octets_eq (cls : ClassFile) : cls.octets = cls.octetsWith 0 [] := by
  simp [octets, octetsWith, headOctets, bodyOctets]

/-- A class file that fits, with any table of interfaces. -/
def Form : Grammar ClassFile :=
  fun bs cls => cls.Fits ∧
    ∃ k interfaces, k < 65536 ∧ interfaces.length = k * 2 ∧ bs = cls.octetsWith k interfaces

theorem recognizes_tables (make : List Member → List Member → List Attribute → ClassFile) :
    (do let fields ← Member.readTable
        let methods ← Member.readTable
        let attributes ← Attribute.readTable
        return make fields methods attributes).Recognizes fun bs cls =>
      ∃ fields methods attributes, Member.TableFits fields ∧ Member.TableFits methods ∧
        Attribute.TableFits attributes ∧
        bs = Member.tableOctets fields ++ Member.tableOctets methods
          ++ Attribute.tableOctets attributes ∧
        cls = make fields methods attributes := by
  refine (Member.recognizes_readTable.seq fun fields => Member.recognizes_readTable.seq
    fun methods => Attribute.recognizes_readTable.seq fun attributes =>
      Recognizes.pure (make fields methods attributes)).congr fun bs cls => ?_
  constructor
  · rintro ⟨fields, _, hf, rfl, methods, _, hm, rfl, attributes, _, ha, rfl, rfl, rfl⟩
    exact ⟨fields, methods, attributes, hf, hm, ha, by simp, rfl⟩
  · rintro ⟨fields, methods, attributes, hf, hm, ha, rfl, rfl⟩
    refine ⟨fields, _, hf, ?_, methods, _, hm, rfl, attributes, [], ha, rfl, rfl, rfl⟩
    simp

theorem recognizes_read : ClassFile.read.Recognizes Form := by
  have hmagic : ∀ (n : UInt32) {r : Reader FormatError ClassFile} {G : Grammar ClassFile},
      r.Recognizes G → (if n ≠ magic then Reader.fail (.wrongMagic n) else r).Recognizes
        fun bs cls => n = magic ∧ G bs cls := by
    intro n r G hr
    by_cases hn : n = magic
    · rw [if_neg (not_not_intro hn)]
      exact hr.congr fun bs cls => by simp [hn]
    · rw [if_pos hn]
      exact (Reader.recognizes_fail _).congr fun bs cls => by simp [hn]
  refine (recognizes_u32.lift.seq fun n => hmagic n <|
    Version.recognizes_read.lift.seq fun version => Pool.recognizes_read.seq fun pool =>
    recognizes_u16.lift.seq fun access => recognizes_index.lift.seq fun thisClass =>
    recognizes_index.lift.seq fun superClass => recognizes_index.lift.seq fun k =>
    (recognizes_take (k * 2)).lift.bind fun _ => recognizes_tables
      (ClassFile.mk version pool ⟨access⟩ thisClass superClass)).congr fun bs cls => ?_
  constructor
  · rintro ⟨_, _, -, rfl, rfl, version, _, -, rfl, pool, _, hpool, rfl, access, _, -, rfl,
      thisClass, _, hthis, rfl, superClass, _, hsuper, rfl, k, _, hk, rfl,
      _, interfaces, _, ⟨hlen, rfl⟩, rfl, fields, methods, attrs, hfields, hmethods, hattrs,
      rfl, rfl⟩
    exact ⟨⟨hpool, hthis, hsuper, hfields, hmethods, hattrs⟩, k, interfaces, hk, hlen,
      by simp [octetsWith, headOctets, bodyOctets, indexOctets]⟩
  · rintro ⟨⟨hpool, hthis, hsuper, hfields, hmethods, hattrs⟩, k, interfaces, hk, hlen, rfl⟩
    refine ⟨magic, _, trivial, ?_, rfl, cls.version, _, trivial, rfl, cls.pool, _, hpool, rfl,
      cls.access.bits, _, trivial, rfl, cls.thisClass, _, hthis, rfl, cls.superClass, _, hsuper,
      rfl, k, _, hk, rfl, interfaces, _, _, ⟨hlen, rfl⟩, rfl, cls.fields, cls.methods,
      cls.attributes, hfields, hmethods, hattrs, rfl, rfl⟩
    simp [octetsWith, headOctets, bodyOctets, indexOctets]

/-- Where the octets of a class file that fits lie ahead, it is read, and nothing more. -/
theorem run_read_of_prefix {cls : ClassFile} (h : cls.Fits) {c : Cursor}
    (hpre : cls.octets <+: c.rest) :
    ClassFile.read.run c = (.ok cls, c.advance cls.octets.length) :=
  (recognizes_read _ _ _).2
    ⟨cls.octets, ⟨h, 0, [], by decide, rfl, cls.octets_eq⟩, hpre, rfl⟩

/-- **What is written for a class file is read back as that class file**, wherever it stands, and
    the reading ends where it ends. -/
theorem read_octets (cls : ClassFile) (h : cls.Fits) (pre post : Octets) :
    ClassFile.read.run (.place (pre ++ cls.octets ++ post) pre.length) =
      (.ok cls, .place (pre ++ cls.octets ++ post) (pre.length + cls.octets.length)) := by
  rw [← Cursor.advance_place]
  apply run_read_of_prefix h
  rw [Cursor.rest_place, List.append_assoc, List.drop_left]
  exact List.prefix_append _ _

/-- A class with a constant of every kind, members and attributes, between other octets. -/
theorem read_octets_every_kind :
    let cls : ClassFile :=
      ⟨⟨52, 3⟩, ⟨[.utf8 [0x41, 0x42], .classRef 1, .integer (-2), .string 1, .nameAndType 1 1,
        .member .field 2 5, .member .method 2 5, .member .interfaceMethod 2 5,
        .methodHandle 6 7, .methodType 1, .invokeDynamic 0 5]⟩, ⟨0x21⟩, 2, 0,
        [⟨⟨1⟩, 1, 1, []⟩], [⟨⟨9⟩, 1, 1, [⟨1, [0, 1, 2]⟩, ⟨65535, []⟩]⟩], [⟨1, [0xff]⟩]⟩
    cls.Fits ∧
      ClassFile.read.run (.place ([0xca, 0xfe] ++ cls.octets ++ [7]) 2) =
        (.ok cls, .place ([0xca, 0xfe] ++ cls.octets ++ [7]) (2 + cls.octets.length)) :=
  ⟨by decide, read_octets _ (by decide) [0xca, 0xfe] [7]⟩

/-- **What was read as a class file is what is written for it**, but for the table of interfaces
    behind the key of the superclass; and the class file fits, so it can be read back. -/
theorem octets_of_read {b : Octets} {cls : ClassFile} {c : Cursor}
    (h : ClassFile.read.run (.ofOctets b) = (.ok cls, c)) :
    (c.offset ≤ b.length ∧ ∃ (p t s : Octets) (k : Nat), k < 65536 ∧ t.length = 2 * k ∧
      b.take c.offset = p ++ BigEndian.encode 2 k ++ t ++ s ∧
      cls.octets = p ++ [0, 0] ++ s ∧ indexOctets cls.superClass <:+ p) ∧
    cls.Fits ∧ ClassFile.parse cls.octets = .ok cls := by
  obtain ⟨bs, ⟨hfits, k, t, hk, hlen, rfl⟩, hpre, rfl⟩ := (recognizes_read _ _ _).1 h
  have hoffset : ((Cursor.ofOctets b).advance (cls.octetsWith k t).length).offset =
      (cls.octetsWith k t).length := Nat.zero_add _
  rw [hoffset]
  refine ⟨⟨hpre.length_le, cls.headOctets, t, cls.bodyOctets, k, hk, by omega,
    (List.prefix_iff_eq_take.1 hpre).symm, ?_, ?_⟩, hfits, ?_⟩
  · rw [octets_eq, octetsWith, List.append_nil]
    rfl
  · exact List.suffix_append _ _
  · rw [ClassFile.parse, Reader.parse, run_read_of_prefix hfits (List.prefix_refl _)]

/-- A class that implements one interface, with an octet behind it: the count and the table are
    gone when it is written again. -/
theorem octets_of_read_interfaces :
    let b : Octets := [0xca, 0xfe, 0xba, 0xbe, 0, 0, 0, 52, 0, 3, 1, 0, 1, 0x41, 7, 0, 1, 0, 0x21,
      0, 2, 0, 0, 0, 1, 0, 2, 0, 0, 0, 0, 0, 0, 9]
    let cls : ClassFile := ⟨⟨52, 0⟩, ⟨[.utf8 [0x41], .classRef 1]⟩, ⟨0x21⟩, 2, 0, [], [], []⟩
    ClassFile.read.run (.ofOctets b) = (.ok cls, .place b 33) ∧
      ∃ (p t s : Octets) (k : Nat), t.length = 2 * k ∧
        b.take 33 = p ++ BigEndian.encode 2 k ++ t ++ s ∧ cls.octets = p ++ [0, 0] ++ s := by
  intro b cls
  have h : ClassFile.read.run (.ofOctets b) = (.ok cls, .place b 33) := rfl
  obtain ⟨⟨-, p, t, s, k, -, ht, hb, hcls, -⟩, -⟩ := octets_of_read h
  exact ⟨h, p, t, s, k, ht, hb, hcls⟩

end ClassFile

end Bytecode
