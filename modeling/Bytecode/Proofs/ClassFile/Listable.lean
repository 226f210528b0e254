/-
  Which classes can be listed.

  A listing writes the message of an error in the place of what does not resolve, but only in the
  lines of the pool and of the code.  The texts that head the class, a field or a method are not
  optional, and neither is the number of arguments of a method with code.  Where no constant is an
  empty text these are all that a listing depends on.

  * `Listing.header_isOk_iff`, `fieldLine_isOk_iff`, `methodLines_isOk_iff`: what each part needs.
-/
import Bytecode.ClassFile.Assembly
import Bytecode.Proofs.ClassFile.Legible

namespace Bytecode

open Except (isOk_bind isOk_bind_iff isOk_bind_iff_and isOk_bind_iff_left isOk_mapM_iff isOk_iff)

/-- The name and the descriptor of a field are texts. -/
structure Member.ListableField (pool : Pool) (m : Member) : Prop where
  name : (pool.text m.name).isOk
  descriptor : (pool.text m.descriptor).isOk

/-- The name and the descriptor of a method are texts, the search for its code does not fail, and if
    it has code then its descriptor tells the number of its arguments. -/
structure Member.ListableMethod (pool : Pool) (m : Member) : Prop where
  code : (m.code? pool).isOk
  name : (pool.text m.name).isOk
  descriptor : (pool.text m.descriptor).isOk
  args : ∀ code text, m.code? pool = .ok (some code) → pool.text m.descriptor = .ok text →
    (Descriptor.argCount text).isOk

/-- The class and the class it extends have names, and its members can be listed. -/
structure ClassFile.Listable (c : ClassFile) : Prop where
  name : (c.pool.className c.thisClass).isOk
  super : (c.pool.className c.superClass).isOk
  fields : ∀ m ∈ c.fields, m.ListableField c.pool
  methods : ∀ m ∈ c.methods, m.ListableMethod c.pool

namespace Listing

/-! ## Parts of a listing -/

theorem header_isOk_iff (c : ClassFile) : (header c).isOk ↔
    (c.pool.className c.thisClass).isOk ∧ (c.pool.className c.superClass).isOk :=
  isOk_bind_iff_and fun _ => isOk_bind_iff_left fun _ => rfl

theorem fieldLine_isOk_iff (pool : Pool) (m : Member) :
    (fieldLine pool m).isOk ↔ m.ListableField pool := by
  refine (isOk_bind_iff_and fun _ => isOk_bind_iff_left fun _ => rfl).trans ?_
  constructor
  · rintro ⟨hdescriptor, hname⟩
    exact ⟨hname, hdescriptor⟩
  · intro hm
    exact ⟨hm.descriptor, hm.name⟩

/-- Only a method with code has its arguments counted. -/
theorem shape_isOk_iff (pool : Pool) (m : Member) (code : Option Code) :
    (shape pool m code).isOk ↔ (code.isSome → (m.argCount pool).isOk) := by
  cases code with
  | none => exact ⟨fun _ hsome => (nomatch hsome), fun _ => rfl⟩
  | some code =>
    refine (isOk_bind_iff_left fun _ => rfl).trans ?_
    exact ⟨fun h _ => h, fun h => h rfl⟩

theorem methodLines_isOk_iff_shape {pool : Pool} (h : pool.NoEmptyText) (m : Member) :
    (methodLines pool m).isOk ↔ ∃ code, m.code? pool = .ok code ∧ (shape pool m code).isOk ∧
      (pool.text m.name).isOk ∧ (pool.text m.descriptor).isOk := by
  refine isOk_bind_iff.trans (exists_congr fun code => and_congr_right fun _ => ?_)
  refine isOk_bind_iff_and fun _ => isOk_bind_iff_and fun _ => isOk_bind_iff_left fun _ => ?_
  -- What is left is the code, and any octets can be disassembled.
  cases code with
  | none => rfl
  | some code => exact isOk_bind (disassemble_isOk h code.octets) fun _ => rfl

theorem methodLines_isOk_iff {pool : Pool} (h : pool.NoEmptyText) (m : Member) :
    (methodLines pool m).isOk ↔ m.ListableMethod pool := by
  rw [methodLines_isOk_iff_shape h]
  constructor
  · rintro ⟨code, hcode, hshape, hname, hdescriptor⟩
    refine ⟨isOk_iff.2 ⟨code, hcode⟩, hname, hdescriptor, ?_⟩
    intro code' text hcode' htext
    obtain rfl : code = some code' := Except.ok.inj (hcode.symm.trans hcode')
    obtain ⟨text', htext', hargs⟩ := isOk_bind_iff.1 ((shape_isOk_iff pool m _).1 hshape rfl)
    obtain rfl : text' = text := Except.ok.inj (htext'.symm.trans htext)
    exact hargs
  · intro hm
    obtain ⟨code, hcode⟩ := isOk_iff.1 hm.code
    obtain ⟨text, htext⟩ := isOk_iff.1 hm.descriptor
    refine ⟨code, hcode, (shape_isOk_iff pool m code).2 fun hsome => ?_, hm.name, hm.descriptor⟩
    obtain ⟨code', rfl⟩ := Option.isSome_iff_exists.1 hsome
    exact isOk_bind_iff.2 ⟨text, htext, hm.args code' text hcode htext⟩

/-! ## Classes -/

theorem ofClass_isOk_iff {c : ClassFile} (h : c.pool.NoEmptyText) :
    (ofClass c).isOk ↔ c.Listable := by
  have hparts : (ofClass c).isOk ↔ (header c).isOk ∧ (c.fields.mapM (fieldLine c.pool)).isOk ∧
      (c.methods.mapM (methodLines c.pool)).isOk := by
    refine isOk_bind_iff_and fun _ => ?_
    refine Iff.trans (isOk_bind_iff_and fun _ => ?_) (and_iff_right (constantLines_isOk h))
    exact isOk_bind_iff_and fun _ => isOk_bind_iff_left fun _ => rfl
  simp only [hparts, header_isOk_iff, isOk_mapM_iff, fieldLine_isOk_iff, methodLines_isOk_iff h]
  constructor
  · rintro ⟨⟨hname, hsuper⟩, hfields, hmethods⟩
    exact ⟨hname, hsuper, hfields, hmethods⟩
  · intro hc
    exact ⟨⟨hc.name, hc.super⟩, hc.fields, hc.methods⟩

/-- Key 0 names no class. -/
theorem not_listable_of_superClass {c : ClassFile} (h : c.superClass = 0) : ¬ c.Listable := by
  intro hc
  have hsuper := hc.super
  rw [h] at hsuper
  exact (nomatch hsuper)

/-- **A class is listed exactly if its heads resolve.**  Where no constant is an empty text, the
    listing depends on nothing else: every constant has its line, whatever it refers to, and any
    octets can be disassembled.  A class that extends none, like the root of all classes, is not
    listed. -/
theorem ofClass_isOk_iff_listable (c : ClassFile) (h : c.pool.NoEmptyText) :
    ((ofClass c).isOk ↔ c.Listable) ∧
      (∀ i constant, (i, constant) ∈ c.pool.entries → (constantLine c.pool i constant).isOk) ∧
      (∀ code, (disassemble c.pool code).isOk) ∧
      (c.superClass = 0 → ¬ (ofClass c).isOk) := by
  refine ⟨ofClass_isOk_iff h, ?_, disassemble_isOk h, ?_⟩
  · intro i constant hmem
    exact isOk_mapM_iff.1 (constantLines_isOk h) (i, constant) hmem
  · intro hsuper hlisted
    exact not_listable_of_superClass hsuper ((ofClass_isOk_iff h).1 hlisted)

/-- A class whose pool has a string without text, a class that is its own name and octets that are
    no text.  Its first method loads a constant that is not there, calls one that is no method and
    breaks off; its second has no code and a descriptor that is none. -/
def wornClass : ClassFile :=
  (Assembly.build "W" [.push (.string 99), .push (.classRef 6), .push (.utf8 [0xed, 0xa0, 0x80]),
    .field ⟨2⟩ "size" "I", .method ⟨9⟩ "main" "()V" ⟨1, 0, [0x12, 77, 0xb8, 0, 5, 0x11, 0]⟩,
    .bodiless ⟨1⟩ "run" "(I"]).2

/-- The same class, extending none. -/
def rootlessClass : ClassFile :=
  { wornClass with superClass := 0 }

/-- The damage does not keep the class from being listed, but extending none does. -/
theorem ofClass_isOk_iff_listable_wornClass :
    wornClass.pool.NoEmptyText ∧ wornClass.Listable ∧
      rootlessClass.pool.NoEmptyText ∧ ¬ (ofClass rootlessClass).isOk := by
  have hworn : wornClass.pool.NoEmptyText := by decide +kernel
  have hrootless : rootlessClass.pool.NoEmptyText := by decide +kernel
  have hlisted : (ofClass wornClass).isOk := by decide +kernel
  exact ⟨hworn, (ofClass_isOk_iff_listable wornClass hworn).1.1 hlisted, hrootless,
    (ofClass_isOk_iff_listable rootlessClass hrootless).2.2.2 rfl⟩

end Listing

end Bytecode
