/-
  Class files without empty texts.

  Text of an empty constant cannot be read: the error that stands for this (`emptyText`) is the one
  that is fatal.  Where no constant is empty it does not come up, however damaged the class file may
  be otherwise: keys may lead nowhere, to themselves or to constants of another kind, and texts may
  be malformed.

  * `Pool.text_eq_emptyText_iff`, `Pool.text?_eq_none_iff`: the error comes up exactly where text is
    read out of range, and that is at an empty constant.
-/
import Bytecode.Listing
import Bytecode.Machine.ClassTable
import Bytecode.Proofs.Outcome
import Bytecode.Proofs.Text.Range

namespace Bytecode

open Except (Avoids isOk_bind isOk_map isOk_mapM_iff)

/-! ## Pools -/

namespace Pool

variable {pool : Pool} {i : Nat} {bs : Octets}

/-- No constant is an empty text. -/
def NoEmptyText (pool : Pool) : Prop :=
  .utf8 [] ∉ pool.constants

instance (pool : Pool) : Decidable pool.NoEmptyText :=
  inferInstanceAs (Decidable (.utf8 [] ∉ pool.constants))

/-- The text of a `utf8` constant, read within range. -/
def text? (pool : Pool) (i : Nat) : Option (Except FormatError String) :=
  match pool.octets i with
  | .error e => some (.error e)
  | .ok bs => do
    let text ← ModifiedUtf8.decode? bs
    return text.mapError .ofText

theorem get_avoids (pool : Pool) (i : Nat) : (pool.get i).Avoids .emptyText := by
  unfold get
  split
  · exact .ok _
  · exact .error (by simp)

theorem octets_avoids (pool : Pool) (i : Nat) : (pool.octets i).Avoids .emptyText := by
  refine (pool.get_avoids i).bind fun c _ => ?_
  cases c with
  | utf8 bs => exact .ok bs
  | _ => exact .error (by simp)

theorem integer_avoids (pool : Pool) (i : Nat) : (pool.integer i).Avoids .emptyText := by
  refine (pool.get_avoids i).bind fun c _ => ?_
  cases c with
  | integer n => exact .ok n
  | _ => exact .error (by simp)

theorem mem_of_get {c : Constant} (h : pool.get i = .ok c) : c ∈ pool.constants := by
  unfold get at h
  split at h
  · rename_i c' hc'
    obtain rfl := Except.ok.inj h
    cases i with
    | zero => cases hc'
    | succ i => exact List.mem_of_getElem? hc'
  · cases h

theorem mem_of_mem_entries {c : Constant} (h : (i, c) ∈ pool.entries) : c ∈ pool.constants := by
  obtain ⟨⟨c', j⟩, hmem, heq⟩ := List.mem_map.1 h
  obtain ⟨-, rfl⟩ := Prod.mk.inj heq
  exact List.fst_mem_of_mem_zipIdx hmem

theorem mem_of_octets (h : pool.octets i = .ok bs) : .utf8 bs ∈ pool.constants := by
  obtain ⟨c, hc, hbs⟩ := Except.bind_eq_ok_iff.1 h
  cases c with
  | utf8 bs' =>
    obtain rfl := Except.ok.inj hbs
    exact mem_of_get hc
  | _ => cases hbs

theorem text_eq_of_octets (h : pool.octets i = .ok bs) :
    pool.text i = (ModifiedUtf8.decode bs).mapError .ofText := by
  rw [text, h]
  rfl

theorem text_eq_emptyText_iff : pool.text i = .error .emptyText ↔ pool.octets i = .ok [] := by
  constructor
  · intro htext
    cases hoctets : pool.octets i with
    | error e =>
      have herror : pool.text i = .error e := by rw [text, hoctets]; rfl
      rw [herror] at htext
      exact absurd (Except.error.inj htext ▸ hoctets) (pool.octets_avoids i)
    | ok bs =>
      rw [text_eq_of_octets hoctets] at htext
      obtain ⟨e, he, hempty⟩ := Except.mapError_eq_error_iff.1 htext
      cases e with
      | empty =>
        by_cases hbs : bs = []
        · rw [hbs]
        · exact absurd he (ModifiedUtf8.decode_avoids_empty hbs)
      | _ => cases hempty
  · intro hoctets
    rw [text_eq_of_octets hoctets]
    rfl

theorem text?_of_octets (h : pool.octets i = .ok []) : pool.text? i = none := by
  rw [text?, h]
  dsimp only
  rw [ModifiedUtf8.decode?_nil]
  rfl

theorem text?_eq (h : pool.octets i ≠ .ok []) : pool.text? i = some (pool.text i) := by
  unfold text?
  cases hoctets : pool.octets i with
  | error e =>
    rw [text, hoctets]
    rfl
  | ok bs =>
    have hbs : bs ≠ [] := fun hnil => h (hnil ▸ hoctets)
    dsimp only
    rw [text_eq_of_octets hoctets, ModifiedUtf8.decode?_eq hbs]
    rfl

theorem text?_eq_none_iff : pool.text? i = none ↔ pool.octets i = .ok [] := by
  refine ⟨fun hnone => Classical.byContradiction fun hoctets => ?_, text?_of_octets⟩
  rw [text?_eq hoctets] at hnone
  cases hnone

variable (h : pool.NoEmptyText)
include h

theorem NoEmptyText.text (i : Nat) : (pool.text i).Avoids .emptyText := by
  intro htext
  exact h (mem_of_octets (text_eq_emptyText_iff.1 htext))

theorem NoEmptyText.className (i : Nat) : (pool.className i).Avoids .emptyText := by
  refine (pool.get_avoids i).bind fun c _ => ?_
  cases c with
  | classRef name => exact h.text name
  | _ => exact .error (by simp)

theorem NoEmptyText.string (i : Nat) : (pool.string i).Avoids .emptyText := by
  refine (pool.get_avoids i).bind fun c _ => ?_
  cases c with
  | string t => exact h.text t
  | _ => exact .error (by simp)

theorem NoEmptyText.nameAndType (i : Nat) : (pool.nameAndType i).Avoids .emptyText := by
  refine (pool.get_avoids i).bind fun c _ => ?_
  cases c with
  | nameAndType name descriptor =>
    exact (h.text name).bind fun n _ => (h.text descriptor).bind fun d _ => .ok _
  | _ => exact .error (by simp)

theorem NoEmptyText.memberRef (i : Nat) (kind : ConstantKind) :
    (pool.memberRef i kind).Avoids .emptyText := by
  refine (pool.get_avoids i).bind fun c _ => ?_
  cases c with
  | member kind' owner nt =>
    dsimp only
    split
    · exact (h.nameAndType nt).bind fun _ _ => (h.className owner).bind fun _ _ => .ok _
    · exact .error (by simp)
  | _ => exact .error (by simp)

end Pool

/-! ## Symbols -/

theorem Descriptor.argCount_avoids (descriptor : String) :
    (argCount descriptor).Avoids .emptyText := by
  unfold argCount
  split
  · split
    · exact .ok _
    · exact .error (by simp)
  · exact .error (by simp)

theorem Member.argCount_avoids {pool : Pool} (h : pool.NoEmptyText) (m : Member) :
    (m.argCount pool).Avoids .emptyText :=
  (h.text m.descriptor).bind fun descriptor _ => Descriptor.argCount_avoids descriptor

theorem Member.find?_avoids (pool : Pool) (name : Octets) (ms : List Member) :
    (Member.find? pool name ms).Avoids .emptyText := by
  induction ms with
  | nil => exact .ok none
  | cons m ms ih =>
    refine (pool.octets_avoids m.name).bind fun octets _ => ?_
    split
    · exact .ok _
    · exact ih

/-- The reader does not fail with this error. -/
def Reader.Avoids {ε α : Type} (bad : ε) (r : Reader ε α) : Prop :=
  ∀ c, (r.run c).1.Avoids bad

theorem Reader.Avoids.bind {ε α β : Type} {bad : ε} {r : Reader ε α} {k : α → Reader ε β}
    (hr : r.Avoids bad) (hk : ∀ a, (k a).Avoids bad) : (r >>= k).Avoids bad := by
  intro c
  have hc := hr c
  rw [Reader.run_bind]
  generalize r.run c = out at hc
  obtain ⟨e | a, c'⟩ := out
  · exact .error fun he => hc (congrArg Except.error he)
  · exact hk a c'

theorem Reader.Avoids.withError {ε δ α : Type} {bad : δ} {f : ε → δ} (hf : ∀ e, f e ≠ bad)
    (r : Reader ε α) : (r.withError f).Avoids bad := by
  intro c
  rw [run_withError]
  generalize r.run c = out
  obtain ⟨e | a, c'⟩ := out
  · exact .error (hf e)
  · exact .ok a

/-- A `Code` attribute that cannot be read is malformed. -/
theorem Code.read_avoids (info : Octets) : (Code.read.parse info).Avoids .emptyText := by
  have hmalformed : ∀ {α : Type} (r : Reader ReadError α),
      (r.withError FormatError.malformed).Avoids .emptyText :=
    fun r => .withError (by simp) r
  have hread : Code.read.Avoids .emptyText :=
    (hmalformed _).bind fun _ => (hmalformed _).bind fun _ => (hmalformed _).bind fun _ =>
      (hmalformed _).bind fun _ _ => .ok _
  exact hread _

theorem Attribute.firstCode?_avoids (pool : Pool) (as : List Attribute) :
    (Attribute.firstCode? pool as).Avoids .emptyText := by
  induction as with
  | nil => exact .ok none
  | cons a as ih =>
    have hcode : (a.code? pool).Avoids .emptyText := by
      refine ((pool.octets_avoids a.name).bind fun _ _ => .ok _).bind fun isCode _ => ?_
      cases isCode with
      | true => exact (Code.read_avoids a.info).map _
      | false => exact .ok none
    refine hcode.bind fun found _ => ?_
    cases found with
    | some code => exact .ok _
    | none => exact ih

theorem RunError.ofFormat_avoids {α : Type} {x : Except FormatError α} (h : x.Avoids .emptyText) :
    (RunError.ofFormat x).Avoids (.format .emptyText) :=
  h.mapError fun _ he => RunError.format.inj he

theorem ClassTable.insert_avoids (t : ClassTable) {c : ClassFile} (h : c.pool.NoEmptyText) :
    (t.insert c).Avoids (.format .emptyText) := by
  have hname := RunError.ofFormat_avoids (h.className c.thisClass)
  unfold insert offer ClassFile.name
  cases hc : RunError.ofFormat (c.pool.className c.thisClass) with
  | error e => exact .error fun heq => hname (heq ▸ hc)
  | ok name => by_cases htaken : (t.get? name).isSome = true <;> simp [htaken, Avoids]

/-! ## Listings -/

namespace Listing

/-- Errors that are not fatal are written down. -/
theorem orElse_isOk (render : FormatError → String) {x : Except FormatError String}
    (h : x.Avoids .emptyText) : (orElse render x).isOk := by
  cases x with
  | ok text => rfl
  | error e =>
    cases e with
    | emptyText => exact absurd rfl h
    | _ => rfl

variable {pool : Pool} (h : pool.NoEmptyText)
include h

theorem textAt_isOk (i : Nat) : (textAt pool i).isOk :=
  orElse_isOk _ (h.text i)

theorem memberAt_isOk (i : Nat) (kind : ConstantKind) : (memberAt pool i kind).isOk :=
  orElse_isOk _ ((h.memberRef i kind).map _)

theorem constantBody_isOk (i : Nat) {c : Constant} (hc : c ≠ .utf8 []) :
    (constantBody pool i c).isOk := by
  cases c with
  | utf8 bs =>
    have hbs : bs ≠ [] := fun hnil => hc (congrArg _ hnil)
    refine orElse_isOk _ (((ModifiedUtf8.decode_avoids_empty hbs).map _).mapError fun e he => ?_)
    cases e with
    | empty => rfl
    | _ => cases he
  | integer n => rfl
  | classRef name => exact isOk_map (textAt_isOk h name) _
  | string text => exact isOk_map (textAt_isOk h text) _
  | methodType descriptor => exact isOk_map (textAt_isOk h descriptor) _
  | member kind owner nt => exact isOk_bind (memberAt_isOk h i _) fun _ => rfl
  | nameAndType name descriptor =>
    exact isOk_bind (textAt_isOk h name) fun _ => isOk_bind (textAt_isOk h descriptor) fun _ => rfl
  | methodHandle kind handle => rfl
  | invokeDynamic bootstrap nt => rfl

theorem describeConstant_isOk (i : Nat) {c : Constant} (hc : c ≠ .utf8 []) :
    (describeConstant pool i c).isOk :=
  isOk_bind (constantBody_isOk h i hc) fun _ => rfl

theorem operands_isOk (offset : Nat) (i : Instruction) : (operands pool offset i).isOk := by
  cases i with
  | loadConstant i =>
    refine isOk_bind (orElse_isOk _ ((pool.get_avoids i.toNat).bind fun c _ => ?_)) fun _ => rfl
    cases c with
    | string text => exact (Avoids.of_isOk (textAt_isOk h text)).map _
    | _ => exact .ok _
  | getStatic i | getField i | putField i =>
    exact isOk_bind (memberAt_isOk h i.toNat _) fun _ => rfl
  | invokeVirtual i | invokeSpecial i | invokeStatic i =>
    exact isOk_bind (memberAt_isOk h i.toNat _) fun _ => rfl
  | new i => exact isOk_bind (orElse_isOk _ (h.className i.toNat)) fun _ => rfl
  | _ => rfl

theorem disassemble_isOk (code : Octets) : (disassemble pool code).isOk := by
  refine isOk_mapM_iff.2 fun ⟨offset, step, _⟩ _ => ?_
  cases step with
  | error e => rfl
  | ok d => exact isOk_bind (operands_isOk h offset d.instruction) fun _ => rfl

theorem constantLines_isOk :
    (pool.entries.mapM fun p => constantLine pool p.1 p.2).isOk := by
  refine isOk_mapM_iff.2 fun p hmem => isOk_bind (describeConstant_isOk h p.1 ?_) fun _ => rfl
  obtain ⟨i, constant⟩ := p
  rintro rfl
  exact h (Pool.mem_of_mem_entries hmem)

theorem fieldLine_avoids (m : Member) : (fieldLine pool m).Avoids .emptyText :=
  (h.text m.descriptor).bind fun _ _ => (h.text m.name).bind fun _ _ => .ok _

theorem methodLines_avoids (m : Member) : (methodLines pool m).Avoids .emptyText := by
  refine (Attribute.firstCode?_avoids pool m.attributes).bind fun code _ => ?_
  have hshape : (shape pool m code).Avoids .emptyText := by
    cases code with
    | none => exact .ok _
    | some code => exact (m.argCount_avoids h).bind fun _ _ => .ok _
  refine hshape.bind fun _ _ => (h.text m.name).bind fun _ _ => (h.text m.descriptor).bind ?_
  intro _ _
  cases code with
  | none => exact .ok _
  | some code => exact .of_isOk (isOk_bind (disassemble_isOk h code.octets) fun _ => rfl)

end Listing

theorem Listing.ofClass_avoids {c : ClassFile} (h : c.pool.NoEmptyText) :
    (Listing.ofClass c).Avoids .emptyText := by
  have hheader : (header c).Avoids .emptyText :=
    (h.className c.thisClass).bind fun _ _ => (h.className c.superClass).bind fun _ _ => .ok _
  refine hheader.bind fun _ _ => (Avoids.of_isOk (constantLines_isOk h)).bind fun _ _ => ?_
  refine (Avoids.mapM fun m _ => fieldLine_avoids h m).bind fun _ _ => ?_
  exact (Avoids.mapM fun m _ => methodLines_avoids h m).bind fun _ _ => .ok _

/-! ## Classes -/

/-- Nothing that can be asked about a class fails for an empty text: not the constants of its pool
    and the symbols they make up, not the name of the class, not its methods and their code, not
    whether it can be put into a table, and not its listing or a part of it. -/
structure ClassFile.Legible (c : ClassFile) : Prop where
  get : ∀ i, c.pool.get i ≠ .error .emptyText
  octets : ∀ i, c.pool.octets i ≠ .error .emptyText
  integer : ∀ i, c.pool.integer i ≠ .error .emptyText
  /-- Texts are moreover read within range. -/
  text : ∀ i, c.pool.text i ≠ .error .emptyText ∧ c.pool.text? i = some (c.pool.text i)
  className : ∀ i, c.pool.className i ≠ .error .emptyText
  string : ∀ i, c.pool.string i ≠ .error .emptyText
  nameAndType : ∀ i, c.pool.nameAndType i ≠ .error .emptyText
  memberRef : ∀ i kind, c.pool.memberRef i kind ≠ .error .emptyText
  name : c.name ≠ .error .emptyText
  findMethod? : ∀ method, c.findMethod? method ≠ .error .emptyText
  argCount : ∀ m : Member, m.argCount c.pool ≠ .error .emptyText
  code? : ∀ m : Member, m.code? c.pool ≠ .error .emptyText
  insert : ∀ t : ClassTable, t.insert c ≠ .error (.format .emptyText)
  describeConstant : ∀ i constant, constant ≠ .utf8 [] →
    Listing.describeConstant c.pool i constant ≠ .error .emptyText
  disassemble : ∀ code, Listing.disassemble c.pool code ≠ .error .emptyText
  listing : Listing.ofClass c ≠ .error .emptyText

theorem ClassFile.legible_of_noEmptyText {c : ClassFile} (h : c.pool.NoEmptyText) : c.Legible where
  get := c.pool.get_avoids
  octets := c.pool.octets_avoids
  integer := c.pool.integer_avoids
  text i := ⟨h.text i, Pool.text?_eq fun hempty => h (Pool.mem_of_octets hempty)⟩
  className := h.className
  string := h.string
  nameAndType := h.nameAndType
  memberRef := h.memberRef
  name := h.className c.thisClass
  findMethod? method := Member.find?_avoids c.pool (utf8 method) c.methods
  argCount m := m.argCount_avoids h
  code? m := Attribute.firstCode?_avoids c.pool m.attributes
  insert t := t.insert_avoids h
  describeConstant i _ hc := Avoids.of_isOk (Listing.describeConstant_isOk h i hc)
  disassemble code := Avoids.of_isOk (Listing.disassemble_isOk h code)
  listing := Listing.ofClass_avoids h

end Bytecode
