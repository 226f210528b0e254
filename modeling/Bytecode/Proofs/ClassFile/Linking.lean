/-
  Classes that are assembled from symbols are closed, and survive being written.

  * `ClassFile.Linked`: every key in a class file leads to a constant of the kind that its place
    asks for, and constants refer to earlier ones only;
  * `Assembled` is what every request keeps but the one for a constant as it is: such a request
    gives no promise about the keys in it;
  * `Assembled.fits`: the keys of an assembled class fit the format as soon as its texts, tables
    and payloads are short enough (`ClassFile.Small`);
  * `Assembly.build_linked`: a class assembled from symbols is linked and, if small, is read back
    from what is written for it.
-/
import Bytecode.Proofs.ClassFile.Interning
import Bytecode.Proofs.ClassFile.RoundTrip

namespace Bytecode

/-! ## Linked class files -/

/-- The name and the descriptor of a member and the names of its attributes are keys of texts. -/
structure Member.Linked (pool : Pool) (m : Member) : Prop where
  name : pool.kind? m.name = some .utf8
  descriptor : pool.kind? m.descriptor = some .utf8
  attributes : ∀ a ∈ m.attributes, pool.kind? a.name = some .utf8

/-- Every key in a class file leads to a constant of the kind that its place asks for; the keys in
    a constant are smaller than its own. -/
structure ClassFile.Linked (cls : ClassFile) : Prop where
  constants : ∀ key c, cls.pool.get? key = some c →
    c.Refers fun i kind => i < key ∧ cls.pool.kind? i = some kind
  thisClass : cls.pool.kind? cls.thisClass = some .classRef
  superClass : cls.pool.kind? cls.superClass = some .classRef
  fields : ∀ m ∈ cls.fields, m.Linked cls.pool
  methods : ∀ m ∈ cls.methods, m.Linked cls.pool
  attributes : ∀ a ∈ cls.attributes, cls.pool.kind? a.name = some .utf8

/-- The texts, the tables and the contents of the attributes are short enough for the format.
    Nothing is said of keys. -/
structure ClassFile.Small (cls : ClassFile) : Prop where
  constants : cls.pool.constants.length ≤ 65534
  texts : ∀ bs, .utf8 bs ∈ cls.pool.constants → bs.length ≤ 65535
  fields : cls.fields.length ≤ 65535
  methods : cls.methods.length ≤ 65535
  attributes : cls.attributes.length ≤ 65535
  infos : ∀ a ∈ cls.attributes, a.info.length < 0x100000000
  memberInfos : ∀ m ∈ cls.fields ++ cls.methods, ∀ a ∈ m.attributes, a.info.length < 0x100000000

theorem Constant.Refers.imp {R S : Nat → ConstantKind → Prop} {c : Constant} (h : c.Refers R)
    (himp : ∀ i kind, R i kind → S i kind) : c.Refers S := by
  cases c with
  | utf8 _ => trivial
  | integer _ => trivial
  | classRef _ => exact himp _ _ h
  | string _ => exact himp _ _ h
  | methodType _ => exact himp _ _ h
  | member _ _ _ => exact ⟨himp _ _ h.1, himp _ _ h.2⟩
  | nameAndType _ _ => exact ⟨himp _ _ h.1, himp _ _ h.2⟩
  | methodHandle _ _ =>
    obtain ⟨kind, h⟩ := h
    exact ⟨kind, himp _ _ h⟩
  | invokeDynamic _ _ => exact himp _ _ h

namespace Pool

variable {pool : Pool} {key : Nat} {c : Constant}

theorem lt_count_of_kind? {kind : ConstantKind} (h : pool.kind? key = some kind) :
    key < pool.count := by
  obtain ⟨c, hc, -⟩ := Option.map_eq_some_iff.1 h
  exact lt_count_of_get? hc

/-- In a pool that grew from nothing by constants that link to it, a constant refers to earlier
    ones. -/
theorem Grows.refers (h : (⟨[]⟩ : Pool).Grows Links pool) (hkey : pool.get? key = some c) :
    c.Refers (fun i kind => i < key ∧ pool.kind? i = some kind) ∧ c.kind ≠ .invokeDynamic := by
  induction h with
  | refl => cases key <;> cases hkey
  | @add pool' c' _ hnew hlinks ih =>
    have hgrows : pool'.Grows Links ⟨pool'.constants ++ [c']⟩ := Grows.refl.add hnew hlinks
    rw [get?_concat] at hkey
    split at hkey
    · -- the new constant: its keys are live, hence below the next one
      next heq =>
      obtain rfl := Option.some.inj hkey
      refine ⟨hlinks.1.imp fun i kind hi => ?_, hlinks.2⟩
      exact ⟨heq ▸ lt_count_of_kind? hi, hgrows.kind? hi⟩
    · obtain ⟨hrefers, hkind⟩ := ih hkey
      exact ⟨hrefers.imp fun i kind hi => ⟨hi.1, hgrows.kind? hi.2⟩, hkind⟩

/-- The keys in the constants of such a pool fit the format if their number and the texts do. -/
theorem Grows.fits (h : (⟨[]⟩ : Pool).Grows Links pool) (hcount : pool.constants.length ≤ 65534)
    (htexts : ∀ bs, .utf8 bs ∈ pool.constants → bs.length ≤ 65535) : pool.Fits := by
  refine ⟨hcount, fun c hc => ?_⟩
  obtain ⟨i, hi, rfl⟩ := List.mem_iff_getElem.1 hc
  have hget : pool.get? (i + 1) = some pool.constants[i] := List.getElem?_eq_getElem hi
  obtain ⟨hrefers, hkind⟩ := h.refers hget
  have hkeys : pool.constants[i].Refers fun k _ => k < 65536 :=
    hrefers.imp fun k _ hk => by omega
  generalize pool.constants[i] = c at hc hkeys hkind
  cases c with
  | utf8 bs => exact Nat.lt_succ_of_le (htexts bs hc)
  | integer _ => trivial
  | classRef _ => exact hkeys
  | string _ => exact hkeys
  | methodType _ => exact hkeys
  | member _ _ _ => exact hkeys
  | nameAndType _ _ => exact hkeys
  | methodHandle _ _ => exact hkeys.elim fun _ h => h
  | invokeDynamic _ _ => exact absurd rfl hkind

end Pool

theorem Member.Linked.mono {pool pool' : Pool} {m : Member} (h : m.Linked pool)
    (hgrows : pool.Grows Pool.Links pool') : m.Linked pool' :=
  ⟨hgrows.kind? h.name, hgrows.kind? h.descriptor, fun a ha => hgrows.kind? (h.attributes a ha)⟩

/-! ## What requests keep -/

namespace Assembly

/-- A member as requests make it. -/
structure MemberAssembled (pool : Pool) (m : Member) : Prop extends m.Linked pool where
  attributes_length : m.attributes.length ≤ 1

/-- A class as requests for symbols and members make it. -/
structure Assembled (cls : ClassFile) : Prop where
  pool : (⟨[]⟩ : Pool).Grows Pool.Links cls.pool
  thisClass : cls.pool.kind? cls.thisClass = some .classRef
  superClass : cls.pool.kind? cls.superClass = some .classRef
  fields : ∀ m ∈ cls.fields, MemberAssembled cls.pool m
  methods : ∀ m ∈ cls.methods, MemberAssembled cls.pool m
  attributes : ∀ a ∈ cls.attributes, cls.pool.kind? a.name = some .utf8

variable {cls cls' : ClassFile}

theorem assembled_start (name : String) : Assembled (start name).cls := by
  obtain ⟨pool, this, super, heq, hgrows, hthis, hsuper⟩ := start_spec name
  rw [heq]
  exact ⟨hgrows, hthis.kind?_eq, hsuper.kind?_eq, nofun, nofun, nofun⟩

theorem Assembled.extend (h : Assembled cls) (hext : Extends cls cls') : Assembled cls' := by
  obtain ⟨hgrows, hrest⟩ := hext
  have hmember : ∀ {m}, MemberAssembled cls.pool m → MemberAssembled cls'.pool m :=
    fun hm => ⟨hm.toLinked.mono hgrows, hm.attributes_length⟩
  rw [hrest]
  exact ⟨h.pool.trans hgrows, hgrows.kind? h.thisClass, hgrows.kind? h.superClass,
    fun m hm => hmember (h.fields m hm), fun m hm => hmember (h.methods m hm),
    fun a ha => hgrows.kind? (h.attributes a ha)⟩

theorem Names.assembled {pool : Pool} {access : AccessFlags} {name descriptor : String}
    {m : Member} (h : Names pool access name descriptor m) (hlength : m.attributes.length ≤ 1)
    (hattrs : ∀ a ∈ m.attributes, pool.kind? a.name = some .utf8) : MemberAssembled pool m :=
  ⟨⟨h.name.kind?_eq, h.descriptor.kind?_eq, hattrs⟩, hlength⟩

theorem Assembled.addField (h : Assembled cls) {m : Member} (hm : MemberAssembled cls.pool m) :
    Assembled { cls with fields := cls.fields ++ [m] } :=
  { h with fields := List.forall_mem_append.2 ⟨h.fields, List.forall_mem_singleton.2 hm⟩ }

theorem Assembled.addMethod (h : Assembled cls) {m : Member} (hm : MemberAssembled cls.pool m) :
    Assembled { cls with methods := cls.methods ++ [m] } :=
  { h with methods := List.forall_mem_append.2 ⟨h.methods, List.forall_mem_singleton.2 hm⟩ }

theorem Edit.Does.assembled {e : Edit} (h : e.Does cls cls') (he : ∀ c, e ≠ .push c)
    (hcls : Assembled cls) : Assembled cls' := by
  cases h with
  | @push c _ _ _ => exact absurd rfl (he c)
  | symbol _ hext => exact hcls.extend hext
  | field hext hm hattrs =>
    exact (hcls.extend hext).addField (hm.assembled (by simp [hattrs]) (by simp [hattrs]))
  | method hext hm hkey hattrs =>
    refine (hcls.extend hext).addMethod (hm.assembled (by simp [hattrs]) ?_)
    rw [hattrs]
    exact List.forall_mem_singleton.2 hkey.kind?_eq
  | bodiless hext hm hattrs =>
    exact (hcls.extend hext).addMethod (hm.assembled (by simp [hattrs]) (by simp [hattrs]))
  | ofClass hext hkey =>
    have h := hcls.extend hext
    exact { h with attributes :=
      List.forall_mem_append.2 ⟨h.attributes, List.forall_mem_singleton.2 hkey.kind?_eq⟩ }

theorem assembled_build (name : String) {edits : List Edit} (h : ∀ c, .push c ∉ edits) :
    Assembled (build name edits).2 := by
  -- by induction on the requests, with `Assembled` as the invariant
  refine mapM_apply_keeps (fun e he d hcls => ?_) (assembled_start name)
  refine (e.does_apply d).assembled (fun c hc => ?_) hcls
  exact h c (hc ▸ he)

/-! ## Assembled classes -/

theorem Assembled.linked (h : Assembled cls) : cls.Linked where
  constants _ _ hkey := (h.pool.refers hkey).1
  thisClass := h.thisClass
  superClass := h.superClass
  fields m hm := (h.fields m hm).toLinked
  methods m hm := (h.methods m hm).toLinked
  attributes := h.attributes

theorem Assembled.fits (h : Assembled cls) (hsmall : cls.Small) : cls.Fits := by
  have hkey : ∀ {key kind}, cls.pool.kind? key = some kind → key < 65536 := fun hkind =>
    Nat.lt_of_lt_of_le (Pool.lt_count_of_kind? hkind)
      (Nat.le_trans (Nat.succ_le_succ hsmall.constants) (by decide))
  have hmember : ∀ {m}, MemberAssembled cls.pool m →
      (∀ a ∈ m.attributes, a.info.length < 0x100000000) → m.Fits := by
    intro m hm hinfos
    exact ⟨hkey hm.name, hkey hm.descriptor, Nat.lt_of_le_of_lt hm.attributes_length (by decide),
      fun a ha => ⟨hkey (hm.attributes a ha), hinfos a ha⟩⟩
  exact {
    pool := h.pool.fits hsmall.constants hsmall.texts
    thisClass := hkey h.thisClass
    superClass := hkey h.superClass
    fields := ⟨Nat.lt_succ_of_le hsmall.fields, fun m hm => hmember (h.fields m hm)
      (hsmall.memberInfos m (List.mem_append_left _ hm))⟩
    methods := ⟨Nat.lt_succ_of_le hsmall.methods, fun m hm => hmember (h.methods m hm)
      (hsmall.memberInfos m (List.mem_append_right _ hm))⟩
    attributes := ⟨Nat.lt_succ_of_le hsmall.attributes,
      fun a ha => ⟨hkey (h.attributes a ha), hsmall.infos a ha⟩⟩ }

/-- **A class assembled from symbols is closed.**  Whatever is asked of an assembly but to take a
    constant as it is: every key in the class that is built leads to a constant of the right kind,
    in constants to an earlier one; and if its texts, tables and attributes are short enough, the
    class is read back from what is written for it. -/
theorem build_linked (name : String) (edits : List Edit) (h : ∀ c, .push c ∉ edits) :
    let cls := (build name edits).2
    cls.Linked ∧ (cls.Small → ClassFile.parse cls.octets = .ok cls) := by
  have hcls := assembled_build name h
  refine ⟨hcls.linked, fun hsmall => ?_⟩
  rw [ClassFile.parse, Reader.parse,
    ClassFile.run_read_of_prefix (hcls.fits hsmall) (List.prefix_refl _)]

/-- A class with a field, a method that has code, one that has none, a reference and an attribute,
    whose names they share. -/
theorem build_linked_shared_names :
    let edits : List Edit := [.field ⟨1⟩ "x" "I", .method ⟨9⟩ "x" "()I" ⟨1, 0, [0x03, 0xac]⟩,
      .bodiless ⟨0x101⟩ "y" "()I", .member .method "A" "x" "()I", .attribute "y" [0, 1]]
    let cls := (build "A" edits).2
    cls.Linked ∧ cls.Small ∧ ClassFile.parse cls.octets = .ok cls := by
  intro edits cls
  obtain ⟨hlinked, hread⟩ := build_linked "A" edits (by simp [edits])
  have hfits : ∀ c ∈ cls.pool.constants, c.Fits := by decide +kernel
  have hsmall : cls.Small := {
    constants := by decide +kernel
    texts := fun bs hbs => Nat.le_of_lt_succ (hfits _ hbs)
    fields := by decide +kernel
    methods := by decide +kernel
    attributes := by decide +kernel
    infos := by decide +kernel
    memberInfos := by decide +kernel }
  exact ⟨hlinked, hsmall, hread hsmall⟩

end Assembly

end Bytecode
