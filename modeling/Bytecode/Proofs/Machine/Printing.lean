/-
  Programs that print a list of texts, from their assembly to the calls of the host.

  A `PrintProgram` is a class that is put together by requests: for the standard output stream, for
  its method `println` and for strings, in any order and as often as one likes.  Its only method
  fetches the stream, loads a string and calls `println`, once for each text, and returns.

  * `PrintProgram.small`, `PrintProgram.findCode_eq`: the class is small enough to be written, and
    its method is found again in what is read back.
-/
import Bytecode.Proofs.ClassFile.Bodies
import Bytecode.Proofs.ClassFile.PoolSize
import Bytecode.Proofs.Machine.Loading
import Bytecode.Proofs.Machine.Paths
import Mathlib.Data.List.Forall2

namespace Bytecode

theorem Pool.Holds.loadable_eq {pool : Pool} {key : Nat} {text : String}
    (h : pool.Holds key (.string text)) (htext : text ≠ "") :
    pool.loadable key = .ok (.str text) := by
  have hstring : pool.string key = .ok text :=
    h.resolves (List.forall_mem_singleton.2 htext)
  cases h with
  | string _ hget =>
    simp [Pool.loadable, Pool.get, hget, hstring, RunError.ofFormat, Except.mapError_ok, bind,
      Except.bind, Functor.map, Except.map]

/-! ## Prints -/

/-- The keys that the three instructions of a print refer to. -/
structure PrintKeys where
  stream : Nat
  text : Nat
  println : Nat
  deriving DecidableEq, Repr

/-- The instructions of a print: fetch the stream, load the text, call `println`. -/
def PrintKeys.octets (k : PrintKeys) : Octets :=
  0xb2 :: (indexOctets k.stream ++ 0x12 :: UInt8.ofNat k.text :: 0xb6 :: indexOctets k.println)

def printCode (prints : List PrintKeys) : Octets :=
  prints.flatMap PrintKeys.octets ++ [0xb1]

theorem printCode_cons (k : PrintKeys) (prints : List PrintKeys) :
    printCode (k :: prints) = k.octets ++ printCode prints := by
  simp [printCode]

theorem length_printCode (prints : List PrintKeys) :
    (printCode prints).length = 8 * prints.length + 1 := by
  induction prints with
  | nil => rfl
  | cons k prints ih =>
    have hprint : k.octets.length = 8 := rfl
    rw [printCode_cons, List.length_append, ih, hprint, List.length_cons]
    omega

/-- The field that holds the standard output stream, if it is of this type. -/
def streamSymbol (type : String) : Symbol :=
  .member .field "java/lang/System" "out" type

/-- The method `println` of a class. -/
def printlnSymbol (owner : String) : Symbol :=
  .member .method owner "println" "(Ljava/lang/String;)V"

def printlnCall (text : String) : NativeKey × List Value :=
  (NativeTable.consoleKey "println", [.str text])

/-- The keys of a print lead to the stream, to the text and to `println`; the key of the text fits
    its operand. -/
structure PrintKeys.Leads (pool : Pool) (type owner text : String) (k : PrintKeys) : Prop where
  stream : pool.Holds k.stream (streamSymbol type)
  text : pool.Holds k.text (.string text)
  println : pool.Holds k.println (printlnSymbol owner)
  text_le : k.text ≤ 255

namespace Machine

variable {m : Machine} {r : Routine} {f : Frame} {w : World} {fuel : Nat} {type owner : String}
  {native : Native}

/-- A host method that returns nothing is called with its arguments; below the receiver the stack
    stays as it was. -/
theorem run_native {key : NativeKey} {args : List Value} {f' : Frame}
    (h : r.Does f (.native key args f')) (hget : m.natives.get? key = some native)
    (hnative : native args = .ok none) (fuel : Nat) (w : World) :
    ∃ w', w'.calls = w.calls ++ [(key, args)] ∧ m.run (fuel + 1) r f w = m.run fuel r f' w' := by
  obtain ⟨w', halike, -, hrun⟩ := h.run m fuel w
  refine ⟨(w'.note (.native key)).note (.called key args), ?_, ?_⟩
  · simp only [World.calls_note, halike.calls, Event.call?, Option.toList_none, List.append_nil,
      Option.toList_some]
  · rw [hrun]
    simp only [settle, callNative, hget, hnative]
    rfl

/-- **A print calls the host method with its text.** -/
theorem run_print {k : PrintKeys} {text : String} {rest : Octets}
    (hpool : r.pool.constants.length ≤ 65534) (htype : type ≠ "") (howner : owner ≠ "")
    (htext : text ≠ "") (hk : k.Leads r.pool type owner text)
    (hcode : r.code.drop f.pc = k.octets ++ rest)
    (hget : m.natives.get? (NativeTable.consoleKey "println") = some native)
    (hnative : native [.str text] = .ok none) :
    ∃ w', w'.calls = w.calls ++ [printlnCall text] ∧
      m.run (fuel + 3) r f w = m.run fuel r { f with pc := f.pc + 8 } w' := by
  have hsmall : ∀ {key s}, r.pool.Holds key s → key < 65536 := by
    intro key s h
    have hlt := Pool.lt_count_of_kind? h.kind?_eq
    simp only [Pool.count] at hlt
    omega
  have hstream := hk.stream.resolves (by simp [streamSymbol, Symbol.texts, htype])
  have hprintln := hk.println.resolves (by simp [printlnSymbol, Symbol.texts, howner])
  have hargs : Descriptor.argCount "(Ljava/lang/String;)V" = .ok 1 := by
    simp [Descriptor.argCount, Descriptor.countFrom]
  -- the code from each of the three instructions on
  have hcode₁ : r.code.drop f.pc = 0xb2 :: (indexOctets k.stream ++ (0x12 :: UInt8.ofNat k.text ::
      (0xb6 :: (indexOctets k.println ++ rest)))) := by
    simpa [PrintKeys.octets] using hcode
  have hcode₂ : r.code.drop (f.pc + 3) = 0x12 :: UInt8.ofNat k.text ::
      (0xb6 :: (indexOctets k.println ++ rest)) :=
    drop_add_length_of_drop (0xb2 :: indexOctets k.stream) hcode₁
  have hcode₃ : r.code.drop (f.pc + 5) = 0xb6 :: (indexOctets k.println ++ rest) :=
    drop_add_length_of_drop [0x12, UInt8.ofNat k.text] hcode₂
  have hdecodes₁ := decodes_of_drop ⟨0xb2, "getstatic", .unsigned16 .getStatic⟩
    (indexOctets k.stream) rfl hcode₁ rfl
  have hdecodes₂ := decodes_of_drop ⟨0x12, "ldc", .unsigned8 .loadConstant⟩
    [UInt8.ofNat k.text] rfl hcode₂ rfl
  have hdecodes₃ := decodes_of_drop ⟨0xb6, "invokevirtual", .unsigned16 .invokeVirtual⟩
    (indexOctets k.println) rfl hcode₃ rfl
  have hconstant : r.pool.loadable
      (UInt8.ofNat (BigEndian.decode [UInt8.ofNat k.text])).toNat = .ok (.str text) := by
    rw [ofNat_decode_octet, UInt8.toNat_ofNat_of_lt' (Nat.lt_succ_of_le hk.text_le)]
    exact hk.text.loadable_eq htext
  have hpath : r.Path f _ ⟨f.pc + 5, .str text ::
      .staticMember ⟨"java/lang/System", "out", type⟩ :: f.stack, f.locals⟩ :=
    .step (Routine.steps_getStatic hdecodes₁ (by
        rw [toNat_decode_indexOctets (hsmall hk.stream)]; exact hstream))
      (.step (Routine.steps_loadConstant hdecodes₂ hconstant) (.here _))
  have hcall : r.Does ⟨f.pc + 5, [.str text].reverse ++
        .staticMember ⟨"java/lang/System", "out", type⟩ :: f.stack, f.locals⟩
      (.native (NativeTable.consoleKey "println") [.str text]
        ⟨f.pc + 8, f.stack, f.locals⟩) :=
    Routine.does_invokeVirtual hdecodes₃ (by
      rw [toNat_decode_indexOctets (hsmall hk.println)]; exact hprintln) hargs
  obtain ⟨w₁, halike, -, hrun₁⟩ := hpath.run m (fuel + 1) w
  obtain ⟨w₂, hcalls, hrun₂⟩ := run_native hcall hget hnative fuel w₁
  exact ⟨w₂, by rw [hcalls, halike.calls]; rfl, hrun₁.trans hrun₂⟩

/-- **Prints call the host method with their texts, in order**, and then the code returns. -/
theorem run_printCode {texts : List String} {prints : List PrintKeys}
    (hpool : r.pool.constants.length ≤ 65534) (htype : type ≠ "") (howner : owner ≠ "")
    (hprints : List.Forall₂ (fun text k => PrintKeys.Leads r.pool type owner text k) texts prints)
    (htexts : ∀ text ∈ texts, text ≠ "" ∧ native [.str text] = .ok none)
    (hget : m.natives.get? (NativeTable.consoleKey "println") = some native)
    (hcode : r.code.drop f.pc = printCode prints) (hfuel : 3 * texts.length < fuel) :
    ∃ w', w'.calls = w.calls ++ texts.map printlnCall ∧ m.run fuel r f w = (.ok none, w') := by
  induction hprints generalizing f w fuel with
  | nil =>
    obtain ⟨n, rfl⟩ : ∃ n, fuel = n + 1 := ⟨fuel - 1, by omega⟩
    have hreturn := decodes_of_drop ⟨0xb1, "return", .fixed .returnVoid⟩ [] rfl hcode rfl
    obtain ⟨w', halike, -, hrun⟩ := (Routine.does_returnVoid hreturn).run m n w
    exact ⟨w', by rw [halike.calls, List.map_nil, List.append_nil], hrun⟩
  | @cons text k texts prints hk _ ih =>
    rw [List.length_cons] at hfuel
    obtain ⟨n, rfl⟩ : ∃ n, fuel = n + 3 := ⟨fuel - 3, by omega⟩
    obtain ⟨⟨htext, hnative⟩, hrest⟩ := List.forall_mem_cons.1 htexts
    rw [printCode_cons] at hcode
    obtain ⟨w₁, hcalls₁, hrun₁⟩ :=
      run_print (w := w) hpool htype howner htext hk hcode hget hnative
    have hfuel' : 3 * texts.length < n := by omega
    obtain ⟨w₂, hcalls₂, hrun₂⟩ := ih (f := { f with pc := f.pc + 8 }) (w := w₁) hrest
      (drop_add_length_of_drop k.octets hcode) hfuel'
    refine ⟨w₂, ?_, hrun₁.trans hrun₂⟩
    rw [hcalls₂, hcalls₁, List.map_cons, List.append_assoc]
    rfl

end Machine

/-! ## Programs -/

/-- A text that can be written into a class file and read back as a symbol. -/
def Legal (text : String) : Prop :=
  text ≠ "" ∧ (ModifiedUtf8.encode text).length ≤ 65535

instance : DecidablePred Legal := fun _ => instDecidableAnd

/-- A class that prints texts, as it is asked of an assembly: first the constants are requested, in
    any order and any number of times, then its only method is added, whose instructions refer to
    the keys that the requests were answered with. -/
structure PrintProgram where
  name : String
  texts : List String
  /-- The type of the field that holds the stream. -/
  type : String
  /-- The class that `println` is said to belong to. -/
  owner : String
  requests : List Assembly.Edit
  prints : List PrintKeys
  access : AccessFlags
  descriptor : String
  maxStack : Nat
  maxLocals : Nat
  name_legal : Legal name
  texts_legal : ∀ text ∈ texts, Legal text
  type_legal : Legal type
  owner_legal : Legal owner
  descriptor_short : (ModifiedUtf8.encode descriptor).length ≤ 65535
  length_lt : texts.length < 0x10000000
  requests_symbol : ∀ e ∈ requests, e.symbol? = some (streamSymbol type) ∨
    e.symbol? = some (printlnSymbol owner) ∨ ∃ text ∈ texts, e = .string text
  prints_answered : List.Forall₂ (fun text k =>
    (.member .field "java/lang/System" "out" type, some k.stream) ∈
      requests.zip (Assembly.build name requests).1 ∧
    (.string text, some k.text) ∈ requests.zip (Assembly.build name requests).1 ∧
    (.member .method owner "println" "(Ljava/lang/String;)V", some k.println) ∈
      requests.zip (Assembly.build name requests).1 ∧
    k.text ≤ 255) texts prints

namespace PrintProgram

open Assembly

def code (prog : PrintProgram) : Code :=
  ⟨prog.maxStack, prog.maxLocals, printCode prog.prints⟩

def main (prog : PrintProgram) : Edit :=
  .method prog.access "main" prog.descriptor prog.code

/-- The class with its constants, before the method is added. -/
def base (prog : PrintProgram) : Draft :=
  ((prog.requests.mapM Edit.apply) (start prog.name)).2

def cls (prog : PrintProgram) : ClassFile :=
  (build prog.name (prog.requests ++ [prog.main])).2

variable (prog : PrintProgram)

theorem cls_eq : prog.cls = (prog.main.apply prog.base).2.cls := by
  unfold cls base build
  dsimp only
  generalize start prog.name = d
  induction prog.requests generalizing d with
  | nil => rw [List.nil_append, mapM_apply_cons]; rfl
  | cons e requests ih => rw [List.cons_append, mapM_apply_cons, mapM_apply_cons, ih]

theorem legal_members : ∀ s ∈ [streamSymbol prog.type, printlnSymbol prog.owner],
    ∀ t ∈ s.texts, Legal t := by
  simp only [streamSymbol, printlnSymbol, Symbol.texts, List.forall_mem_cons]
  exact ⟨⟨by decide, by decide, prog.type_legal, by simp⟩,
    ⟨prog.owner_legal, by decide, by decide, by simp⟩, by simp⟩

theorem legal_of_symbol? {e : Edit} (he : e ∈ prog.requests) :
    ∃ s, e.symbol? = some s ∧ ∀ t ∈ s.texts, Legal t := by
  rcases prog.requests_symbol e he with hs | hs | ⟨text, htext, rfl⟩
  · exact ⟨_, hs, prog.legal_members _ (by simp)⟩
  · exact ⟨_, hs, prog.legal_members _ (by simp)⟩
  · exact ⟨_, rfl, List.forall_mem_singleton.2 (prog.texts_legal text htext)⟩

/-- The instructions refer to what they are meant to refer to. -/
theorem leads : List.Forall₂
    (fun text k => PrintKeys.Leads prog.base.cls.pool prog.type prog.owner text k)
    prog.texts prog.prints := by
  refine prog.prints_answered.imp fun text k ⟨hstream, htext, hprintln, hle⟩ => ?_
  obtain ⟨_, hkey, hstream⟩ := holds_of_mem_zip hstream rfl
  obtain rfl := Option.some.inj hkey
  obtain ⟨_, hkey, htext⟩ := holds_of_mem_zip htext rfl
  obtain rfl := Option.some.inj hkey
  obtain ⟨_, hkey, hprintln⟩ := holds_of_mem_zip hprintln rfl
  obtain rfl := Option.some.inj hkey
  exact ⟨hstream, htext, hprintln, hle⟩

/-- Every string that was asked for is loaded somewhere, so its key fits an operand. -/
theorem key_le_of_string {text : String} {key : Nat}
    (h : (.string text, some key) ∈ prog.requests.zip (build prog.name prog.requests).1) :
    key ≤ 255 := by
  obtain ⟨_, hkey, hheld⟩ := holds_of_mem_zip h rfl
  obtain rfl := Option.some.inj hkey
  have htext : text ∈ prog.texts := by
    rcases prog.requests_symbol _ (List.of_mem_zip h).1 with hs | hs | ⟨text', htext, heq⟩
    · cases hs
    · cases hs
    · cases heq
      exact htext
  obtain ⟨i, hi, rfl⟩ := List.mem_iff_getElem.1 htext
  have hlen := prog.leads.length_eq
  have hk := prog.leads.get hi (hlen ▸ hi)
  rw [hheld.key_unique (nodup_build prog.name prog.requests) hk.text]
  exact hk.text_le

theorem length_base_le : prog.base.cls.pool.constants.length ≤ 267 := by
  have hrequests : ∀ e ∈ prog.requests,
      (∃ s ∈ [streamSymbol prog.type, printlnSymbol prog.owner], e.symbol? = some s) ∨
        ∃ t, e = .string t := by
    intro e he
    rcases prog.requests_symbol e he with hs | hs | ⟨text, -, heq⟩
    · exact .inl ⟨_, by simp, hs⟩
    · exact .inl ⟨_, by simp, hs⟩
    · exact .inr ⟨text, heq⟩
  -- 255 constants up to the last string, and six for each of the two members
  exact length_build_le prog.name_legal.2 hrequests
    (fun s hs t ht => (prog.legal_members s hs t ht).2) (fun _ _ => prog.key_le_of_string)
    (by decide)

theorem short_base : ∀ c ∈ prog.base.cls.pool.constants, c.Short := by
  refine short_build prog.name_legal.2 fun e he => ?_
  obtain ⟨s, hs, htexts⟩ := prog.legal_of_symbol? he
  exact ⟨s, hs, fun t ht => (htexts t ht).2⟩

theorem extends_base : Extends (start prog.name).cls prog.base.cls := by
  refine mapM_apply_keeps (P := fun cls => Extends (start prog.name).cls cls) ?_ (.refl _)
  intro e he d h
  obtain ⟨s, hs, -⟩ := prog.legal_of_symbol? he
  rw [e.apply_of_symbol? hs]
  exact h.trans (interns_request s d).1

/-- The class has its name and a larger pool, and one method, which has the code. -/
theorem cls_spec : ∃ pool this super m key,
    prog.cls = ⟨⟨52, 0⟩, pool, ⟨0x0021⟩, this, super, [], [m], []⟩ ∧
    prog.base.cls.pool.Grows Pool.Links pool ∧ pool.Holds this (.classRef prog.name) ∧
    pool.Holds m.name (.utf8 "main") ∧ pool.Holds key (.utf8 "Code") ∧
    m.attributes = [⟨key, prog.code.info⟩] := by
  have hdoes := prog.main.does_apply prog.base
  rw [← prog.cls_eq, main] at hdoes
  generalize prog.cls = cls at hdoes
  cases hdoes with
  | symbol hs _ => cases hs
  | @method _ _ _ _ cls' m key hext hm hkey hattrs =>
    have hext' := prog.extends_base.trans hext
    obtain ⟨pool, this, super, hstart, -, hthis, -⟩ := start_spec prog.name
    have hrest := hext'.rest
    have hgrows := hext'.grows
    rw [hstart] at hrest hgrows
    refine ⟨cls'.pool, this, super, m, key, ?_, hext.grows, hthis.mono hgrows, hm.name, hkey,
      hattrs⟩
    rw [hrest]
    rfl

theorem length_code_le : prog.code.octets.length ≤ 0x80000000 := by
  have hlen : prog.code.octets.length = 8 * prog.prints.length + 1 := length_printCode prog.prints
  have hprints := prog.leads.length_eq
  have hlt := prog.length_lt
  omega

/-- The class fits the format: its texts are short, and so is its pool, since the strings in it can
    be loaded. -/
theorem small : prog.cls.Small := by
  have hadds : Adds 3 Constant.Short (addMethod prog.access "main" prog.descriptor prog.code) :=
    adds_addMethod _ _ (by decide) prog.descriptor_short
  have hlength := hadds.length_le prog.base
  have hshort := hadds.forall_mem prog.base prog.short_base
  have hpool : (addMethod prog.access "main" prog.descriptor prog.code prog.base).2.cls.pool =
      prog.cls.pool := by
    rw [prog.cls_eq]
    rfl
  rw [hpool] at hlength hshort
  have hbase := prog.length_base_le
  have hcode := prog.length_code_le
  obtain ⟨pool, this, super, m, key, heq, -, -, -, -, hattrs⟩ := prog.cls_spec
  rw [heq] at hlength hshort ⊢
  exact {
    constants := by dsimp only at hlength ⊢; omega
    texts := fun bs hbs => hshort _ hbs
    fields := by simp
    methods := by simp
    attributes := by simp
    infos := by simp
    memberInfos := by
      simp only [List.nil_append, List.mem_singleton, forall_eq, hattrs]
      simp only [Code.info, indexOctets, List.length_append, BigEndian.length_encode]
      omega }

theorem parse_octets : ClassFile.parse prog.cls.octets = .ok prog.cls := by
  have hpush : ∀ c, .push c ∉ prog.requests ++ [prog.main] := by
    intro c hc
    rcases List.mem_append.1 hc with hc | hc
    · obtain ⟨s, hs, -⟩ := prog.legal_of_symbol? hc
      cases hs
    · cases List.mem_singleton.1 hc
  have hfits : prog.cls.Fits := (assembled_build prog.name hpush).fits prog.small
  rw [ClassFile.parse, Reader.parse, ClassFile.run_read_of_prefix hfits (List.prefix_refl _)]

theorem findCode_eq {t : ClassTable} (h : t.get? prog.name = some prog.cls) :
    t.findCode prog.name "main" = .ok prog.code.wrapped := by
  have hget : t.get prog.name = .ok prog.cls := by simp only [ClassTable.get, h]
  have hcode := prog.length_code_le
  obtain ⟨pool, this, super, m, key, heq, -, -, hname, hkey, hattrs⟩ := prog.cls_spec
  have hmethod : prog.cls.findMethod? "main" = .ok (some m) := by
    rw [heq]
    exact ClassFile.findMethod?_of_holds rfl hname (by decide)
  have hfound : m.code? prog.cls.pool = .ok (some prog.code.wrapped) := by
    rw [heq]
    exact Member.code?_of_holds hkey hattrs (by omega)
  simp [ClassTable.findCode, ClassTable.findMethod, hget, hmethod, hfound, RunError.ofFormat,
    Except.mapError_ok, bind, Except.bind]

theorem name_cls : prog.cls.name = .ok prog.name := by
  obtain ⟨pool, this, super, m, key, heq, -, hthis, -⟩ := prog.cls_spec
  rw [heq]
  exact hthis.className_eq prog.name_legal.1

theorem leads_cls : List.Forall₂
    (fun text k => PrintKeys.Leads prog.cls.pool prog.type prog.owner text k)
    prog.texts prog.prints := by
  obtain ⟨pool, this, super, m, key, heq, hgrows, -⟩ := prog.cls_spec
  rw [heq]
  exact prog.leads.imp fun text k h =>
    ⟨h.stream.mono hgrows, h.text.mono hgrows, h.println.mono hgrows, h.text_le⟩

/-- Running the method of the class calls `println` with the texts. -/
theorem runMethod_of_get? {m : Machine} {native : Native} {fuel : Nat}
    (hcls : m.classes.get? prog.name = some prog.cls)
    (hget : m.natives.get? (NativeTable.consoleKey "println") = some native)
    (hnative : ∀ text ∈ prog.texts, native [.str text] = .ok none)
    (hfuel : 3 * prog.texts.length < fuel) (w : World) :
    (m.runMethod fuel prog.name "main" w).1 = .ok none ∧
      (m.runMethod fuel prog.name "main" w).2.calls = w.calls ++ prog.texts.map printlnCall := by
  have hfirst : m.firstPoint? fuel prog.name "main" [] { w with heap := .empty } = some _ :=
    Machine.firstPoint?_eq_some_iff.2 ⟨prog.cls, prog.code.wrapped,
      by simp only [ClassTable.get, hcls], prog.findCode_eq hcls, Nat.zero_le _, rfl⟩
  obtain ⟨w', hcalls, hrun⟩ := Machine.run_printCode (m := m)
    (r := ⟨prog.cls.pool, printCode prog.prints⟩)
    (f := .start (List.replicate prog.code.wrapped.maxLocals .unset))
    (w := { w with heap := .empty }.note (.entered prog.name "main"))
    prog.small.constants prog.type_legal.1 prog.owner_legal.1 prog.leads_cls
    (fun text h => ⟨(prog.texts_legal text h).1, hnative text h⟩) hget rfl hfuel
  have hinvoke : m.invoke fuel prog.name "main" none [] { w with heap := .empty } =
      (.ok none, w'.note (.exited prog.name "main" none)) := by
    have hleave : m.invoke fuel prog.name "main" none [] { w with heap := .empty } =
        Machine.leave prog.name "main" _ := Machine.invokeWith_of_firstPoint? hfirst (m.run fuel)
    rw [hleave]
    exact congrArg (Machine.leave prog.name "main") hrun
  have hout : m.runMethod fuel prog.name "main" w =
      (.ok none, { w'.note (.exited prog.name "main" none) with heap := w.heap }) := by
    simp only [Machine.runMethod, hinvoke]
  rw [hout]
  refine ⟨rfl, ?_⟩
  -- entering and leaving the method are no calls, nor is the change of the heap
  calc (w'.note (.exited prog.name "main" none)).calls
    _ = w'.calls := World.calls_note_of_none rfl
    _ = ({ w with heap := .empty }.note (.entered prog.name "main")).calls ++
        prog.texts.map printlnCall := hcalls
    _ = w.calls ++ prog.texts.map printlnCall := by
      rw [World.calls_note_of_none rfl]
      rfl

/-- **Texts reach the host as they are.**  The class of a program that prints is read back from
    what is written for it, and can be put into every table that has no class of its name.  There
    its method runs to its end without a result, whatever else the machine has and whatever
    happened before, if `println` returns nothing for the texts; and the calls of host methods that
    are made are those of `println` with each of the texts, in order. -/
theorem runMethod_prints :
    ClassFile.parse prog.cls.octets = .ok prog.cls ∧
    ∀ t : ClassTable, t.get? prog.name = none →
      ∃ t' event, t.insert prog.cls = .ok (t', event) ∧
        ∀ (natives : NativeTable) (policy : HeapPolicy) (native : Native) (fuel : Nat) (w : World),
          natives.get? (NativeTable.consoleKey "println") = some native →
          (∀ text ∈ prog.texts, native [.str text] = .ok none) →
          3 * prog.texts.length < fuel →
          let out := Machine.runMethod ⟨t', natives, policy⟩ fuel prog.name "main" w
          out.1 = .ok none ∧ out.2.calls = w.calls ++ prog.texts.map printlnCall := by
  refine ⟨prog.parse_octets, fun t hnew => ?_⟩
  obtain ⟨t', event, hinsert, hget⟩ := ClassTable.insert_new prog.name_cls hnew
  refine ⟨t', event, hinsert, ?_⟩
  intro natives policy native fuel w hnatives hnative hfuel
  have hcls : t'.get? prog.name = some prog.cls := by rw [hget, if_pos rfl]
  exact prog.runMethod_of_get? hcls hnatives hnative hfuel w

/-- Requests for two strings, one of which holds U+0000 and a character above U+FFFF, and for what
    prints them; the stream is asked for twice. -/
def shuffled : List Edit :=
  [.string "\x00😀", .member .field "java/lang/System" "out" "LP;", .string "a",
    .member .method "P" "println" "(Ljava/lang/String;)V",
    .member .field "java/lang/System" "out" "LP;"]

theorem answers_shuffled :
    (build "A" shuffled).1 = [some 6, some 12, some 14, some 20, some 12] := by
  decide +kernel

/-- Three prints of two texts, in another order than that of the requests. -/
def repeating : PrintProgram where
  name := "A"
  texts := ["a", "\x00😀", "a"]
  type := "LP;"
  owner := "P"
  requests := shuffled
  prints := [⟨12, 14, 20⟩, ⟨12, 6, 20⟩, ⟨12, 14, 20⟩]
  access := ⟨9⟩
  descriptor := "()V"
  maxStack := 2
  maxLocals := 0
  name_legal := by decide
  texts_legal := by decide
  type_legal := by decide
  owner_legal := by decide
  descriptor_short := by decide
  length_lt := by decide
  requests_symbol := by simp [shuffled, Edit.symbol?, streamSymbol, printlnSymbol]
  prints_answered := by
    rw [answers_shuffled]
    simp [shuffled]

/-- The text that is printed twice and the one between arrive with all their characters. -/
theorem runMethod_prints_repeating :
    ∃ t event, ClassTable.empty.insert repeating.cls = .ok (t, event) ∧
      let out := Machine.runMethod ⟨t, .console, .isolateStatic⟩ 10 "A" "main" .start
      out.1 = .ok none ∧
        out.2.calls = [printlnCall "a", printlnCall "\x00😀", printlnCall "a"] := by
  obtain ⟨-, hload⟩ := repeating.runMethod_prints
  obtain ⟨t, event, hinsert, hrun⟩ := hload .empty rfl
  exact ⟨t, event, hinsert, hrun .console .isolateStatic Native.silent 10 .start rfl
    (fun _ _ => rfl) (by decide)⟩

end PrintProgram

end Bytecode
