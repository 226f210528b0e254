/-
  Methods and their code, looked up in a table of classes.
-/
import Bytecode.Proofs.ClassFile.Lookup
import Bytecode.Proofs.Machine.Loading
import Bytecode.Proofs.Machine.Paths

namespace Bytecode

open ModifiedUtf8 (isPlain)

/-! ## Code in a table -/

namespace ClassTable

variable {t : ClassTable} {name method : String} {c : ClassFile}

theorem get_of_get? (h : t.get? name = some c) : t.get name = .ok c := by
  simp only [get, h]

theorem findMethod_eq (h : t.get? name = some c) {found : Option Member}
    (hfind : c.findMethod? method = .ok found) :
    t.findMethod name method = found.elim (.error (.methodNotFound name method)) .ok := by
  simp only [findMethod, get_of_get? h, bind, Except.bind, hfind, RunError.ofFormat,
    Except.mapError_ok]
  cases found <;> rfl

theorem findCode_of_none (h : t.get? name = some c) (hfind : c.findMethod? method = .ok none) :
    t.findCode name method = .error (.methodNotFound name method) := by
  simp only [findCode, get_of_get? h, findMethod_eq h hfind]
  rfl

theorem findCode_of_some (h : t.get? name = some c) {m : Member} {body : Option Code}
    (hfind : c.findMethod? method = .ok (some m)) (hcode : m.code? c.pool = .ok body) :
    t.findCode name method = body.elim (.error (.codeNotFound name method)) .ok := by
  simp only [findCode, get_of_get? h, findMethod_eq h hfind, Option.elim_some, bind, Except.bind,
    hcode, RunError.ofFormat, Except.mapError_ok]
  cases body <;> rfl

end ClassTable

/-- **Code that is given to an assembly is the code that is found.**  Whatever else is asked of it,
    constants pushed as they are included: the class that is built can be put into a table, under
    the name that it was started with; and in every table that has it there, what is found under a
    plain name is settled by the first method that was asked for under this name.  If this was to
    have code that fits its fields, then just this code is found; if it was to have none, there is
    no code; and if no method was asked for, there is no method. -/
theorem Assembly.findCode_build (name : String) (hname : name ≠ "") (edits : List Edit)
    (method : String) (hplain : isPlain method = true) :
    let cls := (build name edits).2
    let asked := (methodsOf edits).lookup method
    (∃ t, (ClassTable.ofClasses [cls]).1 = .ok t ∧ t.get? name = some cls) ∧
    ∀ t : ClassTable, t.get? name = some cls →
      (∀ code, asked = some (some code) → code.Fits → t.findCode name method = .ok code) ∧
      (asked = some none → t.findCode name method = .error (.codeNotFound name method)) ∧
      (asked = none → t.findCode name method = .error (.methodNotFound name method)) := by
  intro cls asked
  refine ⟨?_, fun t ht => ?_⟩
  · obtain ⟨t, event, hinsert, hget⟩ := ClassTable.insert_new (t := .empty)
      (name_build hname edits) rfl
    refine ⟨t, ?_, by rw [hget, if_pos rfl]⟩
    simp only [ClassTable.ofClasses, ClassTable.insertAll, cls, hinsert]
  · obtain ⟨hmissing, hfound⟩ := find?_of_answers (methods_build name edits) hplain
    have hbody : ∀ body, asked = some body → (∀ code ∈ body, code.Fits) →
        t.findCode name method = body.elim (.error (.codeNotFound name method)) .ok := by
      intro body hasked hfits
      obtain ⟨m, hm, hanswers⟩ := hfound body hasked
      exact ClassTable.findCode_of_some ht hm (hanswers.code?_eq hfits)
    refine ⟨fun code hasked hfits => ?_, fun hasked => ?_, fun hasked => ?_⟩
    · exact hbody (some code) hasked fun _ hmem => Option.some.inj hmem ▸ hfits
    · exact hbody none hasked fun _ hmem => nomatch hmem
    · exact ClassTable.findCode_of_none ht (hmissing hasked)

/-- The name `Code` is that of an attribute, of a method without code and of one with code; the name
    of the others was pushed as it is, before there was a method of this name. -/
theorem Assembly.findCode_build_shadowed :
    let edits : List Edit := [.push (.utf8 [0x72, 0x75, 0x6e]), .attribute "Code" [1],
      .bodiless ⟨0x401⟩ "Code" "()V", .method ⟨9⟩ "run" "()I" ⟨1, 0, [0x04, 0xac]⟩,
      .method ⟨9⟩ "run" "()I" ⟨1, 0, [0x05, 0xac]⟩, .method ⟨9⟩ "Code" "()I" ⟨1, 0, [0x06, 0xac]⟩]
    let t : ClassTable := ⟨[("A", (build "A" edits).2)]⟩
    t.findCode "A" "run" = .ok ⟨1, 0, [0x04, 0xac]⟩ ∧
      t.findCode "A" "Code" = .error (.codeNotFound "A" "Code") ∧
      t.findCode "A" "walk" = .error (.methodNotFound "A" "walk") := by
  intro edits t
  have hfind := fun method hplain => (findCode_build "A" (by decide) edits method hplain).2 t
    (by simp [t, ClassTable.get?])
  refine ⟨(hfind "run" (by decide)).1 _ ?_ ?_, (hfind "Code" (by decide)).2.1 ?_,
    (hfind "walk" (by decide)).2.2 ?_⟩
  · decide
  · exact ⟨by decide, by decide, by decide⟩
  · decide
  · decide

/-! ## Methods that cannot be called -/

/-- An instruction that calls the methods of classes by a reference, be it without an object or on
    one, calls the method that the reference names, unless it leaves the call out. -/
theorem perform_by_reference {r : Routine} {heap : Heap} {offset : Nat} {i : Instruction}
    {index : UInt16} {f : Frame} {ref : MemberRef} {effect : Effect}
    (hi : i = .invokeStatic index ∨ i = .invokeSpecial index)
    (href : r.pool.memberRef index.toNat (.member .method) = .ok ref)
    (hroot : ref.isRootConstructor = false) (h : perform r heap offset i f = .ok effect) :
    ∃ receiver args g, effect = .call ref receiver args g := by
  have href' : RunError.ofFormat (r.pool.memberRef index.toNat (.member .method)) = .ok ref :=
    Except.mapError_eq_ok_iff.2 href
  rcases hi with rfl | rfl
  · simp only [perform, href', Except.bind_eq_ok_iff, Except.ok.injEq, exists_eq_left'] at h
    obtain ⟨popped, -, h⟩ := h
    exact ⟨none, _, _, (Except.pure_eq_ok_iff.1 h).symm⟩
  · simp only [perform, href', hroot, Except.bind_eq_ok_iff, Except.ok.injEq, exists_eq_left'] at h
    obtain ⟨popped, -, receiver, -, id, -, h⟩ := h
    exact ⟨some receiver.1, _, _, (Except.pure_eq_ok_iff.1 h).symm⟩

namespace Machine

variable {m : Machine} {className method : String}

theorem invokeWith_of_not_found {c : ClassFile} (hget : m.classes.get? className = some c)
    (hfind : c.findMethod? method = .ok none)
    (run : Routine → Frame → World → Result × World) (receiver : Option Value) (args : List Value)
    (w : World) :
    m.invokeWith run className method receiver args w =
      (.error (.error (.methodNotFound className method)), w) := by
  simp only [invokeWith, ClassTable.get_of_get? hget, ClassTable.findCode_of_none hget hfind]

/-- A call by a reference to a method that is not found ends the run; the method is not entered. -/
theorem run_of_not_found {c : ClassFile} (hget : m.classes.get? className = some c)
    (hfind : c.findMethod? method = .ok none) (hinit : method ≠ "<init>") {p : Point}
    {i : Instruction} {next : Nat} {index : UInt16} {descriptor : String}
    (hdecodes : Decodes p.routine.code p.frame.pc i next)
    (hi : i = .invokeStatic index ∨ i = .invokeSpecial index)
    (href : p.routine.pool.memberRef index.toNat (.member .method) =
      .ok ⟨className, method, descriptor⟩) :
    p.callee? m = none ∧ ∃ why, (p.run m).1 = .error why := by
  obtain ⟨tag, mnemonic, hfetch⟩ := hdecodes
  have hroot : (⟨className, method, descriptor⟩ : MemberRef).isRootConstructor = false := by
    simp [MemberRef.isRootConstructor, hinit]
  -- whatever the effect of the instruction is, it is a call of this very method
  have hcall : ∀ {effect w}, p.effect? = some (effect, w) → ∃ receiver args g,
      effect = .call ⟨className, method, descriptor⟩ receiver args g := by
    intro effect w heffect
    obtain ⟨d, next', hfetch', hperform, -⟩ := Point.effect?_eq_some_iff.1 heffect
    obtain ⟨rfl, rfl⟩ := Prod.mk.inj (Except.ok.inj (hfetch'.symm.trans hfetch))
    exact perform_by_reference hi href hroot hperform
  constructor
  · by_contra hsome
    obtain ⟨q, hq⟩ := Option.ne_none_iff_exists'.1 hsome
    obtain ⟨fuel, callee, receiver, args, f, w, -, heffect, hfirst⟩ :=
      Point.callee?_eq_some_iff.1 hq
    obtain ⟨_, _, _, heq⟩ := hcall heffect
    obtain ⟨rfl, -, -, -⟩ := Effect.call.inj heq
    obtain ⟨_, code, -, hcode, -, -⟩ := firstPoint?_eq_some_iff.1 hfirst
    rw [ClassTable.findCode_of_none hget hfind] at hcode
    cases hcode
  · cases hfuel : p.fuel with
    | zero => exact ⟨.outOfFuel, by rw [Point.run, hfuel]; rfl⟩
    | succ fuel =>
      rw [Point.run_of_fuel hfuel]
      cases hperform : perform p.routine p.world.heap p.frame.pc i
          { p.frame with pc := next } with
      | error e => exact ⟨.error e, by rw [step_of_fault hfetch hperform]⟩
      | ok effect =>
        have heffect := Point.effect?_eq_some_iff.2 ⟨_, _, hfetch, hperform, rfl⟩
        obtain ⟨receiver, args, g, rfl⟩ := hcall heffect
        rw [Point.step_of_effect? _ heffect, settle, callOnHeap_eq]
        simp only [caller, invokeWith_of_not_found hget hfind]
        exact ⟨_, rfl⟩

end Machine

/-- **Methods are found by plain names only.**  Let the names of all methods of a class be texts.
    Then the first method whose name is a given plain text is what is found under this text.  Under
    a text with U+0000 or a character above U+FFFF nothing is found, even if a method has this name:
    in a machine with this class the method cannot be called from outside, and a call by a reference
    that resolves to it ends the run without entering the method. -/
theorem ClassFile.finds_plain_names (c : ClassFile)
    (h : ∀ m ∈ c.methods, ∃ text, c.pool.text m.name = .ok text) (name : String) :
    (isPlain name = true → c.findMethod? name =
      .ok (c.methods.find? fun m => (c.pool.text m.name).toOption = some name)) ∧
    (isPlain name = false → c.findMethod? name = .ok none ∧
      ∀ (m : Machine) (className : String), m.classes.get? className = some c →
        (∀ fuel receiver args w, m.invoke fuel className name receiver args w =
          (.error (.error (.methodNotFound className name)), w)) ∧
        ∀ (p : Point) (i : Instruction) (next : Nat) (index : UInt16) (descriptor : String),
          Decodes p.routine.code p.frame.pc i next →
          (i = .invokeStatic index ∨ i = .invokeSpecial index) →
          p.routine.pool.memberRef index.toNat (.member .method) =
            .ok ⟨className, name, descriptor⟩ →
          p.callee? m = none ∧ ∃ why, (p.run m).1 = .error why) := by
  have hfind := findMethod?_of_texts h name
  refine ⟨fun hplain => by rw [hfind, if_pos hplain], fun hplain => ?_⟩
  have hnone : c.findMethod? name = .ok none := by
    rw [hfind, if_neg (Bool.eq_false_iff.1 hplain)]
  have hinit : name ≠ "<init>" := by
    rintro rfl
    exact absurd hplain (by decide)
  refine ⟨hnone, fun m className hget => ⟨fun fuel receiver args w => ?_, ?_⟩⟩
  · exact Machine.invokeWith_of_not_found hget hnone (m.run fuel) receiver args w
  · intro p i next index descriptor hdecodes hi href
    exact Machine.run_of_not_found hget hnone hinit hdecodes hi href

/-- A class with a method whose name is not plain, and one that calls it by a reference. -/
def veiled : ClassFile :=
  (Assembly.build "A" [.method ⟨9⟩ "𝌹" "()I" ⟨1, 0, [0x08, 0xac]⟩,
    .member .method "A" "𝌹" "()I", .method ⟨9⟩ "main" "()I" ⟨1, 0, [0xb8, 0, 9, 0xac]⟩]).2

/-- The caller is found, the method that it calls is not, though there is one of this name. -/
theorem ClassFile.finds_plain_names_veiled :
    veiled.methods.map (fun m => (veiled.pool.text m.name).toOption) = [some "𝌹", some "main"] ∧
    veiled.findMethod? "main" = .ok veiled.methods[1]? ∧ veiled.findMethod? "𝌹" = .ok none ∧
    let m : Machine := ⟨⟨[("A", veiled)]⟩, .empty, .shared⟩
    let p : Point := ⟨5, ⟨veiled.pool, [0xb8, 0, 9, 0xac]⟩, .start [], .start⟩
    p.callee? m = none ∧ ∃ why, (p.run m).1 = .error why := by
  have htexts : veiled.methods.map (fun m => (veiled.pool.text m.name).toOption) =
      [some "𝌹", some "main"] := by decide +kernel
  have hnames : ∀ m ∈ veiled.methods, ∃ text, veiled.pool.text m.name = .ok text := by
    intro m hm
    have htext := List.mem_map_of_mem (f := fun m => (veiled.pool.text m.name).toOption) hm
    rw [htexts] at htext
    simp only [List.mem_cons, List.not_mem_nil, or_false] at htext
    rcases htext with htext | htext
    · exact ⟨_, Except.toOption_eq_some_iff.1 htext⟩
    · exact ⟨_, Except.toOption_eq_some_iff.1 htext⟩
  have hmain : veiled.methods.find? (fun m => (veiled.pool.text m.name).toOption = some "main") =
      veiled.methods[1]? := by decide +kernel
  have href : veiled.pool.memberRef 9 (.member .method) = .ok ⟨"A", "𝌹", "()I"⟩ :=
    Except.toOption_eq_some_iff.1 (by decide +kernel)
  have hcall : Decodes [0xb8, 0, 9, 0xac] 0 (.invokeStatic 9) 3 :=
    ⟨0xb8, "invokestatic", Except.toOption_eq_some_iff.1 (by decide +kernel)⟩
  obtain ⟨hnone, hmachine⟩ := (finds_plain_names veiled hnames "𝌹").2 (by decide)
  refine ⟨htexts, ?_, hnone, ?_⟩
  · rw [(finds_plain_names veiled hnames "main").1 (by decide), hmain]
  · intro m p
    exact (hmachine m "A" (by simp [m, ClassTable.get?])).2 p _ 3 9 "()I" hcall (.inl rfl) href

end Bytecode
