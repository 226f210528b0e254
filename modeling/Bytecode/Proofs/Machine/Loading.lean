/-
  Classes and host methods that a run did not miss.

  A machine `Extends` another one if it has all that this one has, and if what else it has is what
  this one would miss with an error in a given set.  Nothing recovers from such an error, so a run
  that does not end with one is the same on the larger machine:

  * `ClassTable.findCode_congr`: a method is looked for in the class of its name alone;
  * `Machine.extends_of_class`, `Machine.extends_of_native`: one more class, or one more host
    method, makes a larger machine in this sense.
-/
import Bytecode.ClassFile.Assembly
import Bytecode.Proofs.Machine.Agreement

namespace Bytecode

namespace ClassTable

variable {t t' : ClassTable} {name method : String}

theorem get_congr (h : t'.get? name = t.get? name) : t'.get name = t.get name := by
  simp only [get, h]

theorem findCode_congr (h : t'.get? name = t.get? name) :
    t'.findCode name method = t.findCode name method := by
  simp only [findCode, findMethod, get_congr h]

/-- A class whose name is new can be put in, and no other name is affected. -/
theorem insert_new {c : ClassFile} (hname : c.name = .ok name) (hnew : t.get? name = none) :
    ∃ t' event, t.insert c = .ok (t', event) ∧
      ∀ other, t'.get? other = if other = name then some c else t.get? other := by
  refine ⟨⟨t.classes ++ [(name, c)]⟩, .loaded name c.version c.methods.length, ?_, fun other => ?_⟩
  · have hformat : RunError.ofFormat c.name = .ok name := by rw [hname]; rfl
    simp [insert, offer, hformat, hnew]
  · unfold get?
    rw [List.lookup_append]
    by_cases hother : other = name
    · subst hother
      have hnone : t.classes.lookup other = none := hnew
      simp [hnone]
    · simp [List.lookup_cons, beq_false_of_ne hother, hother]

end ClassTable

namespace Machine

/-- `m'` has all that `m` has; what else it has is missed by `m` with an error in `E`. -/
structure Extends (E : RunError → Prop) (m m' : Machine) : Prop where
  policy : m'.policy = m.policy
  classes : ∀ name, m'.classes.get? name = m.classes.get? name ∨
    m.classes.get? name = none ∧ E (.classNotFound name)
  natives : ∀ key, m'.natives.get? key = m.natives.get? key ∨
    m.natives.get? key = none ∧ E (.nativeNotFound key)

end Machine

/-- The second run is the same as the first, unless this ends with an error in `E`. -/
def Agreement.unlessError (E : RunError → Prop) : Agreement :=
  .sameUnless fun why => ∃ e, why = .error e ∧ E e

namespace Machine

variable {E : RunError → Prop} {m m' : Machine}

theorem invoke_of_missing {fuel : Nat} {className method : String} {receiver : Option Value}
    {args : List Value} {w : World} (h : m.classes.get? className = none) :
    m.invoke fuel className method receiver args w =
      (.error (.error (.classNotFound className)), w) := by
  have hget : m.classes.get className = .error (.classNotFound className) := by
    simp only [ClassTable.get, h]
  simp only [invoke, invokeWith, hget]

theorem Extends.ends_invoke_of_runs (h : m.Extends E m') {fuel : Nat} {className method : String}
    {receiver : Option Value} {args : List Value} {w : World}
    (hrun : ∀ p, m.firstPoint? fuel className method (receiver.toList ++ args) w = some p →
      (Agreement.unlessError E).Runs m m' p) :
    (Agreement.unlessError E).Ends (m.invoke fuel className method receiver args w)
      (m'.invoke fuel className method receiver args w) := by
  rcases h.classes className with hsame | ⟨hnone, hE⟩
  · exact Agreement.ends_invoke (ClassTable.get_congr hsame) (ClassTable.findCode_congr hsame) hrun
  · rw [invoke_of_missing hnone]
    exact .inr ⟨_, ⟨_, rfl, hE⟩, rfl⟩

theorem Extends.natives_agree (h : m.Extends E m') : (Agreement.unlessError E).Natives m m' := by
  intro key
  rcases h.natives key with hsame | ⟨hnone, hE⟩
  · exact .inl hsame
  · exact .inr ⟨hnone, _, rfl, hE⟩

theorem Extends.ends_callOnHeap (h : m.Extends E m') {call call' : Caller} {callee : MemberRef}
    {receiver : Option Value} {args : List Value} {w : World}
    (hcall : (Agreement.unlessError E).Ends (call callee receiver args (m.worldOfCall receiver w))
      (call' callee receiver args (m.worldOfCall receiver w))) :
    (Agreement.unlessError E).Ends (m.callOnHeap call callee receiver args w)
      (m'.callOnHeap call' callee receiver args w) := by
  have hbefore : m'.worldOfCall receiver w = m.worldOfCall receiver w := by
    simp only [worldOfCall, h.policy]
  have hafter : ∀ w', m'.worldAfterCall receiver w w' = m.worldAfterCall receiver w w' := by
    simp only [worldAfterCall, h.policy, implies_true]
  simp only [callOnHeap_eq, hbefore, hafter]
  rcases hcall with heq | ⟨why, hspares, hout⟩
  · rw [heq]
    exact .inl rfl
  · exact .inr ⟨why, hspares, hout⟩

theorem Extends.runs (h : m.Extends E m') (p : Point) :
    (Agreement.unlessError E).Runs m m' p := by
  induction p using Point.induction m with
  | h p ih =>
    refine Agreement.runs h.natives_agree (Agreement.overlooks_sameUnless _ p) ?_
      fun q hq => ih q (Point.next_mem_successors hq)
    intro fuel callee receiver args f w hfuel heffect
    refine h.ends_callOnHeap (h.ends_invoke_of_runs fun q hq => ih q ?_)
    exact Point.callee_mem_successors
      (Point.callee?_eq_some_iff.2 ⟨fuel, callee, receiver, args, f, w, hfuel, heffect, hq⟩)

/-- **A run that misses nothing is the same on a machine that has more.** -/
theorem Extends.invoke_eq (h : m.Extends E m') {fuel : Nat} {className method : String}
    {receiver : Option Value} {args : List Value} {w : World}
    (hE : ∀ e, (m.invoke fuel className method receiver args w).1 = .error (.error e) → ¬ E e) :
    m'.invoke fuel className method receiver args w =
      m.invoke fuel className method receiver args w := by
  refine (h.ends_invoke_of_runs fun p _ => h.runs p).eq ?_
  rintro _ hout ⟨e, rfl, he⟩
  exact hE e hout he

/-- One more class is missed under its name. -/
theorem extends_of_class {t : ClassTable} {name : String} (hnew : m.classes.get? name = none)
    (ht : ∀ other, other ≠ name → t.get? other = m.classes.get? other) :
    m.Extends (· = .classNotFound name) { m with classes := t } where
  policy := rfl
  classes other := by
    by_cases hother : other = name
    · subst hother
      exact .inr ⟨hnew, rfl⟩
    · exact .inl (ht other hother)
  natives _ := .inl rfl

theorem extends_of_native {key : NativeKey} (f : Native) (hnew : m.natives.get? key = none) :
    m.Extends (· = .nativeNotFound key) { m with natives := m.natives.register key f } where
  policy := rfl
  classes _ := .inl rfl
  natives other := by
    by_cases hother : other = key
    · subst hother
      exact .inr ⟨hnew, rfl⟩
    · exact .inl (by rw [NativeTable.get?_register, if_neg hother])

/-- **Loading more changes no run that did not miss it.**  If a run does not end with the error that
    the class of a name is missing, then a class of this name can be put in, the table then has it
    under this name and is otherwise as it was, and the run is the same.  If it does not end with
    the error that the host method of a key is missing, then it is the same after any host method
    has been registered under this key.  The same are the result or the error, the heap that is
    left, and all that happens, the calls of host methods included. -/
theorem invoke_of_more (m : Machine) (fuel : Nat) (className method : String)
    (receiver : Option Value) (args : List Value) (w : World) :
    let out := m.invoke fuel className method receiver args w
    (∀ (c : ClassFile) (name : String), c.name = .ok name → m.classes.get? name = none →
      out.1 ≠ .error (.error (.classNotFound name)) →
      ∃ t event, m.classes.insert c = .ok (t, event) ∧
        (∀ other, t.get? other = if other = name then some c else m.classes.get? other) ∧
        { m with classes := t }.invoke fuel className method receiver args w = out) ∧
    ∀ (key : NativeKey) (f : Native), m.natives.get? key = none →
      out.1 ≠ .error (.error (.nativeNotFound key)) →
      { m with natives := m.natives.register key f }.invoke fuel className method receiver args w =
        out := by
  intro out
  constructor
  · intro c name hname hnew hout
    obtain ⟨t, event, hinsert, ht⟩ := ClassTable.insert_new hname hnew
    have hextends : m.Extends (· = .classNotFound name) { m with classes := t } := by
      refine extends_of_class hnew fun other hother => ?_
      rw [ht, if_neg hother]
    refine ⟨t, event, hinsert, ht, hextends.invoke_eq ?_⟩
    rintro _ herror rfl
    exact hout herror
  · intro key f hnew hout
    refine (extends_of_native f hnew).invoke_eq ?_
    rintro _ herror rfl
    exact hout herror

/-- A method that calls a host method, and then the constructor of the root class on a new
    object. -/
def constructing : Machine :=
  let cls := (Assembly.build "A" [.member .field "A" "host" "LA;",
    .member .method "A" "show" "(I)I", .member .method "java/lang/Object" "<init>" "()V",
    .method ⟨9⟩ "main" "()I"
      ⟨2, 0, [0xb2, 0, 8, 0x08, 0xb6, 0, 12, 0xbb, 0, 2, 0xb7, 0, 16, 0xac]⟩]).2
  ⟨⟨[("A", cls)]⟩, NativeTable.empty.register ⟨"A", "host", "show"⟩ Native.first, .shared⟩

/-- A root class whose constructor returns a number. -/
def strangeRoot : ClassFile :=
  (Assembly.build "java/lang/Object" [.method ⟨1⟩ "<init>" "()V" ⟨1, 1, [0x04, 0xac]⟩]).2

/-- The constructor of the root class is never looked for, so even a root class that is put in
    changes nothing; nor does a host method that is not called. -/
theorem invoke_of_more_root :
    let out := constructing.invoke 20 "A" "main" none [] .start
    out.1.toOption = some (some (.int 5)) ∧
    (∃ t event, constructing.classes.insert strangeRoot = .ok (t, event) ∧
      (∀ other, t.get? other = if other = "java/lang/Object" then some strangeRoot
        else constructing.classes.get? other) ∧
      { constructing with classes := t }.invoke 20 "A" "main" none [] .start = out) ∧
    { constructing with
      natives := constructing.natives.register ⟨"A", "host", "other"⟩ Native.silent }.invoke 20
        "A" "main" none [] .start = out := by
  intro out
  have hresult : out.1.toOption = some (some (.int 5)) := by decide +kernel
  have hout : ∀ why, out.1 ≠ .error why := by
    intro why hwhy
    rw [hwhy] at hresult
    cases hresult
  obtain ⟨hclass, hnative⟩ := constructing.invoke_of_more 20 "A" "main" none [] .start
  refine ⟨hresult, hclass strangeRoot "java/lang/Object" ?_ ?_ (hout _), hnative _ _ ?_ (hout _)⟩
  · rfl
  · decide +kernel
  · rfl

end Machine

end Bytecode
