/-
  No dangling references.

  `AllocatedIn` says of a value that it is no object or that its object is on the heap; a heap is
  `Closed` if this holds of every value in a field.  Being allocated is a `ValueLaw`, since objects
  are numbered in the order in which they are made and none is ever taken off the heap.  So on a
  shared heap every value that a run handles is allocated, and no access to an object can miss it.
-/
import Bytecode.ClassFile.Assembly
import Bytecode.Proofs.Machine.Values

namespace Bytecode

/-- A value is no object, or its object is on the heap. -/
def Value.AllocatedIn (heap : Heap) : Value → Prop
  | .obj id => (heap.get id).isOk
  | _ => True

instance (heap : Heap) : DecidablePred (Value.AllocatedIn heap)
  | .obj id => inferInstanceAs (Decidable ((heap.get id).isOk = true))
  | .int _ | .str _ | .staticMember _ | .unset => .isTrue trivial

/-- Every object in a field is on the heap. -/
def Heap.Closed (heap : Heap) : Prop :=
  heap.Each (Value.AllocatedIn heap)

/-- A host method that makes no object up: an object that it returns is among its arguments, and it
    never misses an object. -/
structure Native.Honest (f : Native) : Prop where
  returned : ∀ {args id}, f args = .ok (some (.obj id)) → .obj id ∈ args
  missed : ∀ {args id}, f args ≠ .error (.noSuchObject id)

def NativeTable.Honest (t : NativeTable) : Prop :=
  ∀ key f, t.get? key = some f → Native.Honest f

theorem Heap.isOk_get_iff {heap : Heap} {id : Nat} : (heap.get id).isOk ↔ id < heap.size := by
  unfold Heap.get
  split
  · next h =>
    have hlt : id < heap.size := (Array.getElem?_eq_some_iff.1 h).1
    exact ⟨fun _ => hlt, fun _ => rfl⟩
  · next h =>
    have hle : heap.size ≤ id := Heap.size_le_iff.2 h
    exact ⟨fun hok => (nomatch hok), fun hlt => absurd hlt (Nat.not_lt.2 hle)⟩

theorem Value.allocatedIn_iff {heap : Heap} {v : Value} :
    v.AllocatedIn heap ↔ ∀ id, v = .obj id → id < heap.size := by
  cases v with
  | obj id =>
    refine Heap.isOk_get_iff.trans ⟨fun h id' hid => ?_, fun h => h id rfl⟩
    exact Value.obj.inj hid ▸ h
  | _ => exact ⟨fun _ _ hid => (nomatch hid), fun _ => trivial⟩

def ValueLaw.allocated : ValueLaw where
  Holds n v := ∀ id, v = .obj id → id < n
  plain _ := ⟨fun _ _ h => (nomatch h), fun _ _ h => (nomatch h), fun _ _ h => (nomatch h)⟩
  made n _ hid := Value.obj.inj hid ▸ Nat.lt_succ_self n
  mono hle hv id hid := Nat.lt_of_lt_of_le (hv id hid) hle

namespace ValueLaw

theorem allocated_holds {heap : Heap} {v : Value} :
    allocated.Holds heap.size v ↔ v.AllocatedIn heap :=
  Value.allocatedIn_iff.symm

theorem allocated_onHeap {heap : Heap} : allocated.OnHeap heap ↔ heap.Closed :=
  ⟨fun h => h.imp fun _ => allocated_holds.1, fun h => h.imp fun _ => allocated_holds.2⟩

theorem not_allocated_misses (id : Nat) : ¬ allocated.Misses id := by
  rintro ⟨n, hle, hid⟩
  exact Nat.not_lt.2 hle (hid id rfl)

theorem allocated_admits {m : Machine} (hshared : m.policy = .shared)
    (hnatives : m.natives.Honest) : allocated.Admits m where
  result hf hargs hv id hid := by
    subst hid
    exact hargs _ ((hnatives _ _ hf).returned hv) id rfl
  missed hf he := absurd he (hnatives _ _ hf).missed
  isolated h := by
    rw [hshared] at h
    cases h

end ValueLaw

/-! ## Host methods that make no object up -/

theorem NativeTable.honest_empty : NativeTable.empty.Honest := by
  intro key f hf
  simp [NativeTable.get?, NativeTable.empty] at hf

theorem NativeTable.Honest.register {t : NativeTable} (ht : t.Honest) (key : NativeKey) {f : Native}
    (hf : Native.Honest f) : (t.register key f).Honest := by
  intro other g hg
  rw [NativeTable.get?_register] at hg
  split at hg
  · exact Option.some.inj hg ▸ hf
  · exact ht other g hg

theorem Native.honest_first : Native.Honest Native.first where
  returned h := List.mem_of_mem_head? (Except.ok.inj h)
  missed h := nomatch h

/-! ## Runs on a shared heap -/

/-- **On a shared heap no reference dangles.**  If the values that a method is given and those in
    fields are allocated, and the host methods make no object up, then whatever the code, no object
    is missed; and however the run ends, every object in a field is on the heap then, and so is the
    object that is returned. -/
theorem Machine.invoke_no_dangling (m : Machine) (hshared : m.policy = .shared)
    (hnatives : m.natives.Honest) (fuel : Nat) (className method : String)
    (receiver : Option Value) (args : List Value) (w : World) (hheap : w.heap.Closed)
    (hgiven : ∀ v ∈ receiver.toList ++ args, v.AllocatedIn w.heap) :
    let out := m.invoke fuel className method receiver args w
    (∀ id, out.1 ≠ .error (.error (.noSuchObject id))) ∧ out.2.heap.Closed ∧
      ∀ v, out.1 = .ok (some v) → v.AllocatedIn out.2.heap := by
  have hsound := ValueLaw.sound (ValueLaw.allocated_admits hshared hnatives)
  have hends := hsound.invoke fuel className method
    ⟨ValueLaw.allocated_onHeap.2 hheap, fun v hv => ValueLaw.allocated_holds.2 (hgiven v hv)⟩
  obtain ⟨-, hgood⟩ := hends
  refine ⟨fun id hid => ?_, ValueLaw.allocated_onHeap.1 hgood.heap, fun v hv => ?_⟩
  · exact ValueLaw.not_allocated_misses id (hgood.missed id hid)
  · exact ValueLaw.allocated_holds.1 (hgood.value v hv)

/-- A method that passes its argument through a host method and links a new object to it, called by
    another one on a heap with an object that refers to itself. -/
theorem Machine.invoke_no_dangling_link :
    let cls := (Assembly.build "L" [.member .field "L" "next" "LL;",
      .member .field "L" "host" "LL;", .member .method "L" "pass" "(LL;)LL;",
      .member .method "L" "link" "(LL;)LL;",
      .method ⟨9⟩ "link" "(LL;)LL;" ⟨3, 1, [0xb2, 0, 11, 0x2a, 0xb6, 0, 15, 0x4b, 0xbb, 0, 2, 0x59,
        0x2a, 0xb5, 0, 8, 0xb0]⟩,
      .method ⟨9⟩ "main" "(LL;)LL;" ⟨1, 1, [0x2a, 0xb8, 0, 18, 0xb0]⟩]).2
    let m : Machine := ⟨⟨[("L", cls)]⟩,
      NativeTable.empty.register ⟨"L", "host", "pass"⟩ Native.first, .shared⟩
    let w : World := ⟨⟨#[⟨"L", [("next", .obj 0)]⟩]⟩, []⟩
    let out := m.invoke 20 "L" "main" none [.obj 0] w
    m.natives.Honest ∧ w.heap.Closed ∧ out.1.toOption = some (some (.obj 1)) ∧
      (∀ id, out.1 ≠ .error (.error (.noSuchObject id))) ∧ out.2.heap.Closed ∧
      ∀ v, out.1 = .ok (some v) → v.AllocatedIn out.2.heap := by
  intro cls m w
  have hnatives : m.natives.Honest := NativeTable.honest_empty.register _ Native.honest_first
  have hheap : w.heap.Closed := Heap.each_of_fields (by decide)
  exact ⟨hnatives, hheap, by decide +kernel,
    m.invoke_no_dangling rfl hnatives 20 "L" "main" none [.obj 0] w hheap (by decide)⟩

end Bytecode
