/-
  Laws of the heap.

  * `getField_eq_ok_iff` and `putField_eq_ok_iff` say when an access succeeds; it fails for want of
    the object only if the object's number is not below the size of the heap;
  * `Each P`: every value in a field has the property `P`.  Making an object keeps it, and so does
    writing a value that has the property;
  * `Grows`: every object is still there, with its class name and all the fields it had.  Making an
    object and writing a field make the heap grow in this sense.
-/
import Bytecode.Machine.Heap
import Bytecode.Proofs.Outcome

namespace Bytecode.Heap

variable {h h' h'' : Heap} {id : Nat} {name : String} {v : Value} {e : RunError}

/-! ## Accesses -/

theorem size_le_iff : h.size ≤ id ↔ h.objects[id]? = none :=
  Array.getElem?_eq_none_iff.symm

theorem getField_eq_ok_iff :
    h.getField id name = .ok v ↔ ∃ o, h.objects[id]? = some o ∧ o.field? name = some v := by
  cases ho : h.objects[id]? with
  | none => simp [getField, get, ho, bind, Except.bind]
  | some o => cases hv : o.field? name <;> simp [getField, get, ho, hv, bind, Except.bind]

theorem getField_error (hget : h.getField id name = .error e) :
    e = .noSuchObject id ∧ h.size ≤ id ∨ e = .fieldNotSet id name := by
  cases ho : h.objects[id]? with
  | none =>
    have he : RunError.noSuchObject id = e := by
      simpa [getField, get, ho, bind, Except.bind] using hget
    exact Or.inl ⟨he.symm, size_le_iff.2 ho⟩
  | some o =>
    cases hv : o.field? name with
    | none =>
      have he : RunError.fieldNotSet id name = e := by
        simpa [getField, get, ho, hv, bind, Except.bind] using hget
      exact Or.inr he.symm
    | some v => simp [getField, get, ho, hv, bind, Except.bind] at hget

theorem putField_eq_ok_iff :
    h.putField id name v = .ok h' ↔
      ∃ o, h.objects[id]? = some o ∧ ⟨h.objects.setIfInBounds id (o.setField name v)⟩ = h' := by
  cases ho : h.objects[id]? <;> simp [putField, write, modify, changed, ho]

theorem putField_error (hput : h.putField id name v = .error e) :
    e = .noSuchObject id ∧ h.size ≤ id := by
  cases ho : h.objects[id]? with
  | none =>
    have he : RunError.noSuchObject id = e := by
      simpa [putField, write, modify, changed, ho] using hput
    exact ⟨he.symm, size_le_iff.2 ho⟩
  | some o => simp [putField, write, modify, changed, ho] at hput

theorem size_alloc (h : Heap) (className : String) : (h.alloc className).2.size = h.size + 1 :=
  Array.size_push _

theorem size_putField (hput : h.putField id name v = .ok h') : h'.size = h.size := by
  obtain ⟨o, -, rfl⟩ := putField_eq_ok_iff.1 hput
  exact Array.size_setIfInBounds

/-! ## The values in fields -/

/-- Every value in a field of an object has the property `P`. -/
def Each (P : Value → Prop) (h : Heap) : Prop :=
  ∀ (id : Nat) (o : Object) (name : String) (v : Value),
    h.objects[id]? = some o → o.field? name = some v → P v

variable {P Q : Value → Prop}

theorem Each.imp (hh : h.Each P) (hPQ : ∀ v, P v → Q v) : h.Each Q :=
  fun id o name v ho hv => hPQ v (hh id o name v ho hv)

theorem each_of_fields (hh : ∀ o ∈ h.objects, ∀ p ∈ o.fields, P p.2) : h.Each P := by
  intro id o name v ho hv
  obtain ⟨before, after, hfields, -⟩ := List.lookup_eq_some_iff.1 hv
  refine hh o (Array.mem_of_getElem? ho) (name, v) ?_
  rw [hfields]
  exact List.mem_append_right _ List.mem_cons_self

theorem each_empty : Heap.empty.Each P := by
  intro id o name v ho
  simp [Heap.empty] at ho

theorem Each.getField (hh : h.Each P) (hget : h.getField id name = .ok v) : P v := by
  obtain ⟨o, ho, hv⟩ := getField_eq_ok_iff.1 hget
  exact hh id o name v ho hv

theorem Each.alloc (hh : h.Each P) (className : String) : (h.alloc className).2.Each P := by
  intro id o name v ho hv
  rw [Heap.alloc, Array.getElem?_push] at ho
  split at ho
  · obtain rfl := Option.some.inj ho
    simp [Object.field?] at hv
  · exact hh id o name v ho hv

theorem Each.putField (hh : h.Each P) (hv : P v) (hput : h.putField id name v = .ok h') :
    h'.Each P := by
  obtain ⟨o, ho, rfl⟩ := putField_eq_ok_iff.1 hput
  intro id' o' name' v' ho' hv'
  rw [Array.getElem?_setIfInBounds] at ho'
  by_cases hid : id = id'
  · -- the object that was written to: its fields are the new one and those it had
    subst hid
    have hsize : id < h.objects.size := (Array.getElem?_eq_some_iff.1 ho).1
    simp only [if_true, if_pos hsize, Option.some.injEq] at ho'
    subst ho'
    rw [Object.field?_setField] at hv'
    split at hv'
    · exact Option.some.inj hv' ▸ hv
    · exact hh id o name' v' ho hv'
  · rw [if_neg hid] at ho'
    exact hh id' o' name' v' ho' hv'

/-! ## Growth -/

/-- Every object of `h` is still on `h'`, with its class name and all the fields it had. -/
def Grows (h h' : Heap) : Prop :=
  ∀ (id : Nat) (o : Object), h.objects[id]? = some o →
    ∃ o' : Object, h'.objects[id]? = some o' ∧ o'.className = o.className ∧
      ∀ name, (o.field? name).isSome → (o'.field? name).isSome

theorem Grows.refl (h : Heap) : h.Grows h := fun _ o ho => ⟨o, ho, rfl, fun _ hf => hf⟩

theorem Grows.trans (hh : h.Grows h') (hh' : h'.Grows h'') : h.Grows h'' := by
  intro id o ho
  obtain ⟨o', ho', hclass, hfields⟩ := hh id o ho
  obtain ⟨o'', ho'', hclass', hfields'⟩ := hh' id o' ho'
  exact ⟨o'', ho'', hclass'.trans hclass, fun name hf => hfields' name (hfields name hf)⟩

theorem Grows.size_le (hh : h.Grows h') : h.size ≤ h'.size := by
  refine Nat.le_of_not_lt fun hlt => ?_
  have hsize : h'.size < h.objects.size := hlt
  obtain ⟨o', ho', -⟩ := hh h'.size _ (Array.getElem?_eq_getElem hsize)
  simp [Heap.size] at ho'

theorem grows_alloc (h : Heap) (className : String) : h.Grows (h.alloc className).2 := by
  intro id o ho
  have hsize : id < h.objects.size := (Array.getElem?_eq_some_iff.1 ho).1
  refine ⟨o, ?_, rfl, fun _ hf => hf⟩
  rw [Heap.alloc, Array.getElem?_push, if_neg (Nat.ne_of_lt hsize), ho]

theorem grows_putField (hput : h.putField id name v = .ok h') : h.Grows h' := by
  obtain ⟨o, ho, rfl⟩ := putField_eq_ok_iff.1 hput
  intro id' o' ho'
  rw [Array.getElem?_setIfInBounds]
  by_cases hid : id = id'
  · subst hid
    have hsize : id < h.objects.size := (Array.getElem?_eq_some_iff.1 ho).1
    rw [ho] at ho'
    obtain rfl := Option.some.inj ho'
    refine ⟨o.setField name v, by rw [if_pos rfl, if_pos hsize], rfl, fun name' hf => ?_⟩
    rw [Object.field?_setField]
    split
    · rfl
    · exact hf
  · exact ⟨o', by rw [if_neg hid, ho'], rfl, fun _ hf => hf⟩

end Bytecode.Heap
