/-
  The heap as a map with a counter.

  A `Store` looks objects up in a map from numbers, and counts the number that the next object gets;
  the numbers in the map are those below the counter.  It has the same operations as a heap.

  The array of a `Heap` stands for such a store: `Holds` says that the same numbers lead to the same
  objects.  An operation answers alike on both and leaves a store and a heap that are again alike
  (`Holds.apply`).  So no history tells them apart (`answer_eq`).
-/
import Bytecode.Proofs.Machine.HeapHistory

namespace Bytecode

open Heap (Op Answer)

/-- Objects under their numbers, and the number that the next object gets. -/
structure Store where
  objects : List (Nat × Object)
  next : Nat
  numbers : (objects.map (·.1)).Perm (List.range next)

namespace Store

def empty : Store := ⟨[], 0, .nil⟩

def size (s : Store) : Nat :=
  s.objects.length

def alloc (s : Store) (className : String) : Nat × Store :=
  (s.next,
    { objects := (s.next, ⟨className, []⟩) :: s.objects
      next := s.next + 1
      numbers := by
        rw [List.map_cons, List.range_succ]
        exact (s.numbers.cons _).trans (List.perm_append_singleton _ _).symm })

def get (s : Store) (id : Nat) : Except RunError Object :=
  (s.objects.lookup id).elim (.error (.noSuchObject id)) .ok

def getField (s : Store) (id : Nat) (name : String) : Except RunError Value := do
  let o ← s.get id
  (o.field? name).elim (.error (.fieldNotSet id name)) .ok

/-- The entries of a map with the object of a number changed. -/
def edited (id : Nat) (f : Object → Object) (objects : List (Nat × Object)) :
    List (Nat × Object) :=
  objects.map fun entry => if entry.1 = id then (entry.1, f entry.2) else entry

theorem map_fst_edited (id : Nat) (f : Object → Object) (objects : List (Nat × Object)) :
    (edited id f objects).map (·.1) = objects.map (·.1) := by
  rw [edited, List.map_map]
  refine List.map_congr_left fun entry _ => ?_
  simp only [Function.comp_apply]
  split <;> rfl

/-- Changes the object of a number, if there is one. -/
def modify (s : Store) (id : Nat) (f : Object → Object) : Except RunError Unit × Store :=
  if (s.objects.lookup id).isSome then
    (.ok (), { s with
      objects := edited id f s.objects
      numbers := by
        rw [map_fst_edited]
        exact s.numbers })
  else (.error (.noSuchObject id), s)

def apply (s : Store) : Op → Except RunError Answer × Store
  | .alloc className => (.ok (.number (s.alloc className).1), (s.alloc className).2)
  | .get id => (.object <$> s.get id, s)
  | .getField id name => (.value <$> s.getField id name, s)
  | .putField id name v => Heap.ofChange (s.modify id (·.setField name v))
  | .setClass id className => Heap.ofChange (s.modify id ({ · with className }))

def after : List Op → Store
  | [] => .empty
  | op :: past => ((after past).apply op).2

/-! ## Stores and heaps -/

theorem lookup_edited (id id' : Nat) (f : Object → Object) (objects : List (Nat × Object)) :
    (edited id f objects).lookup id' =
      if id = id' then (objects.lookup id').map f else objects.lookup id' := by
  induction objects with
  | nil => simp [edited]
  | cons entry objects ih =>
    obtain ⟨n, o⟩ := entry
    have hcons : edited id f ((n, o) :: objects) =
        (if n = id then (n, f o) else (n, o)) :: edited id f objects := rfl
    rw [hcons]
    by_cases hn : id' = n
    · subst hn
      by_cases hid : id' = id
      · simp [hid]
      · simp [hid, Ne.symm hid]
    · by_cases hid : n = id
      · simp [hid, List.lookup_cons, ih, beq_false_of_ne (hid ▸ hn)]
      · simp [hid, List.lookup_cons, ih, beq_false_of_ne hn]

/-- The store and the heap have the same objects under the same numbers. -/
structure Holds (s : Store) (h : Heap) : Prop where
  next : s.next = h.size
  object? : ∀ id, s.objects.lookup id = h.objects[id]?

variable {s : Store} {h : Heap}

theorem size_eq_next (s : Store) : s.size = s.next := by
  have hlength := s.numbers.length_eq
  rwa [List.length_map, List.length_range] at hlength

theorem Holds.size_eq (hs : s.Holds h) : s.size = h.size :=
  s.size_eq_next.trans hs.next

theorem Holds.get_eq (hs : s.Holds h) (id : Nat) : s.get id = h.get id := by
  rw [get, Heap.get, hs.object?]
  cases h.objects[id]? <;> rfl

theorem Holds.getField_eq (hs : s.Holds h) (id : Nat) (name : String) :
    s.getField id name = h.getField id name := by
  rw [getField, Heap.getField, hs.get_eq]
  refine bind_congr fun o => ?_
  cases o.field? name <;> rfl

theorem Holds.alloc (hs : s.Holds h) (className : String) :
    (s.alloc className).1 = (h.alloc className).1 ∧
      (s.alloc className).2.Holds (h.alloc className).2 := by
  refine ⟨hs.next, ?_, fun id => ?_⟩
  · rw [Heap.size_alloc, ← hs.next]
    rfl
  · have hpush : (h.alloc className).2.objects[id]? =
        if id = h.size then some ⟨className, []⟩ else h.objects[id]? := Array.getElem?_push
    show ((s.next, _) :: s.objects).lookup id = _
    rw [hpush, List.lookup_cons, hs.next, hs.object?]
    by_cases hid : id = h.size
    · simp [hid]
    · simp [hid, beq_false_of_ne hid]

theorem Holds.modify (hs : s.Holds h) (id : Nat) (f : Object → Object) :
    (s.modify id f).1 = (h.modify id f).1 ∧ (s.modify id f).2.Holds (h.modify id f).2 := by
  have hobject := hs.object? id
  cases ho : h.objects[id]? with
  | none =>
    rw [ho] at hobject
    rw [Store.modify, if_neg (by simp [hobject]), Heap.modify, ho]
    exact ⟨rfl, hs⟩
  | some o =>
    obtain ⟨hsize, -⟩ := Heap.objects_modify h id id f
    have hobjects := fun id' => (Heap.objects_modify h id id' f).2
    rw [Heap.modify_of_object? ho] at hsize hobjects ⊢
    rw [ho] at hobject
    rw [Store.modify, if_pos (by rw [hobject]; rfl)]
    refine ⟨rfl, hs.next.trans hsize.symm, fun id' => ?_⟩
    rw [hobjects, lookup_edited, hs.object?]

/-- **An operation on a store is the operation on the heap that it stands for.** -/
theorem Holds.apply (hs : s.Holds h) (op : Op) :
    (s.apply op).1 = (h.apply op).1 ∧ (s.apply op).2.Holds (h.apply op).2 := by
  cases op with
  | alloc className =>
    obtain ⟨hnumber, hafter⟩ := hs.alloc className
    exact ⟨by rw [Store.apply, Heap.apply, hnumber], hafter⟩
  | get id => exact ⟨by rw [Store.apply, Heap.apply, hs.get_eq], hs⟩
  | getField id name => exact ⟨by rw [Store.apply, Heap.apply, hs.getField_eq], hs⟩
  | putField id name v =>
    obtain ⟨hanswer, hafter⟩ := hs.modify id (·.setField name v)
    exact ⟨by simp only [Store.apply, Heap.apply, Heap.ofChange, Heap.write, hanswer], hafter⟩
  | setClass id className =>
    obtain ⟨hanswer, hafter⟩ := hs.modify id ({ · with className })
    exact ⟨by simp only [Store.apply, Heap.apply, Heap.ofChange, Heap.rename, hanswer], hafter⟩

theorem after_holds (past : List Op) : (after past).Holds (Heap.after past) := by
  induction past with
  | nil => exact ⟨rfl, fun id => by simp [after, empty, Heap.after, Heap.empty]⟩
  | cons op past ih => exact (ih.apply op).2

/-- **No history tells a store from a heap**: they have as many objects, and every operation answers
    alike. -/
theorem answer_eq (past : List Op) :
    (after past).size = (Heap.after past).size ∧
      ∀ op, ((after past).apply op).1 = Heap.answer past op :=
  ⟨(after_holds past).size_eq, fun op => ((after_holds past).apply op).1⟩

end Store

end Bytecode
