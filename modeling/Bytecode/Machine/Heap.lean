/-
  The heap: objects numbered 0, 1, 2, … in the order in which they were made.

  Nothing is ever taken off the heap.  An object has a class name and fields; a field exists from
  its first write on.  The array of the objects stands for a map from numbers to objects together
  with a counter for the next number; the `Store` of the proofs is such a map, and no history of
  operations tells it from the heap.
-/
import Bytecode.Machine.RunError

namespace Bytecode

structure Object where
  className : String
  /-- The fields that have been written, each under its name once. -/
  fields : List (String × Value)
  deriving DecidableEq, Repr

namespace Object

def field? (o : Object) (name : String) : Option Value :=
  o.fields.lookup name

/-- The list of fields after a write. -/
def writeField (name : String) (v : Value) : List (String × Value) → List (String × Value)
  | [] => [(name, v)]
  | (n, w) :: rest => if n = name then (n, v) :: rest else (n, w) :: writeField name v rest

def setField (o : Object) (name : String) (v : Value) : Object :=
  { o with fields := writeField name v o.fields }

theorem lookup_writeField (name other : String) (v : Value) (fields : List (String × Value)) :
    (writeField name v fields).lookup other =
      if other = name then some v else fields.lookup other := by
  induction fields with
  | nil =>
    by_cases h : other = name
    · simp [writeField, h]
    · simp [writeField, List.lookup_cons, beq_false_of_ne h, h]
  | cons f rest ih =>
    obtain ⟨n, w⟩ := f
    by_cases hn : n = name
    · subst hn
      by_cases h : other = n
      · simp [writeField, h]
      · simp [writeField, List.lookup_cons, beq_false_of_ne h, h]
    · by_cases h : other = n
      · subst h; simp [writeField, hn]
      · simp [writeField, List.lookup_cons, hn, beq_false_of_ne h, ih]

/-- A write to a field shows in that field and in no other. -/
theorem field?_setField (o : Object) (name other : String) (v : Value) :
    (o.setField name v).field? other = if other = name then some v else o.field? other :=
  lookup_writeField name other v o.fields

end Object

/-- The objects of a run. -/
structure Heap where
  objects : Array Object
  deriving DecidableEq, Repr

namespace Heap

def empty : Heap := ⟨#[]⟩

def size (h : Heap) : Nat :=
  h.objects.size

/-- Makes an object of a class; its number and the new heap. -/
def alloc (h : Heap) (className : String) : Nat × Heap :=
  (h.size, ⟨h.objects.push ⟨className, []⟩⟩)

def get (h : Heap) (id : Nat) : Except RunError Object :=
  match h.objects[id]? with
  | some o => .ok o
  | none => .error (.noSuchObject id)

/-- Changes the object of a number, if there is one. -/
def modify (h : Heap) (id : Nat) (f : Object → Object) : Except RunError Unit × Heap :=
  match h.objects[id]? with
  | some o => (.ok (), ⟨h.objects.setIfInBounds id (f o)⟩)
  | none => (.error (.noSuchObject id), h)

def write (h : Heap) (id : Nat) (name : String) (v : Value) : Except RunError Unit × Heap :=
  h.modify id (·.setField name v)

def rename (h : Heap) (id : Nat) (className : String) : Except RunError Unit × Heap :=
  h.modify id ({ · with className })

/-- The heap that a change leaves if it does not fail. -/
def changed : Except RunError Unit × Heap → Except RunError Heap
  | (.ok (), h) => .ok h
  | (.error e, _) => .error e

def update (h : Heap) (id : Nat) (f : Object → Object) : Except RunError Heap :=
  changed (h.modify id f)

def getField (h : Heap) (id : Nat) (name : String) : Except RunError Value := do
  let o ← h.get id
  match o.field? name with
  | some v => .ok v
  | none => .error (.fieldNotSet id name)

def putField (h : Heap) (id : Nat) (name : String) (v : Value) : Except RunError Heap :=
  changed (h.write id name v)

def setClass (h : Heap) (id : Nat) (className : String) : Except RunError Heap :=
  changed (h.rename id className)

end Heap

end Bytecode
