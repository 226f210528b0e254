/-
  What of a world a run sees, and what it leaves there.

  A run looks at the heap; to the history it only adds.  So two worlds are as good as one another if
  they have the same heap: a run ends in both with the same result and the same heap, and adds the
  same events.

  * `World.calls`, `World.frames`: the calls of host methods that have happened, and the frames in
    which an instruction was fetched;
  * `World.Alike`: worlds with the same heap and the same calls.
-/
import Bytecode.Proofs.Machine.Agreement

namespace Bytecode

namespace World

/-- The calls of host methods, in the order in which they happened. -/
def calls (w : World) : List (NativeKey × List Value) :=
  w.events.filterMap Event.call?

theorem calls_note (w : World) (e : Event) :
    (w.note e).calls = w.calls ++ e.call?.toList := by
  simp only [calls, events, note, List.reverse_cons, List.filterMap_append]
  cases h : e.call? with
  | none => simp [h]
  | some call => simp [h]

theorem calls_note_of_none {w : World} {e : Event} (h : e.call? = none) :
    (w.note e).calls = w.calls := by
  rw [calls_note, h, Option.toList_none, List.append_nil]

theorem calls_noteFetch (d : Decoded) (f : Frame) (w : World) :
    (Machine.noteFetch d f w).calls = w.calls := by
  simp only [Machine.noteFetch, calls_note, Event.call?, Option.toList_none, List.append_nil]

theorem calls_append (heap : Heap) (later earlier : List Event) :
    calls ⟨heap, later ++ earlier⟩ = calls ⟨heap, earlier⟩ ++ calls ⟨heap, later⟩ := by
  simp only [calls, events, List.reverse_append, List.filterMap_append]

/-- The frames in which an instruction was fetched, the latest first; the latest event comes
    first. -/
def framesOf : List Event → List Frame
  | .locals locals :: .stack stack :: .fetched pc _ :: events =>
    ⟨pc, stack.reverse, locals⟩ :: framesOf events
  | _ :: events => framesOf events
  | [] => []

/-- The frames in which an instruction was fetched, in the order of the fetches. -/
def frames (w : World) : List Frame :=
  (framesOf w.history).reverse

theorem frames_noteFetch (d : Decoded) (f : Frame) (w : World) (h : d.start = f.pc) :
    (Machine.noteFetch d f w).frames = w.frames ++ [f] := by
  simp only [frames, Machine.noteFetch, note, framesOf, List.reverse_cons, List.reverse_reverse, h]

/-! ## Worlds that are alike -/

structure Alike (w w' : World) : Prop where
  heap : w'.heap = w.heap
  calls : w'.calls = w.calls

namespace Alike

variable {w w' w'' : World}

theorem refl (w : World) : w.Alike w :=
  ⟨rfl, rfl⟩

theorem trans (h : w.Alike w') (h' : w'.Alike w'') : w.Alike w'' :=
  ⟨h'.heap.trans h.heap, h'.calls.trans h.calls⟩

theorem note {e : Event} (h : w.Alike w') (he : e.call? = none) : w.Alike (w'.note e) :=
  ⟨h.heap, (calls_note_of_none he).trans h.calls⟩

theorem noteFetch (d : Decoded) (f : Frame) (w : World) : w.Alike (Machine.noteFetch d f w) :=
  ⟨rfl, calls_noteFetch d f w⟩

theorem worldOfCall (h : w.Alike w') (m : Machine) (receiver : Option Value) :
    (m.worldOfCall receiver w).Alike (m.worldOfCall receiver w') := by
  unfold Machine.worldOfCall
  split
  · exact ⟨rfl, h.calls⟩
  · exact h

/-- What a call leaves is alike if what the method left is. -/
theorem worldAfterCall {u u' : World} (h : w.Alike w') (hu : u.Alike u') (m : Machine)
    (receiver : Option Value) :
    (m.worldAfterCall receiver w u).Alike (m.worldAfterCall receiver w' u') := by
  unfold Machine.worldAfterCall
  split
  · exact ⟨h.heap, hu.calls⟩
  · exact hu

end Alike

theorem calls_worldAfterCall (m : Machine) (receiver : Option Value) (w w' : World) :
    (m.worldAfterCall receiver w w').calls = w'.calls := by
  unfold Machine.worldAfterCall
  split <;> rfl

/-- Only a static call can have a heap of its own. -/
theorem worldOfCall_eq_self {m : Machine} {receiver : Option Value}
    (h : m.policy = .shared ∨ receiver ≠ none) (w : World) : m.worldOfCall receiver w = w := by
  unfold Machine.worldOfCall
  split
  · next hpolicy => simp [hpolicy] at h
  · rfl

theorem worldAfterCall_eq_self {m : Machine} {receiver : Option Value}
    (h : m.policy = .shared ∨ receiver ≠ none) (w w' : World) :
    m.worldAfterCall receiver w w' = w' := by
  unfold Machine.worldAfterCall
  split
  · next hpolicy => simp [hpolicy] at h
  · rfl

/-- A method that changes neither the heap nor the calls leaves its caller's world as it was. -/
theorem alike_worldAfterCall {m : Machine} {receiver : Option Value} {w w' : World}
    (h : (m.worldOfCall receiver w).Alike w') : w.Alike (m.worldAfterCall receiver w w') := by
  unfold Machine.worldOfCall at h
  unfold Machine.worldAfterCall
  split at h
  · exact ⟨rfl, h.calls⟩
  · exact h

end World

/-! ## What happened before -/

/-- The second run has the same heap, and a longer history behind it. -/
def Agreement.later (earlier : List Event) : Agreement where
  world w := ⟨w.heap, w.history ++ earlier⟩
  Spares _ := False
  note _ _ := rfl

namespace Agreement

variable {m : Machine} {earlier : List Event}

theorem overlooks_later (earlier : List Event) (p : Point) : (later earlier).Overlooks p :=
  ⟨fun _ => rfl, fun _ => rfl⟩

theorem later_callOnHeap {call : Caller} {callee : MemberRef} {receiver : Option Value}
    {args : List Value} {w : World}
    (h : (later earlier).Ends (call callee receiver args (m.worldOfCall receiver w))
      (call callee receiver args ((later earlier).world (m.worldOfCall receiver w)))) :
    (later earlier).Ends (m.callOnHeap call callee receiver args w)
      (m.callOnHeap call callee receiver args ((later earlier).world w)) := by
  have hbefore : m.worldOfCall receiver ((later earlier).world w) =
      (later earlier).world (m.worldOfCall receiver w) := by
    unfold Machine.worldOfCall
    split <;> rfl
  have hafter : ∀ w', m.worldAfterCall receiver ((later earlier).world w)
      ((later earlier).world w') = (later earlier).world (m.worldAfterCall receiver w w') := by
    intro w'
    unfold Machine.worldAfterCall
    split <;> rfl
  left
  simp only [Machine.callOnHeap_eq, hbefore, h.eq fun _ _ hspares => hspares, hafter]

theorem runs_later (m : Machine) (earlier : List Event) (p : Point) :
    (later earlier).Runs m m p := by
  induction p using Point.induction m with
  | h p ih =>
    refine Agreement.runs (natives_of_eq rfl) (overlooks_later earlier p) ?_
      fun q hq => ih q (Point.next_mem_successors hq)
    intro fuel callee receiver args f w hfuel heffect
    refine later_callOnHeap (ends_invoke rfl rfl fun q hq => ih q ?_)
    exact Point.callee_mem_successors
      (Point.callee?_eq_some_iff.2 ⟨fuel, callee, receiver, args, f, w, hfuel, heffect, hq⟩)

end Agreement

namespace Machine

variable (m : Machine) (fuel : Nat) (className method : String) (receiver : Option Value)
  (args : List Value)

/-- **What happened before a call is kept, and makes no difference to it.** -/
theorem invoke_later (heap : Heap) (history earlier : List Event) :
    let out := m.invoke fuel className method receiver args ⟨heap, history⟩
    m.invoke fuel className method receiver args ⟨heap, history ++ earlier⟩ =
      (out.1, ⟨out.2.heap, out.2.history ++ earlier⟩) :=
  Agreement.Ends.eq (a := .later earlier)
    (Agreement.ends_invoke rfl rfl fun p _ => Agreement.runs_later m earlier p)
    fun _ _ hspares => hspares

/-- In worlds that are alike, calls end alike. -/
theorem invoke_alike {w w' : World} (h : w.Alike w') :
    (m.invoke fuel className method receiver args w').1 =
        (m.invoke fuel className method receiver args w).1 ∧
      (m.invoke fuel className method receiver args w).2.Alike
        (m.invoke fuel className method receiver args w').2 := by
  obtain ⟨heap, history⟩ := w
  obtain ⟨heap', history'⟩ := w'
  obtain ⟨hheap, hcalls⟩ := h
  dsimp only at hheap
  subst hheap
  have hrun := m.invoke_later fuel className method receiver args heap' []
  have hrun₁ := hrun history
  have hrun₂ := hrun history'
  rw [List.nil_append] at hrun₁ hrun₂
  rw [hrun₁, hrun₂]
  refine ⟨rfl, rfl, ?_⟩
  rw [World.calls_append, World.calls_append]
  exact congrArg (· ++ _) hcalls

end Machine

end Bytecode
