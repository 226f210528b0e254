/-
  What static calls on heaps of their own keep apart, and what they do not.

  Under `HeapPolicy.isolateStatic` a static call starts on an empty heap, and the caller's heap
  comes back as it was.  But objects are numbered from 0 on every heap, and a reference is nothing
  but a number.  So a reference that crosses the call is not found on the other side only until as
  many objects were made there.
-/
import Bytecode.ClassFile.Assembly
import Bytecode.Proofs.Machine.Allocation

namespace Bytecode

namespace Heap

variable {heap : Heap} {id : Nat}

/-- Every access to the object of the number fails, since there is none. -/
structure Lacks (heap : Heap) (id : Nat) : Prop where
  get : heap.get id = .error (.noSuchObject id)
  getField : ∀ name, heap.getField id name = .error (.noSuchObject id)
  putField : ∀ name v, heap.putField id name v = .error (.noSuchObject id)

theorem lacks_iff : heap.Lacks id ↔ heap.size ≤ id := by
  constructor
  · intro h
    refine Nat.le_of_not_lt fun hlt => ?_
    have hget := h.get
    simp [Heap.get, Array.getElem?_eq_getElem (show id < heap.objects.size from hlt)] at hget
  · intro h
    have hnone := size_le_iff.1 h
    have hget : heap.get id = .error (.noSuchObject id) := by simp only [Heap.get, hnone]
    refine ⟨hget, fun name => ?_, fun name v => ?_⟩
    · rw [Heap.getField, hget]
      rfl
    · simp only [Heap.putField, Heap.write, Heap.modify, hnone]
      rfl

end Heap

namespace Machine

variable {m : Machine}

theorem worldOfCall_isolated (hpolicy : m.policy = .isolateStatic) (w : World) :
    m.worldOfCall none w = { w with heap := .empty } := by
  unfold worldOfCall
  rw [hpolicy]

theorem worldAfterCall_isolated (hpolicy : m.policy = .isolateStatic) (w w' : World) :
    m.worldAfterCall none w w' = { w' with heap := w.heap } := by
  unfold worldAfterCall
  rw [hpolicy]

/-- A static call under isolation starts without objects. -/
theorem heap_of_callee? (hpolicy : m.policy = .isolateStatic) {p q : Point} {callee : MemberRef}
    {args : List Value} {f : Frame} {w : World}
    (heffect : p.effect? = some (.call callee none args f, w)) (hq : p.callee? m = some q) :
    q.world.heap = .empty := by
  obtain ⟨-, hfirst⟩ := Point.firstPoint?_of_callee? hq heffect
  rw [(fuel_of_firstPoint? hfirst).2, worldOfCall_isolated hpolicy]
  rfl

/-- **What isolation catches.**  Under `isolateStatic`, in every run of a method without arguments
    and at every static call in it: at every point of the run of the callee an access to the object
    of a number fails, be it through a reference that the call was given, unless `new` was fetched
    more often since the call than the number says.  And if the callee returns, the caller goes on
    with the heap it had, and at every point of the rest of its run such an access, be it through
    what was returned, fails unless `new` was fetched more often, up to the call and since the
    return together, than the number says. -/
theorem static_call_lacks (hpolicy : m.policy = .isolateStatic) {fuel : Nat}
    {className method : String} {w₀ : World} {start p e : Point}
    (hstart : m.firstPoint? fuel className method [] { w₀ with heap := .empty } = some start)
    (hp : start.Visits m p) {callee : MemberRef} {args : List Value} {f : Frame} {w : World}
    (heffect : p.effect? = some (.call callee none args f, w)) (he : p.callee? m = some e) :
    (m.runMethod fuel className method w₀).1 = (start.run m).1 ∧
    (∀ q, e.Visits m q → ∀ id, q.world.made ≤ p.world.made + id → q.world.heap.Lacks id) ∧
    ∀ result w', e.run m = (.ok result, w') →
      ∃ q, p.next? m = some q ∧ p.run m = q.run m ∧ q.frame = f.pushResult result ∧
        q.world.heap = p.world.heap ∧
        ∀ q', q.Visits m q' → ∀ id,
          p.world.made + q'.world.made ≤ w₀.made + q.world.made + id → q'.world.heap.Lacks id := by
  refine ⟨Point.runMethod_of_firstPoint? hstart, ?_, ?_⟩
  · intro q hq id hmade
    -- the callee's heap was empty at its entry, which comes after the call
    have hheap : e.world.heap.size = 0 := by
      rw [heap_of_callee? hpolicy heffect he]
      rfl
    have hentry := (Point.Visits.here.enter he).paced.made
    have hsize := hq.paced.size
    exact Heap.lacks_iff.2 (by omega)
  · intro result w' hrun
    have hnext := Point.next?_of_callee? he heffect hrun
    obtain ⟨d, -, -, -, rfl⟩ := Point.effect?_eq_some_iff.1 heffect
    rw [worldAfterCall_isolated hpolicy] at hnext
    refine ⟨_, hnext, Point.run_of_next? hnext, rfl, rfl, fun q' hq' id hmade => ?_⟩
    -- so was the caller's heap at the start of the run, and the return gives back no more than
    -- there was at the call
    have hworld := (fuel_of_firstPoint? hstart).2
    have hheap : start.world.heap.size = 0 := by
      rw [hworld]
      rfl
    have hstarted : start.world.made = w₀.made := by
      rw [hworld, Paced.made_note]
      rfl
    have hbefore := hp.paced.size
    have hafter : q'.world.heap.size + _ ≤ p.world.heap.size + q'.world.made := hq'.paced.size
    refine Heap.lacks_iff.2 ?_
    omega

/-- A method that gives an object to a static call, whose callee makes an object of its own before
    it looks at the one it was given. -/
def crossing : Machine :=
  let cls := (Assembly.build "A" [.member .field "A" "x" "I", .member .method "A" "read" "(LA;)I",
    .method ⟨9⟩ "share" "()I" ⟨3, 0, [0xbb, 0, 2, 0x59, 0x08, 0xb5, 0, 8, 0xb8, 0, 12, 0xac]⟩,
    .method ⟨9⟩ "read" "(LA;)I"
      ⟨3, 1, [0xbb, 0, 2, 0x59, 0x10, 7, 0xb5, 0, 8, 0x2a, 0xb4, 0, 8, 0xac]⟩]).2
  ⟨⟨[("A", cls)]⟩, .empty, .isolateStatic⟩

/-- The start of the run, the call, the entry of the callee, and the point where it looks at the
    object it was given. -/
theorem crossing_points :
    ∃ start p e q f w, crossing.firstPoint? 20 "A" "share" [] .start = some start ∧
      start.Visits crossing p ∧ p.callee? crossing = some e ∧ e.Visits crossing q ∧
      p.effect? = some (.call ⟨"A", "read", "(LA;)I"⟩ none [.obj 0] f, w) ∧
      e.world.made = p.world.made ∧
      (p.world.heap.getField 0 "x").toOption = some (.int 5) ∧
      (q.world.heap.getField 0 "x").toOption = some (.int 7) := by
  have h : (crossing.firstPoint? 20 "A" "share" [] .start).any fun start =>
      (start.after? crossing 4).any fun p => (p.callee? crossing).any fun e =>
      (e.after? crossing 5).any fun q => p.effect?.any fun effect =>
        effect.1 = .call ⟨"A", "read", "(LA;)I"⟩ none [.obj 0] ⟨11, [], []⟩ ∧
        e.world.made = p.world.made ∧
        (p.world.heap.getField 0 "x").toOption = some (.int 5) ∧
        (q.world.heap.getField 0 "x").toOption = some (.int 7) := by decide +kernel
  simp only [Option.any_eq_true, decide_eq_true_eq] at h
  obtain ⟨start, hstart, p, hp, e, he, q, hq, ⟨effect, w⟩, heffect, rfl, hmade, hx, hx'⟩ := h
  exact ⟨start, p, e, q, _, w, hstart, Point.visits_of_after? hp, he, Point.visits_of_after? hq,
    heffect, hmade, hx, hx'⟩

/-- At its entry the callee does not find the object that it was given. -/
theorem static_call_lacks_entry :
    ∃ start p e f w, crossing.firstPoint? 20 "A" "share" [] .start = some start ∧
      start.Visits crossing p ∧
      p.effect? = some (.call ⟨"A", "read", "(LA;)I"⟩ none [.obj 0] f, w) ∧
      p.callee? crossing = some e ∧ e.world.heap.Lacks 0 := by
  obtain ⟨start, p, e, q, f, w, hstart, hp, he, -, heffect, hmade, -, -⟩ := crossing_points
  have hempty : crossing.firstPoint? 20 "A" "share" [] { World.start with heap := .empty } =
    some start := hstart
  obtain ⟨-, hgiven, -⟩ := static_call_lacks rfl hempty hp heffect he
  exact ⟨start, p, e, f, w, hstart, hp, heffect, he,
    hgiven e .here 0 (Nat.le_of_eq hmade)⟩

/-- **What isolation does not catch.**  The caller writes 5 to a field of the object that it gives
    to a static call.  The callee finds another object under the reference once it has made one
    itself, and reads the 7 that it wrote there; no access fails. -/
theorem static_call_aliases :
    (crossing.runMethod 20 "A" "share" .start).1.toOption = some (some (.int 7)) ∧
    ∃ start p e q f w, crossing.firstPoint? 20 "A" "share" [] .start = some start ∧
      start.Visits crossing p ∧
      p.effect? = some (.call ⟨"A", "read", "(LA;)I"⟩ none [.obj 0] f, w) ∧
      p.callee? crossing = some e ∧ e.Visits crossing q ∧
      (p.world.heap.getField 0 "x").toOption = some (.int 5) ∧
      (q.world.heap.getField 0 "x").toOption = some (.int 7) := by
  obtain ⟨start, p, e, q, f, w, hstart, hp, he, hq, heffect, -, hx, hx'⟩ := crossing_points
  exact ⟨by decide +kernel, start, p, e, q, f, w, hstart, hp, heffect, he, hq, hx, hx'⟩

end Machine

end Bytecode
