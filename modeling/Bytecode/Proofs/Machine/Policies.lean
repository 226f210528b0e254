/-
  Where the two heap policies agree.

  Under `shared` a static call runs on the heap of its caller, under `isolateStatic` on an empty
  heap that is gone afterwards.  The difference cannot be seen by code that leaves the heap alone:
  it runs alike on every heap and gives it back as it was.  So the policies give the same run if
  nothing works on the heap while a static call is going on (`Machine.runs_of_staticSparesHeap`).
-/
import Bytecode.ClassFile.Assembly
import Bytecode.Proofs.Machine.Agreement
import Bytecode.Proofs.Machine.Allocation

namespace Bytecode

/-- Whether an instruction works on the heap. -/
def Instruction.usesHeap : Instruction → Bool
  | .new _ | .getField _ | .putField _ => true
  | _ => false

theorem perform_of_not_usesHeap {i : Instruction} (hi : i.usesHeap = false) (r : Routine)
    (heap heap' : Heap) (offset : Nat) (f : Frame) :
    perform r heap offset i f = perform r heap' offset i f := by
  cases i with
  | new _ | getField _ | putField _ => cases hi
  | _ => rfl

theorem perform_ne_update {i : Instruction} (hi : i.usesHeap = false) {r : Routine}
    {heap heap' : Heap} {offset : Nat} {f g : Frame} :
    perform r heap offset i f ≠ .ok (.update g heap') := by
  intro h
  -- on the empty heap the instruction does the same, and there is nothing there to write to
  rw [perform_of_not_usesHeap hi r heap .empty] at h
  rcases perform_update h with ⟨id, name, v, hput⟩ | ⟨⟨index, rfl⟩, -⟩
  · obtain ⟨o, ho, -⟩ := Heap.putField_eq_ok_iff.1 hput
    simp [Heap.empty] at ho
  · cases hi

namespace Point

def usesHeap (p : Point) : Bool :=
  match fetch p.routine.code p.frame.pc with
  | .ok (d, _) => d.instruction.usesHeap
  | .error _ => false

/-- The first point of the method that the instruction at a point calls, if the call is static. -/
def staticCallee? (m : Machine) (p : Point) : Option Point :=
  match p.effect? with
  | some (.call _ none _ _, _) => p.callee? m
  | _ => none

/-- Nothing that is carried out from a point on works on the heap, calls included. -/
def SparesHeap (m : Machine) (p : Point) : Prop :=
  ∀ q, p.Visits m q → q.usesHeap = false

/-- Nothing that is carried out from a point on works on the heap while a static call is going
    on. -/
def StaticSparesHeap (m : Machine) (p : Point) : Prop :=
  ∀ q e, p.Visits m q → q.staticCallee? m = some e → e.SparesHeap m

variable {m : Machine} {p q : Point}

theorem SparesHeap.of_visits (h : p.SparesHeap m) (hq : p.Visits m q) : q.SparesHeap m :=
  fun q' hq' => h q' (hq.trans hq')

theorem StaticSparesHeap.of_visits (h : p.StaticSparesHeap m) (hq : p.Visits m q) :
    q.StaticSparesHeap m :=
  fun q' e hq' => h q' e (hq.trans hq')

theorem callee?_of_staticCallee? (h : p.staticCallee? m = some q) : p.callee? m = some q := by
  unfold staticCallee? at h
  split at h
  · exact h
  · cases h

theorem staticSparesHeap_of_visited {n : Nat} (hn : p.fuel < n)
    (h : ∀ q ∈ visited m n p, ∀ e ∈ q.staticCallee? m, ∀ q' ∈ visited m n e,
      q'.usesHeap = false) : p.StaticSparesHeap m := by
  intro q e hq he q' hq'
  have hfuel := (hq.enter (callee?_of_staticCallee? he)).fuel_le
  exact h q (hq.mem_visited hn) e he q' (hq'.mem_visited (Nat.lt_of_le_of_lt hfuel hn))

end Point

def World.withHeap (heap : Heap) (w : World) : World :=
  { w with heap }

theorem Machine.callOnHeap_some (m : Machine) (call : Caller) (callee : MemberRef)
    (receiver : Value) (args : List Value) (w : World) :
    m.callOnHeap call callee (some receiver) args w = call callee (some receiver) args w := by
  obtain ⟨classes, natives, policy⟩ := m
  cases policy <;> rfl

namespace Agreement

/-- The second run is the same on another heap, which it leaves alone. -/
def onHeap (heap : Heap) : Agreement where
  world := World.withHeap heap
  Spares _ := False
  note _ _ := rfl

theorem overlooks_onHeap {p : Point} (hp : p.usesHeap = false) (heap : Heap) :
    (onHeap heap).Overlooks p := by
  have hfree : ∀ {d next}, fetch p.routine.code p.frame.pc = .ok (d, next) →
      d.instruction.usesHeap = false := by
    intro d next hfetch
    simpa only [Point.usesHeap, hfetch] using hp
  constructor
  · intro d next hfetch
    exact perform_of_not_usesHeap (hfree hfetch) _ _ _ _ _
  · intro f heap' w heffect
    obtain ⟨d, next, hfetch, hperform, -⟩ := Point.effect?_eq_some_iff.1 heffect
    exact absurd hperform (perform_ne_update (hfree hfetch))

theorem ends_callOnHeap (m : Machine) {call' : Caller} {callee : MemberRef}
    {receiver : Option Value} {args : List Value} {w : World} {out : Result × World}
    (h : ∀ heap, (onHeap heap).Ends out (call' callee receiver args (w.withHeap heap)))
    (heap : Heap) :
    (onHeap heap).Ends out (m.callOnHeap call' callee receiver args (w.withHeap heap)) := by
  cases receiver with
  | some receiver =>
    rw [Machine.callOnHeap_some]
    exact h heap
  | none =>
    obtain ⟨classes, natives, policy⟩ := m
    cases policy with
    | shared => exact h heap
    | isolateStatic =>
      have hempty : call' callee none args { w.withHeap heap with heap := .empty } =
          (out.1, out.2.withHeap .empty) := (h .empty).eq fun _ _ hspares => hspares
      left
      simp only [Machine.callOnHeap, hempty]
      rfl

end Agreement

namespace Machine

variable {m : Machine}

theorem callee?_of_call (hshared : m.policy = .shared) {p q : Point} {fuel : Nat}
    {callee : MemberRef} {receiver : Option Value} {args : List Value} {f : Frame} {w : World}
    (hfuel : p.fuel = fuel + 1)
    (heffect : p.effect? = some (.call callee receiver args f, w))
    (hq : m.firstPoint? fuel callee.className callee.name (receiver.toList ++ args) w = some q) :
    p.callee? m = some q := by
  refine Point.callee?_eq_some_iff.2 ⟨fuel, callee, receiver, args, f, w, hfuel, heffect, ?_⟩
  unfold worldOfCall
  rw [hshared]
  exact hq

theorem callOnHeap_shared (hshared : m.policy = .shared) (call : Caller) (callee : MemberRef)
    (receiver : Option Value) (args : List Value) (w : World) :
    m.callOnHeap call callee receiver args w = call callee receiver args w := by
  unfold callOnHeap
  rw [hshared]

/-- **Code that leaves the heap alone runs alike on every heap**, under either policy. -/
theorem runs_onHeap (hshared : m.policy = .shared) (policy : HeapPolicy) {p : Point}
    (hp : p.SparesHeap m) (heap : Heap) : (Agreement.onHeap heap).Runs m { m with policy } p := by
  induction p using Point.induction m generalizing heap with
  | h p ih =>
    have hafter : ∀ q ∈ p.successors m, ∀ heap,
        (Agreement.onHeap heap).Runs m { m with policy } q :=
      fun q hq => ih q hq (hp.of_visits (Point.visits_of_mem_successors hq))
    refine Agreement.runs (Agreement.natives_of_eq rfl)
      (Agreement.overlooks_onHeap (hp p .here) heap) ?_
      fun q hq => hafter q (Point.next_mem_successors hq) heap
    intro fuel callee receiver args f w hfuel heffect
    rw [callOnHeap_shared hshared]
    refine Agreement.ends_callOnHeap _ (fun heap' => ?_) heap
    refine Agreement.ends_invoke rfl rfl fun q hq => ?_
    exact hafter q (Point.callee_mem_successors (callee?_of_call hshared hfuel heffect hq)) heap'

/-- A static call that leaves the heap alone is the same on the heap of its caller and on one of its
    own. -/
theorem callOnHeap_eq_of_sparesHeap (hshared : m.policy = .shared) (policy : HeapPolicy)
    {fuel : Nat} {callee : MemberRef} {args : List Value} {w : World}
    (h : ∀ q, m.firstPoint? fuel callee.className callee.name args w = some q → q.SparesHeap m) :
    let m' : Machine := { m with policy }
    m'.callOnHeap (m'.caller fuel) callee none args w = m.caller fuel callee none args w := by
  intro m'
  have hmoved : ∀ policy heap, (Agreement.onHeap heap).Ends (m.caller fuel callee none args w)
      (({ m with policy } : Machine).caller fuel callee none args (w.withHeap heap)) := by
    intro policy heap
    refine Agreement.ends_invoke rfl rfl fun q hq => ?_
    exact runs_onHeap hshared policy (h q hq) heap
  have hown := Agreement.ends_callOnHeap m' (hmoved policy) w.heap
  -- moved to the heap that it had, the call shows that it gives this heap back
  have hback := hmoved m.policy w.heap
  exact (hown.eq fun _ _ hspares => hspares).trans (hback.eq fun _ _ hspares => hspares).symm

theorem runs_of_staticSparesHeap (hshared : m.policy = .shared) (policy : HeapPolicy) {p : Point}
    (hp : p.StaticSparesHeap m) :
    (Agreement.sameUnless fun _ => False).Runs m { m with policy } p := by
  induction p using Point.induction m with
  | h p ih =>
    have hafter : ∀ q ∈ p.successors m,
        (Agreement.sameUnless fun _ => False).Runs m { m with policy } q :=
      fun q hq => ih q hq (hp.of_visits (Point.visits_of_mem_successors hq))
    refine Agreement.runs (Agreement.natives_of_eq rfl) (Agreement.overlooks_sameUnless _ p) ?_
      fun q hq => hafter q (Point.next_mem_successors hq)
    intro fuel callee receiver args f w hfuel heffect
    have hcallee : ∀ q,
        m.firstPoint? fuel callee.className callee.name (receiver.toList ++ args) w = some q →
          p.callee? m = some q := fun q => callee?_of_call hshared hfuel heffect
    rw [callOnHeap_shared hshared]
    cases receiver with
    | none =>
      refine .inl (callOnHeap_eq_of_sparesHeap hshared policy fun q hq => ?_)
      exact hp p q .here (by simp only [Point.staticCallee?, heffect, hcallee q hq])
    | some receiver =>
      rw [callOnHeap_some]
      refine Agreement.ends_invoke rfl rfl fun q hq => ?_
      exact hafter q (Point.callee_mem_successors (hcallee q hq))

/-- **Where the heap policies agree.**  If nothing works on the heap while a static call is going
    on in a run under `shared`, then the run under `isolateStatic` is the same: it has the same
    result or error, leaves the same heap, and what happens in it, the calls of host methods
    included, is the same. -/
theorem invoke_isolateStatic (hshared : m.policy = .shared) (fuel : Nat)
    (className method : String) (receiver : Option Value) (args : List Value) (w : World)
    (h : ∀ start, m.firstPoint? fuel className method (receiver.toList ++ args) w = some start →
      start.StaticSparesHeap m) :
    { m with policy := .isolateStatic }.invoke fuel className method receiver args w =
      m.invoke fuel className method receiver args w := by
  have hends : (Agreement.sameUnless fun _ => False).Ends
      (m.invoke fuel className method receiver args w)
      ({ m with policy := .isolateStatic }.invoke fuel className method receiver args w) := by
    refine Agreement.ends_invoke rfl rfl fun p hp => ?_
    exact runs_of_staticSparesHeap hshared .isolateStatic (h p hp)
  exact hends.eq fun _ _ hspares => hspares

/-- A method that makes an object, passes it through a static call and reads a field of what comes
    back.  The callee hands the object to a host method and calls a method on it. -/
def passing : Machine :=
  let cls := (Assembly.build "L" [.member .field "L" "x" "I", .member .field "L" "host" "LL;",
    .member .method "L" "show" "(LL;)LL;", .member .method "L" "pass" "(LL;)LL;",
    .member .method "L" "self" "()LL;",
    .method ⟨1⟩ "main" "()I"
      ⟨3, 1, [0xbb, 0, 2, 0x59, 0x08, 0xb5, 0, 8, 0xb8, 0, 19, 0xb4, 0, 8, 0xac]⟩,
    .method ⟨9⟩ "pass" "(LL;)LL;" ⟨2, 1, [0xb2, 0, 12, 0x2a, 0xb6, 0, 16, 0xb7, 0, 23, 0xb0]⟩,
    .method ⟨1⟩ "self" "()LL;" ⟨1, 1, [0x2a, 0xb0]⟩]).2
  ⟨⟨[("L", cls)]⟩, NativeTable.empty.register ⟨"L", "host", "show"⟩ Native.first, .shared⟩

/-- The callee does not look into the object, so the run is the same on heaps that are kept apart:
    the field is found, and the host method got the object. -/
theorem invoke_isolateStatic_passing :
    let out := passing.invoke 20 "L" "main" none [] .start
    let out' := { passing with policy := .isolateStatic }.invoke 20 "L" "main" none [] .start
    (∃ start, passing.firstPoint? 20 "L" "main" [] .start = some start ∧
      start.StaticSparesHeap passing) ∧
    out.1.toOption = some (some (.int 5)) ∧
    out.2.events.filterMap Event.call? = [(⟨"L", "host", "show"⟩, [.obj 0])] ∧ out' = out := by
  intro out out'
  have hvisited : (passing.firstPoint? 20 "L" "main" [] .start).any fun start =>
      start.fuel < 21 ∧ ∀ q ∈ Point.visited passing 21 start, ∀ e ∈ q.staticCallee? passing,
        ∀ q' ∈ Point.visited passing 21 e, q'.usesHeap = false := by decide +kernel
  simp only [Option.any_eq_true, decide_eq_true_eq] at hvisited
  obtain ⟨start, hstart, hfuel, hall⟩ := hvisited
  have hspares := Point.staticSparesHeap_of_visited hfuel hall
  refine ⟨⟨start, hstart, hspares⟩, by decide +kernel, by decide +kernel, ?_⟩
  refine invoke_isolateStatic rfl 20 "L" "main" none [] .start fun start' hstart' => ?_
  obtain rfl := Option.some.inj (hstart.symm.trans hstart')
  exact hspares

end Machine

end Bytecode
