/-
  Heaps only grow.

  Whatever the program and however its run ends, every object that was on the heap is still there,
  with its class name and all the fields it had.  This is the law that says nothing of values
  (`ValueLaw.any`), which every machine admits.

  A run may go through several heaps, since a static call can have one of its own.  The `trail` of
  a point lists those points of the run from it that are on the heap it starts on, in the order in
  which they come.  Along a trail the heap grows from each point to every later one, so the number
  that `new` hands out is one that no object had before and that leads to its object ever after.
-/
import Bytecode.ClassFile.Assembly
import Bytecode.Proofs.Machine.Isolation
import Bytecode.Proofs.Machine.References

namespace Bytecode

/-- The law that every value obeys. -/
def ValueLaw.any : ValueLaw where
  Holds _ _ := True
  plain _ := ⟨fun _ => trivial, fun _ => trivial, fun _ => trivial⟩
  made _ := trivial
  mono _ _ := trivial

theorem ValueLaw.any_admits (m : Machine) : any.Admits m where
  result _ _ _ := trivial
  missed {_ _ _ id} _ _ := ⟨id, Nat.le_refl id, trivial⟩
  isolated _ _ _ _ := trivial

/-- The numbers of the objects are those below the size, which is the number that the next object
    gets.  This is so of any heap (`Heap.numbered`), since a heap is the array of its objects. -/
structure Heap.Numbered (heap : Heap) : Prop where
  get : ∀ id, (heap.get id).isOk ↔ id < heap.size
  next : ∀ className, (heap.alloc className).1 = heap.size

theorem Heap.numbered (heap : Heap) : heap.Numbered :=
  ⟨fun _ => Heap.isOk_get_iff, fun _ => rfl⟩

namespace Point

/-- Whether the instruction at a point calls a method that runs on a heap of its own. -/
def isolates (m : Machine) (p : Point) : Bool :=
  match m.policy, p.effect? with
  | .isolateStatic, some (.call _ none _ _, _) => true
  | _, _ => false

/-- The points that can come right after a point on the same heap. -/
def sharers (m : Machine) (p : Point) : List Point :=
  (if p.isolates m then [] else (p.callee? m).toList) ++ (p.next? m).toList

/-- The points of a run from a point that are on the heap it starts on, in the order in which they
    come, if it has less than `n` units of fuel. -/
def trailFrom (m : Machine) : Nat → Point → List Point
  | 0, _ => []
  | n + 1, p => p :: (p.sharers m).flatMap (trailFrom m n)

/-- The points of a run from a point that are on the heap it starts on, in the order in which they
    come. -/
def trail (m : Machine) (p : Point) : List Point :=
  trailFrom m (p.fuel + 1) p

/-- The number of the object that the instruction at a point makes, if it is a `new`: the one that
    is handed out at the next point. -/
def made? (m : Machine) (p : Point) : Option Nat :=
  match fetch p.routine.code p.frame.pc, p.next? m with
  | .ok (d, _), some q =>
    match d.instruction, q.frame.stack with
    | .new _, .obj id :: _ => some id
    | _, _ => none
  | _, _ => none

/-- The objects that a point has are on the heap, and so is the one that its instruction makes. -/
structure KeptBy (m : Machine) (p : Point) (heap : Heap) : Prop where
  grows : p.world.heap.Grows heap
  made : ∀ id, p.made? m = some id → id < heap.size

variable {m : Machine} {p q e : Point}

/-! ## Calls on the caller's heap -/

theorem worldOfCall_of_not_isolates {callee : MemberRef} {receiver : Option Value}
    {args : List Value} {f : Frame} {w : World}
    (heffect : p.effect? = some (.call callee receiver args f, w))
    (hshares : p.isolates m = false) (w' : World) :
    m.worldOfCall receiver w = w ∧ m.worldAfterCall receiver w w' = w' := by
  obtain ⟨classes, natives, policy⟩ := m
  simp only [isolates, heffect] at hshares
  cases policy with
  | shared => exact ⟨rfl, rfl⟩
  | isolateStatic =>
    cases receiver with
    | some receiver => exact ⟨rfl, rfl⟩
    | none => cases hshares

/-- A method that is called on the heap of its caller starts with it. -/
theorem heap_of_sharing_callee (he : p.callee? m = some e) (hshares : p.isolates m = false) :
    e.world.heap = p.world.heap := by
  obtain ⟨fuel, callee, receiver, args, f, w, -, heffect, hfirst⟩ := callee?_eq_some_iff.1 he
  rw [(Machine.fuel_of_firstPoint? hfirst).2, (worldOfCall_of_not_isolates heffect hshares w).1]
  obtain ⟨d, next, -, -, rfl⟩ := effect?_eq_some_iff.1 heffect
  rfl

theorem step_of_callee? {callee : MemberRef} {receiver : Option Value} {args : List Value}
    {f : Frame} {w : World} (he : p.callee? m = some e)
    (heffect : p.effect? = some (.call callee receiver args f, w)) :
    m.step (m.caller e.fuel) p.routine p.frame p.world =
      let out := Machine.leave callee.className callee.name (e.run m)
      Machine.resume f (out.1, m.worldAfterCall receiver w out.2) := by
  obtain ⟨-, hfirst⟩ := firstPoint?_of_callee? he heffect
  have hcall := Machine.invokeWith_of_firstPoint? hfirst (m.run e.fuel)
  rw [step_of_effect? _ heffect, Machine.settle, Machine.callOnHeap_eq]
  simp only [Machine.caller, hcall]
  rfl

/-- What a call on the caller's heap leaves is the heap that the caller goes on with; if the call
    fails, it is the heap that the caller ends with. -/
theorem heap_after_sharing_callee (he : p.callee? m = some e) (hshares : p.isolates m = false) :
    (∃ q, p.next? m = some q ∧ q.world.heap = (e.run m).2.heap) ∨
      p.next? m = none ∧ (p.run m).2.heap = (e.run m).2.heap := by
  obtain ⟨fuel, callee, receiver, args, f, w, -, heffect, -⟩ := callee?_eq_some_iff.1 he
  obtain ⟨hfuel, -⟩ := firstPoint?_of_callee? he heffect
  have hafter := fun w' => (worldOfCall_of_not_isolates heffect hshares w').2
  have hstep := step_of_callee? he heffect
  rcases hrun : e.run m with ⟨why | result, w'⟩
  · right
    simp only [hrun, Machine.leave, Machine.resume, hafter] at hstep
    rw [next?, run_of_fuel hfuel, hfuel]
    simp only [hstep, and_self]
  · left
    have hnext := next?_of_callee? he heffect hrun
    rw [hafter] at hnext
    exact ⟨_, hnext, rfl⟩

/-! ## From one point to the next -/

theorem made?_eq_some_iff {id : Nat} :
    p.made? m = some id ↔ ∃ d next index q, fetch p.routine.code p.frame.pc = .ok (d, next) ∧
      d.instruction = .new index ∧ p.next? m = some q ∧ q.frame.stack.head? = some (.obj id) := by
  unfold made?
  constructor
  · intro h
    split at h
    · next d next q hfetch hq =>
      split at h
      · next index id' rest hd hstack =>
        obtain rfl := Option.some.inj h
        exact ⟨d, next, index, q, hfetch, hd, hq, by rw [hstack]; rfl⟩
      · cases h
    · cases h
  · rintro ⟨d, next, index, q, hfetch, hd, hq, hid⟩
    obtain ⟨rest, hstack⟩ := List.head?_eq_some_iff.1 hid
    simp only [hfetch, hq, hd, hstack]

/-- The number that `new` hands out is the next one; its object is on the heap then. -/
theorem size_of_made? {id : Nat} (h : p.made? m = some id) (hq : p.next? m = some q) :
    p.world.heap.size = id ∧ q.world.heap.size = id + 1 := by
  obtain ⟨d, next, index, q', hfetch, hd, hq', hid⟩ := made?_eq_some_iff.1 h
  obtain rfl := Option.some.inj (hq.symm.trans hq')
  obtain ⟨fuel, f, w, -, hstep, rfl⟩ := next?_eq_some_iff.1 hq
  cases hname : RunError.ofFormat (p.routine.pool.className index.toNat) with
  | error e =>
    have hperform : perform p.routine p.world.heap d.start d.instruction
        { p.frame with pc := next } = .error e := by
      rw [hd, perform, hname]
      rfl
    rw [Machine.step_of_fault hfetch hperform] at hstep
    cases hstep
  | ok name =>
    have hperform : perform p.routine p.world.heap d.start d.instruction
        { p.frame with pc := next } = .ok (.update (Frame.push { p.frame with pc := next }
          (.obj p.world.heap.size)) (p.world.heap.alloc name).2) := by
      rw [hd, perform, hname]
      rfl
    rw [Machine.step_of_effect hfetch hperform] at hstep
    obtain ⟨hf, hw⟩ := Prod.mk.inj hstep
    obtain rfl := Progress.going.inj hf
    subst hw
    obtain rfl := Value.obj.inj (Option.some.inj hid)
    exact ⟨rfl, Heap.size_alloc _ _⟩

theorem made?_of_callee? (he : p.callee? m = some e) : p.made? m = none := by
  refine Option.eq_none_iff_forall_ne_some.2 fun id hid => ?_
  obtain ⟨d, next, index, q, hfetch, hd, -, -⟩ := made?_eq_some_iff.1 hid
  obtain ⟨fuel, callee, receiver, args, f, w, -, heffect, -⟩ := callee?_eq_some_iff.1 he
  obtain ⟨d', next', hfetch', hperform, -⟩ := effect?_eq_some_iff.1 heffect
  obtain ⟨rfl, rfl⟩ := Prod.mk.inj (Except.ok.inj (hfetch.symm.trans hfetch'))
  simp only [hd, perform, Except.bind_eq_ok_iff, Except.pure_eq_ok_iff] at hperform
  obtain ⟨name, -, heq⟩ := hperform
  cases heq

theorem fits_any (p : Point) : ValueLaw.any.contract.Fits p.routine p.frame p.world :=
  ⟨fun _ _ _ _ _ _ => trivial, fun _ _ => trivial, fun _ _ _ => trivial⟩

theorem grows_run (m : Machine) (p : Point) : p.world.heap.Grows (p.run m).2.heap :=
  ((ValueLaw.sound (ValueLaw.any_admits m)).run p.fuel _ _ _ p.fits_any).1.heap

theorem KeptBy.trans {heap heap' : Heap} (h : p.KeptBy m heap) (hgrows : heap.Grows heap') :
    p.KeptBy m heap' :=
  ⟨h.grows.trans hgrows, fun id hid => Nat.lt_of_lt_of_le (h.made id hid) hgrows.size_le⟩

theorem keptBy_next (hq : p.next? m = some q) : p.KeptBy m q.world.heap where
  grows := ((ValueLaw.sound (ValueLaw.any_admits m)).next? hq p.fits_any).1.heap
  made id hid := by
    rw [(size_of_made? hid hq).2]
    exact Nat.lt_succ_self id

theorem keptBy_callee (he : p.callee? m = some e) (hshares : p.isolates m = false) :
    p.KeptBy m e.world.heap where
  grows := by
    rw [heap_of_sharing_callee he hshares]
    exact .refl _
  made id hid := by
    rw [made?_of_callee? he] at hid
    cases hid

/-- What is on the heap at a point is there at the end of the run. -/
theorem keptBy_run (m : Machine) (p : Point) : p.KeptBy m (p.run m).2.heap where
  grows := grows_run m p
  made id hid := by
    obtain ⟨-, -, -, q, -, -, hq, -⟩ := made?_eq_some_iff.1 hid
    rw [run_of_next? hq]
    exact ((keptBy_next hq).trans (grows_run m q)).made id hid

/-! ## Along a trail -/

theorem mem_sharers_iff : q ∈ p.sharers m ↔
    p.isolates m = false ∧ p.callee? m = some q ∨ p.next? m = some q := by
  cases h : p.isolates m <;> simp [sharers, h]

/-- From a point to what comes right after it on the same heap, and from its end to the end of the
    run from the point. -/
theorem keptBy_sharer (hq : q ∈ p.sharers m) :
    p.KeptBy m q.world.heap ∧ (q.run m).2.heap.Grows (p.run m).2.heap := by
  rcases mem_sharers_iff.1 hq with ⟨hshares, he⟩ | hnext
  · refine ⟨keptBy_callee he hshares, ?_⟩
    rcases heap_after_sharing_callee he hshares with ⟨q', hq', hheap⟩ | ⟨-, hheap⟩
    · rw [run_of_next? hq', ← hheap]
      exact grows_run m q'
    · rw [hheap]
      exact .refl _
  · refine ⟨keptBy_next hnext, ?_⟩
    rw [run_of_next? hnext]
    exact .refl _

theorem grows_of_mem_trailFrom {n : Nat} (hq : q ∈ trailFrom m n p) :
    p.world.heap.Grows q.world.heap ∧ q.KeptBy m (p.run m).2.heap := by
  induction n generalizing p with
  | zero => cases hq
  | succ n ih =>
    rw [trailFrom, List.mem_cons, List.mem_flatMap] at hq
    rcases hq with rfl | ⟨s, hs, hq⟩
    · exact ⟨.refl _, keptBy_run m q⟩
    · obtain ⟨hkept, hend⟩ := keptBy_sharer hs
      obtain ⟨hgrows, hkept'⟩ := ih hq
      exact ⟨hkept.grows.trans hgrows, hkept'.trans hend⟩

/-- What comes after a point on the same heap: first what it calls, then what follows the call. -/
theorem pairwise_sharers (m : Machine) (n : Nat) (p : Point) :
    (p.sharers m).Pairwise fun s t => ∀ q ∈ trailFrom m n s, ∀ q' ∈ trailFrom m n t,
      q.KeptBy m q'.world.heap := by
  have hone : ∀ {R : Point → Point → Prop} (o : Option Point), o.toList.Pairwise R := by
    intro R o
    cases o <;> simp
  unfold sharers
  split
  · exact hone _
  · next hshares =>
    refine List.pairwise_append.2 ⟨hone _, hone _, fun e he t ht q hq q' hq' => ?_⟩
    rw [Option.mem_toList] at he ht
    -- the heap that the callee ends with is the one that the caller goes on with
    rcases heap_after_sharing_callee he (by simpa using hshares) with ⟨t', ht', hheap⟩ | ⟨hnone, -⟩
    · obtain rfl := Option.some.inj (ht'.symm.trans ht)
      have hend := (grows_of_mem_trailFrom hq).2
      rw [← hheap] at hend
      exact hend.trans (grows_of_mem_trailFrom hq').1
    · rw [hnone] at ht
      cases ht

/-- **Along a trail nothing is lost**: what is on the heap at a point is on it at every later
    one. -/
theorem trailFrom_pairwise (m : Machine) (n : Nat) (p : Point) :
    (trailFrom m n p).Pairwise fun q q' => q.KeptBy m q'.world.heap := by
  induction n generalizing p with
  | zero => exact .nil
  | succ n ih =>
    refine List.pairwise_cons.2 ⟨fun q hq => ?_, List.pairwise_flatMap.2 ⟨fun s _ => ih s, ?_⟩⟩
    · obtain ⟨s, hs, hq⟩ := List.mem_flatMap.1 hq
      exact (keptBy_sharer hs).1.trans (grows_of_mem_trailFrom hq).1
    · exact pairwise_sharers m n p

theorem self_mem_trail (p : Point) : p ∈ p.trail m := List.mem_cons_self

theorem mem_trailFrom_of_sharer {n : Nat} (hn : p.fuel < n) (hq : q ∈ trailFrom m n p) {q' : Point}
    (hq' : q' ∈ q.sharers m) : q' ∈ trailFrom m n p := by
  have hfuel : ∀ {s t : Point}, t ∈ s.sharers m → s.fuel = t.fuel + 1 := by
    intro s t ht
    rcases mem_sharers_iff.1 ht with ⟨-, he⟩ | hnext
    · exact fuel_of_mem_successors (callee_mem_successors he)
    · exact fuel_of_mem_successors (next_mem_successors hnext)
  induction n generalizing p with
  | zero => cases hq
  | succ n ih =>
    rw [trailFrom, List.mem_cons, List.mem_flatMap] at hq ⊢
    right
    rcases hq with rfl | ⟨s, hs, hq⟩
    · have hlt := hfuel hq'
      obtain ⟨k, rfl⟩ : ∃ k, n = k + 1 := ⟨n - 1, by omega⟩
      exact ⟨q', hq', List.mem_cons_self⟩
    · have hlt := hfuel hs
      exact ⟨s, hs, ih (by omega) hq⟩

/-- Every point of a run is on the trail of its start, or on that of a call that was given an empty
    heap of its own. -/
theorem exists_trail (h : p.Visits m q) :
    ∃ root, p.Visits m root ∧ (root = p ∨ root.world.heap = .empty) ∧ q ∈ root.trail m := by
  induction h with
  | here => exact ⟨p, .here, .inl rfl, self_mem_trail p⟩
  | next _ hq ih =>
    obtain ⟨root, hroot, horigin, hmem⟩ := ih
    exact ⟨root, hroot, horigin, mem_trailFrom_of_sharer (Nat.lt_succ_self _) hmem
      (mem_sharers_iff.2 (.inr hq))⟩
  | @enter q q' hvisits hq ih =>
    cases hisolates : q.isolates m with
    | false =>
      obtain ⟨root, hroot, horigin, hmem⟩ := ih
      exact ⟨root, hroot, horigin, mem_trailFrom_of_sharer (Nat.lt_succ_self _) hmem
        (mem_sharers_iff.2 (.inl ⟨hisolates, hq⟩))⟩
    | true =>
      refine ⟨q', hvisits.enter hq, .inr ?_, self_mem_trail q'⟩
      unfold isolates at hisolates
      split at hisolates
      · next hpolicy heffect => exact Machine.heap_of_callee? hpolicy heffect hq
      · cases hisolates

/-- The number of an object that is made on a trail leads nowhere up to then, and to the object from
    then on. -/
theorem isOk_get_of_made? {root : Point} {before after : List Point} {id : Nat}
    (htrail : root.trail m = before ++ p :: after) (hid : p.made? m = some id) :
    (∀ q ∈ before ++ [p], ¬ (q.world.heap.get id).isOk) ∧
      (∀ q ∈ after, (q.world.heap.get id).isOk) ∧ ((root.run m).2.heap.get id).isOk := by
  have hpairs : (root.trail m).Pairwise fun q q' => q.KeptBy m q'.world.heap :=
    trailFrom_pairwise m _ root
  have hmem : p ∈ root.trail m := htrail ▸ List.mem_append_right _ List.mem_cons_self
  have hend := (grows_of_mem_trailFrom hmem).2
  rw [htrail] at hpairs
  obtain ⟨-, hafter, hbefore⟩ := List.pairwise_append.1 hpairs
  obtain ⟨-, -, -, q, -, -, hq, -⟩ := made?_eq_some_iff.1 hid
  have hsize := (size_of_made? hid hq).1
  simp only [Heap.isOk_get_iff]
  refine ⟨fun q hq => ?_, fun q hq => ?_, hend.made id hid⟩
  · rw [Nat.not_lt, ← hsize]
    rcases List.mem_append.1 hq with hq | hq
    · exact (hbefore q hq p List.mem_cons_self).grows.size_le
    · exact Nat.le_of_eq (by rw [List.mem_singleton.1 hq])
  · exact ((List.pairwise_cons.1 hafter).1 q hq).made id hid

end Point

namespace Machine

theorem heap_leave (className method : String) (out : Result × World) :
    (leave className method out).2.heap = out.2.heap := by
  obtain ⟨why | result, w⟩ := out
  · rfl
  · rfl

/-- **Runs only ever grow the heap.**  However the run of a method ends, the objects on the heap are
    numbered from 0 on without gaps, and those that were there before still are, with their class
    names and all the fields they had.  And wherever in the run `new` hands out an object: up to
    then its number led nowhere at any point on that heap, from the first such point on, which is
    the start of the run or has an empty heap; and it leads to an object at every point on that
    heap that follows, and when the run on that heap ends. -/
theorem invoke_heap_grows (m : Machine) (fuel : Nat) (className method : String)
    (receiver : Option Value) (args : List Value) (w : World) :
    let out := m.invoke fuel className method receiver args w
    out.2.heap.Numbered ∧ w.heap.size ≤ out.2.heap.size ∧ w.heap.Grows out.2.heap ∧
    ∀ start, m.firstPoint? fuel className method (receiver.toList ++ args) w = some start →
      start.world.heap = w.heap ∧ (start.run m).2.heap = out.2.heap ∧
      ∀ p id, start.Visits m p → p.made? m = some id →
        ∃ root, start.Visits m root ∧ (root = start ∨ root.world.heap = .empty) ∧
          p ∈ root.trail m ∧ ∀ before after, root.trail m = before ++ p :: after →
            (∀ q ∈ before ++ [p], ¬ (q.world.heap.get id).isOk) ∧
            (∀ q ∈ after, (q.world.heap.get id).isOk) ∧
            ((root.run m).2.heap.get id).isOk := by
  intro out
  have hgrows : w.heap.Grows out.2.heap :=
    ((ValueLaw.sound (ValueLaw.any_admits m)).invoke fuel className method
      ⟨fun _ _ _ _ _ _ => trivial, fun _ _ => trivial⟩).1.heap
  refine ⟨out.2.heap.numbered, hgrows.size_le, hgrows, fun start hstart => ⟨?_, ?_, ?_⟩⟩
  · rw [(fuel_of_firstPoint? hstart).2]
    rfl
  · have hout : out = leave className method (m.run fuel start.routine start.frame start.world) :=
      invokeWith_of_firstPoint? hstart (m.run fuel)
    rw [hout, heap_leave, Point.run, (fuel_of_firstPoint? hstart).1]
  · intro p id hp hid
    obtain ⟨root, hroot, horigin, hmem⟩ := Point.exists_trail hp
    exact ⟨root, hroot, horigin, hmem, fun before after htrail =>
      Point.isOk_get_of_made? htrail hid⟩

/-- A method that makes an object, whose constructor makes another one.  It then calls a static
    method that makes an object on a heap of its own, and fails since it reads a field that is not
    set of a third object. -/
def growing : Machine :=
  let cls := (Assembly.build "N" [.member .field "N" "next" "LN;",
    .member .method "N" "<init>" "()V", .member .method "N" "make" "()LN;",
    .method ⟨1⟩ "<init>" "()V" ⟨2, 1, [0x2a, 0xbb, 0, 2, 0xb5, 0, 8, 0xb1]⟩,
    .method ⟨9⟩ "make" "()LN;" ⟨1, 0, [0xbb, 0, 2, 0xb0]⟩,
    .method ⟨9⟩ "main" "()V" ⟨2, 0, [0xbb, 0, 2, 0x59, 0xb7, 0, 12, 0xb8, 0, 16, 0x57,
      0xbb, 0, 2, 0xb4, 0, 8, 0xb1]⟩]).2
  ⟨⟨[("N", cls)]⟩, .empty, .isolateStatic⟩

def stocked : World :=
  ⟨⟨#[⟨"O", [("x", .int 5)]⟩]⟩, []⟩

/-- The constructor's object has the number 2 from then on, although the run fails later. -/
theorem invoke_heap_grows_constructor :
    (growing.invoke 30 "N" "main" none [] stocked).1.toOption = none ∧
      (growing.invoke 30 "N" "main" none [] stocked).2.heap.size = 4 ∧
      stocked.heap.Grows (growing.invoke 30 "N" "main" none [] stocked).2.heap ∧
      ∃ start p, growing.firstPoint? 30 "N" "main" [] stocked = some start ∧
        start.Visits growing p ∧ p.made? growing = some 2 ∧
        ∃ root, start.Visits growing root ∧ (root = start ∨ root.world.heap = .empty) ∧
          p ∈ root.trail growing ∧ ∀ before after, root.trail growing = before ++ p :: after →
            (∀ q ∈ before ++ [p], ¬ (q.world.heap.get 2).isOk) ∧
            (∀ q ∈ after, (q.world.heap.get 2).isOk) ∧
            ((root.run growing).2.heap.get 2).isOk := by
  have hpoints : (growing.firstPoint? 30 "N" "main" [] stocked).any fun start =>
      (start.after? growing 2).any fun call => (call.callee? growing).any fun e =>
      (e.after? growing 1).any fun p => p.made? growing = some 2 := by decide +kernel
  simp only [Option.any_eq_true, decide_eq_true_eq] at hpoints
  obtain ⟨start, hstart, call, hcall, e, he, p, hp, hid⟩ := hpoints
  have hvisits : start.Visits growing p :=
    ((Point.visits_of_after? hcall).enter he).trans (Point.visits_of_after? hp)
  have hruns := growing.invoke_heap_grows 30 "N" "main" none [] stocked
  exact ⟨by decide +kernel, by decide +kernel, hruns.2.2.1, start, p, hstart, hvisits, hid,
    (hruns.2.2.2 start hstart).2.2 p 2 hvisits hid⟩

end Machine

end Bytecode
