/-
  Properties of values that no program can break.

  A `ValueLaw` is a property of values that may depend on how many objects there are: numbers,
  texts and static fields have it, an object has it once it is made, and a growing heap keeps it.
  If the values that a call is given obey such a law, and those in the fields of the heap, then
  whatever the program, so does every value that the run handles:

  * `ValueLaw.sound`: the law is a sound contract.  The heap only grows, every value in an event
    or in a field obeys the law, and so does the value that is returned;
  * an object that is missed is one that obeyed the law on a heap without it.
-/
import Bytecode.Proofs.Machine.Contract
import Bytecode.Proofs.Machine.Flow

namespace Bytecode

/-- The values that an event tells, but for the marks of local slots that are not set. -/
def Event.values : Event → List Value
  | .stack values => values
  | .locals values => values.filter (· ≠ .unset)
  | .called _ args => args
  | .exited _ _ result => result.toList
  | _ => []

/-- A property of values, on a heap of `n` objects, that carrying out instructions cannot break. -/
structure ValueLaw where
  Holds : (n : Nat) → Value → Prop
  plain : ∀ n, Value.Plain (Holds n)
  /-- The object that was made last has the property. -/
  made : ∀ n, Holds (n + 1) (.obj n)
  mono : ∀ {n n' v}, n ≤ n' → Holds n v → Holds n' v

namespace ValueLaw

variable (law : ValueLaw)

/-- An object that was missed obeyed the law on a heap without it. -/
def Misses (id : Nat) : Prop :=
  ∃ n ≤ id, law.Holds n (.obj id)

/-- The host methods of the machine keep to the law, and so do calls on a heap of their own. -/
structure Admits (m : Machine) : Prop where
  result : ∀ {key f args n v}, m.natives.get? key = some f → (∀ u ∈ args, law.Holds n u) →
    f args = .ok (some v) → law.Holds n v
  missed : ∀ {key f args id}, m.natives.get? key = some f →
    f args = .error (.noSuchObject id) → law.Misses id
  isolated : m.policy = .isolateStatic → ∀ n v, law.Holds n v → law.Holds 0 v

def OnHeap (heap : Heap) : Prop :=
  heap.Each (law.Holds heap.size)

/-- The heap grew, and every value in the events since then obeys the law. -/
structure Evolves (w w' : World) : Prop where
  heap : w.heap.Grows w'.heap
  events : ∃ es, w'.history = es ++ w.history ∧
    ∀ e ∈ es, ∀ v ∈ e.values, law.Holds w'.heap.size v

/-- The heap obeys the law, and so does the value that is returned; an object that is missed obeyed
    it once. -/
structure Good (result : Result) (w : World) : Prop where
  heap : law.OnHeap w.heap
  value : ∀ v, result = .ok (some v) → law.Holds w.heap.size v
  missed : ∀ id, result = .error (.error (.noSuchObject id)) → law.Misses id

def contract : Contract where
  Given vs w := law.OnHeap w.heap ∧ ∀ v ∈ vs, law.Holds w.heap.size v
  Fits _ f w := law.OnHeap w.heap ∧ f.Each (law.Holds w.heap.size)
  Evolves := law.Evolves
  Good := law.Good

variable {law} {m : Machine} {w w' w'' : World}

/-! ## Worlds -/

theorem Evolves.refl (w : World) : law.Evolves w w :=
  ⟨.refl _, [], rfl, fun _ he => nomatch he⟩

theorem Evolves.trans (h : law.Evolves w w') (h' : law.Evolves w' w'') : law.Evolves w w'' := by
  obtain ⟨hheap, es, hes, hvalues⟩ := h
  obtain ⟨hheap', es', hes', hvalues'⟩ := h'
  refine ⟨hheap.trans hheap', es' ++ es, by rw [hes', hes, List.append_assoc], fun e he v hv => ?_⟩
  rcases List.mem_append.1 he with he | he
  · exact hvalues' e he v hv
  · exact law.mono hheap'.size_le (hvalues e he v hv)

theorem Evolves.note (e : Event) (h : ∀ v ∈ e.values, law.Holds w.heap.size v) :
    law.Evolves w (w.note e) :=
  ⟨.refl _, [e], rfl, fun _ he => List.mem_singleton.1 he ▸ h⟩

theorem Evolves.note_silent {e : Event} (h : e.values = []) : law.Evolves w (w.note e) :=
  .note e fun v hv => by simp [h] at hv

theorem Evolves.onHeap {heap : Heap} (h : w.heap.Grows heap) :
    law.Evolves w { w with heap } :=
  ⟨h, [], rfl, fun _ he => nomatch he⟩

theorem Evolves.each (h : law.Evolves w w') {f : Frame} (hf : f.Each (law.Holds w.heap.size)) :
    f.Each (law.Holds w'.heap.size) :=
  hf.imp fun _ hv => law.mono h.heap.size_le hv

theorem Good.of_error {why : Stop} (hheap : law.OnHeap w.heap)
    (h : ∀ id, why = .error (.noSuchObject id) → law.Misses id) : law.Good (.error why) w where
  heap := hheap
  value := fun _ hv => nomatch hv
  missed := fun id hid => h id (Except.error.inj hid)

/-! ## Calls -/

/-- A host method that the machine admits keeps the law. -/
theorem callNative_ends (hm : law.Admits m) (key : NativeKey) {args : List Value}
    (hheap : law.OnHeap w.heap) (hargs : ∀ v ∈ args, law.Holds w.heap.size v) :
    law.contract.Ends w (m.callNative key args w) := by
  have hnative : law.Evolves w (w.note (.native key)) := .note_silent rfl
  unfold Machine.callNative
  dsimp only
  split
  · exact ⟨hnative, .of_error hheap fun _ hid => nomatch hid⟩
  · next f hf =>
    refine ⟨hnative.trans (.note (.called key args) hargs), hheap, fun v hv => ?_, fun id hid => ?_⟩
    · exact hm.result hf hargs (Except.mapError_eq_ok_iff.1 hv)
    · obtain ⟨e, he, hstop⟩ := Except.mapError_eq_error_iff.1 hid
      obtain rfl := Stop.error.inj hstop
      exact hm.missed hf he

/-- A call keeps the law on whichever heap the policy gives it. -/
theorem callOnHeap_ends (hm : law.Admits m) {call : Caller} (hcall : law.contract.Honours call)
    (callee : MemberRef) {receiver : Option Value} {args : List Value}
    (hheap : law.OnHeap w.heap) (hgiven : ∀ v ∈ receiver.toList ++ args, law.Holds w.heap.size v) :
    law.contract.Ends w (m.callOnHeap call callee receiver args w) := by
  unfold Machine.callOnHeap
  split
  · next hpolicy =>
    -- on a heap of its own the law holds as on the empty heap, hence on the caller's
    have hzero := hm.isolated hpolicy
    have hends := hcall callee none args { w with heap := .empty }
      ⟨Heap.each_empty, fun v hv => hzero _ v (hgiven v hv)⟩
    generalize call callee none args { w with heap := .empty } = out at hends
    obtain ⟨result, w'⟩ := out
    obtain ⟨⟨-, es, hes, hvalues⟩, hgood⟩ := hends
    refine ⟨⟨.refl _, es, hes, fun e he v hv => ?_⟩, hheap, fun v hv => ?_, hgood.missed⟩
    · exact law.mono (Nat.zero_le _) (hzero _ v (hvalues e he v hv))
    · exact law.mono (Nat.zero_le _) (hzero _ v (hgood.value v hv))
  · exact hcall callee _ args w ⟨hheap, hgiven⟩

theorem resume_continues {r : Routine} {f : Frame} {out : Result × World}
    (hf : f.Each (law.Holds w.heap.size)) (hout : law.contract.Ends w out) :
    law.contract.Continues r w (Machine.resume f out) := by
  obtain ⟨why | result, w'⟩ := out
  · exact hout
  · obtain ⟨hevolves, hgood⟩ := hout
    refine ⟨hevolves, hgood.heap, (Evolves.each hevolves hf).pushResult fun v hv => ?_⟩
    exact hgood.value v (congrArg Except.ok hv)

/-! ## Instructions -/

/-- Doing what an effect asks for keeps the law. -/
theorem settle_continues (hm : law.Admits m) {call : Caller} (hcall : law.contract.Honours call)
    {r : Routine} {effect : Effect} (hheap : law.OnHeap w.heap)
    (heffect : Flow (law.Holds w.heap.size) w.heap effect) :
    law.contract.Continues r w (m.settle call effect w) := by
  cases heffect with
  | advance hf => exact ⟨.refl w, hheap, hf⟩
  | branch hf => exact ⟨.note_silent rfl, hheap, hf⟩
  | write hf hv hput =>
    have hgrows : w.heap.Grows _ := Heap.grows_putField hput
    have hlater := fun v => @mono law _ _ v hgrows.size_le
    exact ⟨.onHeap hgrows, (hheap.putField hv hput).imp hlater, hf.imp hlater⟩
  | make className hf =>
    have hgrows : w.heap.Grows (w.heap.alloc className).2 := Heap.grows_alloc w.heap className
    have hlater := fun v => @mono law _ _ v hgrows.size_le
    refine ⟨.onHeap hgrows, (hheap.alloc className).imp hlater,
      Frame.each_push.2 ⟨?_, hf.imp hlater⟩⟩
    show law.Holds (w.heap.alloc className).2.size (.obj w.heap.size)
    rw [Heap.size_alloc]
    exact law.made w.heap.size
  | finish hresult =>
    exact ⟨.refl w, hheap, fun v hv => hresult v (Except.ok.inj hv), fun _ hid => nomatch hid⟩
  | native key hargs hf => exact resume_continues hf (callNative_ends hm key hheap hargs)
  | skip callee hf => exact ⟨.note_silent rfl, hheap, hf⟩
  | call callee hgiven hf =>
    exact resume_continues hf (callOnHeap_ends hm hcall callee hheap hgiven)

theorem noteFetch_evolves {f : Frame} (hf : f.Each (law.Holds w.heap.size)) (d : Decoded) :
    law.Evolves w (Machine.noteFetch d f w) := by
  have hfetched : law.Evolves w (w.note (.fetched d.start d.mnemonic)) :=
    .note_silent rfl
  refine (hfetched.trans (.note (.stack f.stack.reverse) fun v hv => ?_)).trans
    (.note (.locals f.locals) fun v hv => ?_)
  · exact hf.stack v (List.mem_reverse.1 hv)
  · obtain ⟨hmem, hset⟩ := List.mem_filter.1 hv
    exact hf.locals v hmem (of_decide_eq_true hset)

/-- **One instruction keeps the law**, if the calls do. -/
theorem step_continues (hm : law.Admits m) {call : Caller} (hcall : law.contract.Honours call)
    {r : Routine} {f : Frame} (hheap : law.OnHeap w.heap) (hf : f.Each (law.Holds w.heap.size)) :
    law.contract.Continues r w (m.step call r f w) := by
  unfold Machine.step
  split
  · next e he =>
    refine ⟨.refl w, .of_error hheap fun id hid => ?_⟩
    obtain rfl | ⟨opcode, rfl⟩ := fetch_error he <;> cases hid
  · next d next _ =>
    refine Contract.Continues.after Evolves.trans (noteFetch_evolves hf d) ?_
    have hensures : (perform r w.heap d.start d.instruction { f with pc := next }).Ensures _ _ :=
      perform_ensures (law.plain w.heap.size) (hf.at next) hheap
    dsimp only [Machine.noteFetch, World.note] at hensures ⊢
    split
    · next e he =>
      -- the object that is missed is an operand, which obeys the law
      refine ⟨.refl _, .of_error hheap fun id hid => ?_⟩
      have hfault := hensures.error he
      obtain rfl := Stop.error.inj hid
      cases hfault with
      | missing hmem hsize => exact ⟨w.heap.size, hsize, hf.stack _ hmem⟩
    · next effect heffect => exact settle_continues hm hcall hheap (hensures.ok heffect)

/-- **A law that a machine admits is a contract that all its runs keep.** -/
theorem sound (hm : law.Admits m) : law.contract.Sound m where
  refl := .refl
  trans := .trans
  step hcall hfits := step_continues hm hcall hfits.1 hfits.2
  exhausted hfits := .of_error hfits.1 fun _ hid => nomatch hid
  refuse hgiven he := .of_error hgiven.1 fun id hid => by
    obtain rfl := Stop.error.inj hid
    cases he
  enter hgiven _ _ _ := by
    refine ⟨.note_silent rfl, hgiven.1, fun _ hv => (nomatch hv), fun v hv hset => ?_⟩
    rcases List.mem_append.1 hv with hv | hv
    · exact hgiven.2 v hv
    · exact absurd (List.eq_of_mem_replicate hv) hset
  leave hgood := by
    refine ⟨.note _ fun v hv => ?_, hgood.heap, hgood.value, hgood.missed⟩
    exact hgood.value v (congrArg Except.ok (Option.mem_toList.1 hv))

end ValueLaw

end Bytecode
