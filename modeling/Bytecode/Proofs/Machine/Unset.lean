/-
  The mark of local slots that are not set stays in local slots.

  A slot that holds `unset` cannot be loaded, and nothing else makes this value.  So not being
  `unset` is a `ValueLaw`: what a run pushes, passes on, returns or writes to a field is set, if
  that is so of what it was given.  And since a local slot is only written with such a value, a slot
  that is set stays set.

  * `Point.retains_of_after?`: from a point on, the frame keeps its local slots set.
-/
import Bytecode.ClassFile.Assembly
import Bytecode.Proofs.Machine.Moves
import Bytecode.Proofs.Machine.Values

namespace Bytecode

namespace ValueLaw

variable {law : ValueLaw} {m : Machine} {p q : Point}

theorem given_worldOfCall (hm : law.Admits m) {w : World} {receiver : Option Value}
    {vs : List Value} (hheap : law.OnHeap w.heap) (hvs : ∀ v ∈ vs, law.Holds w.heap.size v) :
    law.contract.Given vs (m.worldOfCall receiver w) := by
  unfold Machine.worldOfCall
  split
  · next hpolicy => exact ⟨Heap.each_empty, fun v hv => hm.isolated hpolicy _ v (hvs v hv)⟩
  · exact ⟨hheap, hvs⟩

/-- A law that holds at a point holds at the entry of the method that is called there. -/
theorem fits_of_callee? (hm : law.Admits m) (hq : p.callee? m = some q)
    (hp : law.contract.Fits p.routine p.frame p.world) :
    law.contract.Fits q.routine q.frame q.world := by
  obtain ⟨fuel, callee, receiver, args, f, w, -, heffect, hfirst⟩ :=
    Point.callee?_eq_some_iff.1 hq
  obtain ⟨d, next, -, hperform, rfl⟩ := Point.effect?_eq_some_iff.1 heffect
  obtain ⟨c, code, hc, hcode, hlen, rfl⟩ := Machine.firstPoint?_eq_some_iff.1 hfirst
  obtain ⟨hheap, hf⟩ := hp
  -- the values that are passed on are the frame's
  have hflow := (perform_ensures (law.plain _) (hf.at next) hheap).ok hperform
  cases hflow with
  | call _ hgiven _ =>
    have hgiven' : law.contract.Given (receiver.toList ++ args)
        (m.worldOfCall receiver (Machine.noteFetch d p.frame p.world)) :=
      given_worldOfCall hm hheap hgiven
    exact ((sound hm).enter hgiven' hc hcode hlen).2

/-- **A law holds at every point of a run** if it holds where the run starts. -/
theorem fits_of_visits (hm : law.Admits m) (h : p.Visits m q)
    (hp : law.contract.Fits p.routine p.frame p.world) :
    law.contract.Fits q.routine q.frame q.world := by
  induction h with
  | here => exact hp
  | next _ hq ih => exact ((sound hm).next? hq ih).2
  | enter _ hq ih => exact fits_of_callee? hm hq ih

def isSet : ValueLaw where
  Holds _ v := v ≠ .unset
  plain _ := ⟨by simp, by simp, by simp⟩
  made _ := by simp
  mono _ hv := hv

end ValueLaw

/-- No host method of the table makes the mark up: given only values that are set, it returns none
    or one that is set. -/
def NativeTable.SparesUnset (t : NativeTable) : Prop :=
  ∀ key f args, t.get? key = some f → .unset ∉ args → f args ≠ .ok (some .unset)

theorem ValueLaw.isSet_admits {m : Machine} (hm : m.natives.SparesUnset) : isSet.Admits m where
  result hf hargs hv := by
    rintro rfl
    exact hm _ _ _ hf (fun hmem => hargs _ hmem rfl) hv
  missed {key f args id} _ _ := ⟨id, Nat.le_refl id, fun h => nomatch h⟩
  isolated _ _ _ hv := hv

/-! ## Local slots -/

/-- Every local slot that is set in one frame is set in the other. -/
def Frame.Retains (f g : Frame) : Prop :=
  ∀ (slot : Nat) (v : Value), f.locals[slot]? = some v → v ≠ .unset →
    ∃ u, g.locals[slot]? = some u ∧ u ≠ .unset

theorem Frame.Retains.trans {f g h : Frame} (hfg : f.Retains g) (hgh : g.Retains h) :
    f.Retains h := by
  intro slot v hv hset
  obtain ⟨u, hu, huset⟩ := hfg slot v hv hset
  exact hgh slot u hu huset

/-- Carrying out an instruction keeps set what is set, if the operands are. -/
theorem Moves.retains {r : Routine} {offset : Nat} {i : Instruction} {f g : Frame}
    (h : Moves r offset i f g) (hstack : .unset ∉ f.stack) : f.Retains g := by
  intro slot v hv hset
  rcases h.locals with heq | ⟨written, u, hu, heq⟩
  · exact ⟨v, heq ▸ hv, hset⟩
  · have huset : u ≠ .unset := by
      rintro rfl
      rcases hu with hmem | ⟨n, hn⟩
      · exact hstack hmem
      · cases hn
    rw [heq]
    by_cases hslot : written = slot
    · subst hslot
      have hlt : written < f.locals.length := (List.getElem?_eq_some_iff.1 hv).1
      exact ⟨u, List.getElem?_set_self hlt, huset⟩
    · exact ⟨v, (List.getElem?_set_ne hslot).trans hv, hset⟩

namespace Point

variable {m : Machine} {p q : Point}

theorem retains_of_next? (hq : p.next? m = some q) (hstack : .unset ∉ p.frame.stack) :
    p.frame.Retains q.frame := by
  obtain ⟨fuel, f, w, -, hstep, rfl⟩ := next?_eq_some_iff.1 hq
  obtain ⟨d, next, g, result, -, hmoves, rfl⟩ := Machine.step_moves hstep
  have hretains : p.frame.Retains g := hmoves.retains hstack
  cases result with
  | none => exact hretains
  | some v => exact hretains

/-- At a point that a run visits no operand is `unset`, no field is, and no local slot of its frame
    that is set there is `unset` at a later point of the frame. -/
structure Clean (m : Machine) (p : Point) : Prop where
  stack : .unset ∉ p.frame.stack
  heap : p.world.heap.Each (· ≠ .unset)
  locals : ∀ n q, p.after? m n = some q → p.frame.Retains q.frame

theorem retains_of_after? (hm : m.natives.SparesUnset)
    (hp : ValueLaw.isSet.contract.Fits p.routine p.frame p.world) {n : Nat}
    (hq : p.after? m n = some q) : p.frame.Retains q.frame := by
  induction n generalizing q with
  | zero =>
    obtain rfl := Option.some.inj hq
    exact fun slot v hv hset => ⟨v, hv, hset⟩
  | succ n ih =>
    obtain ⟨q', hq', hnext⟩ := Option.bind_eq_some_iff.1 hq
    have hfits := ValueLaw.fits_of_visits (ValueLaw.isSet_admits hm) (visits_of_after? hq') hp
    exact (ih hq').trans (retains_of_next? hnext fun hmem => hfits.2.stack _ hmem rfl)

theorem clean_of_fits (hm : m.natives.SparesUnset)
    (hp : ValueLaw.isSet.contract.Fits p.routine p.frame p.world) : p.Clean m where
  stack hmem := hp.2.stack _ hmem rfl
  heap := hp.1
  locals _ _ hq := retains_of_after? hm hp hq

end Point

/-! ## Runs -/

/-- **The mark of unset slots never escapes.**  If a method is given no `unset`, on a heap without
    it, and the host methods do not make it up, then whatever the code, no host method is passed
    `unset`, it is not returned, and it is in no field however the run ends; and every point of the
    run is clean of it. -/
theorem Machine.invoke_never_unset (m : Machine) (hnatives : m.natives.SparesUnset) (fuel : Nat)
    (className method : String) (receiver : Option Value) (args : List Value) (w : World)
    (hheap : w.heap.Each (· ≠ .unset)) (hgiven : .unset ∉ receiver.toList ++ args) :
    let out := m.invoke fuel className method receiver args w
    (∃ es, out.2.history = es ++ w.history ∧ ∀ key vs, .called key vs ∈ es → .unset ∉ vs) ∧
      out.1 ≠ .ok (some .unset) ∧ out.2.heap.Each (· ≠ .unset) ∧
      ∀ start p, m.firstPoint? fuel className method (receiver.toList ++ args) w = some start →
        start.Visits m p → p.Clean m := by
  have hadmits := ValueLaw.isSet_admits hnatives
  have hset : ValueLaw.isSet.contract.Given (receiver.toList ++ args) w :=
    ⟨hheap, fun v hv heq => hgiven (heq ▸ hv)⟩
  obtain ⟨hevolves, hgood⟩ := (ValueLaw.sound hadmits).invoke fuel className method hset
  refine ⟨?_, fun h => hgood.value _ h rfl, hgood.heap, fun start p hstart hvisits => ?_⟩
  · obtain ⟨es, hes, hvalues⟩ := hevolves.events
    exact ⟨es, hes, fun key vs hcalled hmem => hvalues _ hcalled _ hmem rfl⟩
  · obtain ⟨c, code, hc, hcode, hlen, rfl⟩ := firstPoint?_eq_some_iff.1 hstart
    have hfits := ((ValueLaw.sound hadmits).enter hset hc hcode hlen).2
    exact Point.clean_of_fits hnatives (ValueLaw.fits_of_visits hadmits hvisits hfits)

/-- A method that keeps what a host method returns in a local slot of its own, and links a new
    object to it. -/
def Machine.linking : Machine :=
  let cls := (Assembly.build "L" [.member .field "L" "next" "LL;",
    .member .field "L" "host" "LL;", .member .method "L" "pass" "(LL;)LL;",
    .member .method "L" "link" "(LL;)LL;",
    .method ⟨9⟩ "link" "(LL;)LL;" ⟨3, 2, [0xb2, 0, 11, 0x2a, 0xb6, 0, 15, 0x4c, 0xbb, 0, 2, 0x59,
      0x2b, 0xb5, 0, 8, 0xb0]⟩,
    .method ⟨9⟩ "main" "(LL;)LL;" ⟨1, 2, [0x2a, 0xb8, 0, 18, 0x4c, 0x2b, 0xb0]⟩]).2
  ⟨⟨[("L", cls)]⟩, NativeTable.empty.register ⟨"L", "host", "pass"⟩ Native.first, .isolateStatic⟩

/-- The method starts with a slot that is not set, calls a host method and writes a field. -/
theorem Machine.invoke_never_unset_link :
    let w : World := ⟨⟨#[⟨"L", [("next", .obj 0)]⟩]⟩, []⟩
    let out := linking.invoke 20 "L" "main" none [.obj 0] w
    (∃ start ∈ linking.firstPoint? 20 "L" "main" [.obj 0] w, .unset ∈ start.frame.locals) ∧
      out.1.toOption = some (some (.obj 0)) ∧
      .called ⟨"L", "host", "pass"⟩ [.obj 0] ∈ out.2.history ∧
      (∃ es, out.2.history = es ++ w.history ∧ ∀ key vs, .called key vs ∈ es → .unset ∉ vs) ∧
      out.1 ≠ .ok (some .unset) ∧ out.2.heap.Each (· ≠ .unset) ∧
      ∀ start p, linking.firstPoint? 20 "L" "main" [.obj 0] w = some start →
        start.Visits linking p → p.Clean linking := by
  intro w
  have hnatives : linking.natives.SparesUnset := by
    intro key f args hf hargs
    rw [linking, NativeTable.get?_register] at hf
    split at hf
    · obtain rfl := Option.some.inj hf
      exact fun h => hargs (List.mem_of_mem_head? (Except.ok.inj h))
    · cases hf
  have hheap : w.heap.Each (· ≠ .unset) := Heap.each_of_fields (by decide)
  exact ⟨by decide +kernel, by decide +kernel, by decide +kernel,
    linking.invoke_never_unset hnatives 20 "L" "main" none [.obj 0] w hheap (by decide)⟩

end Bytecode
