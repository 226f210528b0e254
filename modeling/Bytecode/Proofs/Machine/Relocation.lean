/-
  Code within longer code.

  Branches are relative and nothing else depends on where code stands.  So a routine that returns
  does the same with other octets before it and behind it, if it is entered where its own octets
  start: all its frames are further on by as many octets as stand before it, and there is no
  difference otherwise, neither in the heap nor in the calls of host methods.  Only a routine that
  fails can tell the difference, by the offsets in its errors and by what it runs or branches into
  at its ends.

  * `fetch_within`, `Frame.jump_within`: instructions and targets are found at the new places.
-/
import Bytecode.ClassFile.Assembly
import Bytecode.Proofs.Machine.Fuel
import Bytecode.Proofs.Machine.Paths

namespace Bytecode

/-- The frame that is so many octets further on. -/
def Frame.shift (k : Nat) (f : Frame) : Frame :=
  { f with pc := f.pc + k }

def Effect.shift (k : Nat) : Effect → Effect
  | .advance f => .advance (f.shift k)
  | .branch f => .branch (f.shift k)
  | .update f heap => .update (f.shift k) heap
  | .finish result => .finish result
  | .native key args f => .native key args (f.shift k)
  | .skip callee f => .skip callee (f.shift k)
  | .call callee receiver args f => .call callee receiver args (f.shift k)

/-- The routine with other octets before its code and behind it. -/
def Routine.within (front back : Octets) (r : Routine) : Routine :=
  ⟨r.pool, front ++ r.code ++ back⟩

section
variable (front back : Octets)

/-! ## Instructions -/

theorem fetch_within {code : Octets} {pc next : Nat} {d : Decoded}
    (h : fetch code pc = .ok (d, next)) :
    fetch (front ++ code ++ back) (pc + front.length) =
      .ok ({ d with start := pc + front.length }, next + front.length) := by
  obtain ⟨op, hop, hwhole, rfl, rfl⟩ := fetch_eq_ok_iff.1 h
  have htag : (front ++ code ++ back)[pc + front.length]? = code[pc]? := by
    rw [List.append_assoc, List.getElem?_append_right (Nat.le_add_left _ _), Nat.add_sub_cancel,
      List.getElem?_append_left (by omega)]
  have hbehind : (front ++ code ++ back).drop (pc + front.length + 1) =
      code.drop (pc + 1) ++ back := by
    rw [Nat.add_right_comm, Nat.add_comm, List.append_assoc, ← List.drop_drop, List.drop_left,
      List.drop_append_of_le_length (by omega)]
  refine fetch_eq_ok_iff.2 ⟨op, ?_, ?_, ?_, by omega⟩
  · rw [Opcode.at?, htag]
    exact hop
  · simp only [List.length_append]
    omega
  · rw [hbehind, List.take_append_of_le_length]
    rw [List.length_drop]
    omega

namespace Frame

variable {k : Nat} {offset offset' : Nat} (f : Frame)

theorem pop_shift : (f.pop offset).Yields (Prod.map id (shift k)) ((f.shift k).pop offset') := by
  obtain ⟨pc, stack, locals⟩ := f
  cases stack with
  | nil => exact .error _ _
  | cons v rest => exact .ok rfl

theorem popInt_shift :
    (f.popInt offset).Yields (Prod.map id (shift k)) ((f.shift k).popInt offset') := by
  refine f.pop_shift.bind ?_
  rintro ⟨v, g⟩
  exact (Except.Yields.refl v.asInt).bind fun n => .ok rfl

theorem popObject_shift :
    (f.popObject offset).Yields (Prod.map id (shift k)) ((f.shift k).popObject offset') := by
  refine f.pop_shift.bind ?_
  rintro ⟨v, g⟩
  exact (Except.Yields.refl v.asObject).bind fun id => .ok rfl

theorem popArgs_shift (descriptor : String) :
    (f.popArgs offset descriptor).Yields (Prod.map id (shift k))
      ((f.shift k).popArgs offset' descriptor) := by
  refine (Except.Yields.refl (RunError.ofFormat (Descriptor.argCount descriptor))).bind fun n => ?_
  by_cases h : f.stack.length < n
  · rw [if_pos h]
    exact .error _ _
  · have h' : ¬ (f.shift k).stack.length < id n := h
    rw [if_neg h, if_neg h']
    exact .ok rfl

theorem store_shift (slot : Nat) (v : Value) :
    (f.store slot v).Yields (shift k) ((f.shift k).store slot v) := by
  unfold store
  split
  · next h =>
    have h' : slot < (f.shift k).locals.length := h
    rw [if_pos h']
    exact .ok rfl
  · exact .error _ _

/-- A branch leads to the same place of the code. -/
theorem jump_within (code : Octets) (offset : Nat) (distance : Int16) :
    (f.jump code offset distance).Yields (shift front.length)
      ((f.shift front.length).jump (front ++ code ++ back) (offset + front.length) distance) := by
  unfold jump
  dsimp only
  split
  · exact .error _ _
  · next hinside =>
    have hinside' : ¬ (((offset + front.length : Nat) : Int) + distance.toInt < 0 ∨
        ((front ++ code ++ back).length : Int) ≤
          (offset + front.length : Nat) + distance.toInt) := by
      simp only [List.length_append]
      omega
    rw [if_neg hinside']
    refine .ok ?_
    simp only [shift, Frame.mk.injEq, and_true]
    omega

end Frame

theorem branchIf_within (r : Routine) (offset : Nat) (distance : Int16) (f : Frame) (c : Prop)
    [Decidable c] :
    Except.Yields (Effect.shift front.length)
      (if c then .branch <$> f.jump r.code offset distance else return .advance f)
      (if c then .branch <$> (f.shift front.length).jump (r.within front back).code
          (offset + front.length) distance
        else return .advance (f.shift front.length)) := by
  split
  · exact (f.jump_within front back r.code offset distance).map fun g => rfl
  · exact .ok rfl

/-- **An instruction that does not fail does the same within other code.** -/
theorem perform_within (r : Routine) (heap : Heap) (offset : Nat) (i : Instruction) (f : Frame) :
    (perform r heap offset i f).Yields (Effect.shift front.length)
      (perform (r.within front back) heap (offset + front.length) i (f.shift front.length)) := by
  have hfield := fun index : UInt16 => Except.Yields.refl
    (RunError.ofFormat (r.pool.memberRef index.toNat (.member .field)))
  have hmethod := fun index : UInt16 => Except.Yields.refl
    (RunError.ofFormat (r.pool.memberRef index.toNat (.member .method)))
  have hload := fun slot : UInt8 => Except.Yields.refl (f.load slot.toNat)
  cases i with
  | nop | constInt n | pushByte n | pushShort n | returnVoid => exact .ok rfl
  | loadConstant index =>
    exact (Except.Yields.refl (r.pool.loadable index.toNat)).bind fun v => .ok rfl
  | loadInt slot =>
    exact (hload slot).bind fun v => (Except.Yields.refl v.asInt).bind fun n => .ok rfl
  | loadRef slot => exact (hload slot).bind fun v => .ok rfl
  | storeInt slot =>
    refine f.popInt_shift.bind ?_
    rintro ⟨n, g⟩
    exact (g.store_shift _ _).map fun _ => rfl
  | storeRef slot =>
    refine f.pop_shift.bind ?_
    rintro ⟨v, g⟩
    exact (g.store_shift _ _).map fun _ => rfl
  | pop | returnRef | dup =>
    refine f.pop_shift.bind ?_
    rintro ⟨v, g⟩
    exact .ok rfl
  | addInt | subInt =>
    refine f.popInt_shift.bind ?_
    rintro ⟨b, g⟩
    refine g.popInt_shift.bind ?_
    rintro ⟨a, g⟩
    exact .ok rfl
  | incInt slot delta =>
    refine (hload slot).bind fun v => (Except.Yields.refl v.asInt).bind fun n => ?_
    exact (f.store_shift _ _).map fun _ => rfl
  | ifNotZero distance =>
    refine f.popInt_shift.bind ?_
    rintro ⟨n, g⟩
    exact branchIf_within front back r offset distance g _
  | ifNotEqualInt distance | ifGreaterEqualInt distance =>
    refine f.popInt_shift.bind ?_
    rintro ⟨b, g⟩
    refine g.popInt_shift.bind ?_
    rintro ⟨a, g⟩
    exact branchIf_within front back r offset distance g _
  | goto distance => exact (f.jump_within front back r.code offset distance).map fun _ => rfl
  | returnInt =>
    refine f.popInt_shift.bind ?_
    rintro ⟨n, g⟩
    exact .ok rfl
  | getStatic index => exact (hfield index).bind fun ref => .ok rfl
  | getField index =>
    refine (hfield index).bind fun ref => f.popObject_shift.bind ?_
    rintro ⟨id, g⟩
    exact (Except.Yields.refl (heap.getField id ref.name)).bind fun v => .ok rfl
  | putField index =>
    refine (hfield index).bind fun ref => f.pop_shift.bind ?_
    rintro ⟨v, g⟩
    refine g.popObject_shift.bind ?_
    rintro ⟨id, g⟩
    exact (Except.Yields.refl (heap.putField id ref.name v)).map fun _ => rfl
  | invokeVirtual index =>
    refine (hmethod index).bind fun ref => (f.popArgs_shift _).bind ?_
    rintro ⟨args, g⟩
    refine g.pop_shift.bind ?_
    rintro ⟨receiver, g⟩
    exact (Except.Yields.refl receiver.asStaticMember).bind fun host => .ok rfl
  | invokeSpecial index =>
    refine (hmethod index).bind fun ref => (f.popArgs_shift _).bind ?_
    rintro ⟨args, g⟩
    refine g.pop_shift.bind ?_
    rintro ⟨receiver, g⟩
    refine (Except.Yields.refl receiver.asObject).bind fun _ => ?_
    by_cases hroot : ref.isRootConstructor = true
    · have hroot' : (id ref).isRootConstructor = true := hroot
      rw [if_pos hroot, if_pos hroot']
      exact .ok rfl
    · have hroot' : ¬ (id ref).isRootConstructor = true := hroot
      rw [if_neg hroot, if_neg hroot']
      exact .ok rfl
  | invokeStatic index =>
    refine (hmethod index).bind fun ref => (f.popArgs_shift _).bind ?_
    rintro ⟨args, g⟩
    exact .ok rfl
  | new index =>
    exact (Except.Yields.refl (RunError.ofFormat (r.pool.className index.toNat))).bind
      fun name => .ok rfl

end

/-! ## Runs -/

def Progress.shift (k : Nat) : Progress → Progress
  | .going f => .going (f.shift k)
  | .done result => .done result
  | .stopped why => .stopped why

/-- What an instruction leaves in one of two worlds that are alike, and what it leaves in the other,
    in a frame that is so many octets further on. -/
structure Progress.Shifts (k : Nat) (here there : Progress × World) : Prop where
  progress : there.1 = here.1.shift k
  world : here.2.Alike there.2

namespace World.Alike

variable {w w' : World}

theorem symm (h : w.Alike w') : w'.Alike w :=
  ⟨h.heap.symm, h.calls.symm⟩

theorem note_same (h : w.Alike w') (e : Event) : (w.note e).Alike (w'.note e) :=
  ⟨h.heap, by rw [calls_note, calls_note, h.calls]⟩

end World.Alike

namespace Machine

variable {m : Machine} {k fuel : Nat} {w w' : World}

theorem resume_shifts (f : Frame) {out out' : Result × World} (hresult : out'.1 = out.1)
    (hworld : out.2.Alike out'.2) :
    Progress.Shifts k (resume f out) (resume (f.shift k) out') := by
  obtain ⟨result, u⟩ := out
  obtain ⟨result', u'⟩ := out'
  dsimp only at hresult
  subst hresult
  cases result' with
  | error why => exact ⟨rfl, hworld⟩
  | ok result =>
    cases result with
    | none => exact ⟨rfl, hworld⟩
    | some v => exact ⟨rfl, hworld⟩

theorem callNative_alike (m : Machine) (key : NativeKey) (args : List Value) (h : w.Alike w') :
    (m.callNative key args w').1 = (m.callNative key args w).1 ∧
      (m.callNative key args w).2.Alike (m.callNative key args w').2 := by
  unfold callNative
  cases m.natives.get? key with
  | none => exact ⟨rfl, h.note_same _⟩
  | some f => exact ⟨rfl, (h.note_same _).note_same _⟩

theorem callOnHeap_alike (m : Machine) (fuel : Nat) (callee : MemberRef) (receiver : Option Value)
    (args : List Value) (h : w.Alike w') :
    (m.callOnHeap (m.caller fuel) callee receiver args w').1 =
        (m.callOnHeap (m.caller fuel) callee receiver args w).1 ∧
      (m.callOnHeap (m.caller fuel) callee receiver args w).2.Alike
        (m.callOnHeap (m.caller fuel) callee receiver args w').2 := by
  obtain ⟨hresult, hworld⟩ := m.invoke_alike fuel callee.className callee.name receiver args
    (h.worldOfCall m receiver)
  simp only [callOnHeap_eq]
  exact ⟨hresult, h.worldAfterCall hworld m receiver⟩

theorem settle_shifts (effect : Effect) (h : w.Alike w') :
    Progress.Shifts k (m.settle (m.caller fuel) effect w)
      (m.settle (m.caller fuel) (effect.shift k) w') := by
  cases effect with
  | advance f => exact ⟨rfl, h⟩
  | branch f =>
    refine ⟨rfl, ?_⟩
    have hjumped : w.Alike (w'.note (.jumped (f.shift k).pc)) := h.note rfl
    exact ((World.Alike.refl w).note (e := .jumped f.pc) rfl).symm.trans hjumped
  | update f heap => exact ⟨rfl, rfl, h.calls⟩
  | finish result => exact ⟨rfl, h⟩
  | native key args f =>
    obtain ⟨hresult, hworld⟩ := m.callNative_alike key args h
    exact resume_shifts f hresult hworld
  | skip callee f => exact ⟨rfl, h.note_same _⟩
  | call callee receiver args f =>
    obtain ⟨hresult, hworld⟩ := m.callOnHeap_alike fuel callee receiver args h
    exact resume_shifts f hresult hworld

/-- **A step that does not fail is taken within other code too.** -/
theorem step_within (front back : Octets) {r : Routine} {f : Frame}
    (hgoes : ∀ why u, m.step (m.caller fuel) r f w ≠ (.stopped why, u)) (h : w.Alike w') :
    Progress.Shifts front.length (m.step (m.caller fuel) r f w)
      (m.step (m.caller fuel) (r.within front back) (f.shift front.length) w') := by
  cases hfetch : fetch r.code f.pc with
  | error e => exact absurd (by simp only [step, hfetch]) (hgoes (.error e) w)
  | ok decoded =>
    obtain ⟨d, next⟩ := decoded
    cases hperform : perform r w.heap d.start d.instruction { f with pc := next } with
    | error e => exact absurd (step_of_fault hfetch hperform) (hgoes _ _)
    | ok effect =>
      have hfetch' : fetch (r.within front back).code (f.shift front.length).pc = _ :=
        fetch_within front back hfetch
      have hperform' := perform_within front back r w.heap d.start d.instruction
        { f with pc := next } effect hperform
      rw [← h.heap, start_of_fetch hfetch] at hperform'
      rw [step_of_effect hfetch hperform, step_of_effect hfetch' hperform']
      exact settle_shifts effect
        ((World.Alike.noteFetch _ _ w).symm.trans (h.trans (.noteFetch _ _ w')))

/-- **A run that returns does so within other code too**, with the same result; what it leaves is
    alike. -/
theorem run_within (front back : Octets) {r : Routine} {f : Frame} {result : Option Value}
    {u : World} (hrun : m.run fuel r f w = (.ok result, u)) (h : w.Alike w') :
    ∃ u', m.run fuel (r.within front back) (f.shift front.length) w' = (.ok result, u') ∧
      u.Alike u' := by
  induction fuel generalizing f w w' with
  | zero => cases hrun
  | succ fuel ih =>
    have hhere := Point.run_of_fuel (m := m) (p := ⟨fuel + 1, r, f, w⟩) rfl
    have hthere := Point.run_of_fuel (m := m)
      (p := ⟨fuel + 1, r.within front back, f.shift front.length, w'⟩) rfl
    unfold Point.run at hhere hthere
    dsimp only at hhere hthere
    rw [hhere] at hrun
    rw [hthere]
    -- a step that stops would stop the run
    have hgoes : ∀ why v, m.step (m.caller fuel) r f w ≠ (.stopped why, v) := by
      intro why v hstep
      rw [hstep] at hrun
      cases hrun
    obtain ⟨hprogress, hworld⟩ := step_within front back hgoes h
    generalize m.step (m.caller fuel) (r.within front back) _ w' = there at hprogress hworld ⊢
    generalize m.step (m.caller fuel) r f w = here at hrun hgoes hprogress hworld
    obtain ⟨progress, v⟩ := here
    obtain ⟨progress', v'⟩ := there
    dsimp only at hprogress hworld
    subst hprogress
    cases progress with
    | going g => exact ih hrun hworld
    | done result' =>
      obtain ⟨hresult, rfl⟩ := Prod.mk.inj hrun
      obtain rfl := Except.ok.inj hresult
      exact ⟨v', rfl, hworld⟩
    | stopped why => exact absurd rfl (hgoes why v)

end Machine

def nops (k : Nat) : Octets :=
  List.replicate k 0x00

theorem Routine.path_nops {r : Routine} {rest : Octets} (stack locals : List Value) (k : Nat)
    {pc : Nat} (hcode : r.code.drop pc = nops k ++ rest) :
    ∃ fs, fs.length = k ∧ r.Path ⟨pc, stack, locals⟩ fs ⟨pc + k, stack, locals⟩ := by
  induction k generalizing pc with
  | zero => exact ⟨[], rfl, .here _⟩
  | succ k ih =>
    have hdecodes : Decodes r.code pc .nop (pc + 1) :=
      decodes_of_drop ⟨0x00, "nop", .fixed .nop⟩ [] rfl hcode rfl
    obtain ⟨fs, hfs, hpath⟩ := ih (drop_add_length_of_drop [0x00] hcode)
    refine ⟨_ :: fs, by rw [List.length_cons, hfs], .step (steps_nop hdecodes) ?_⟩
    rw [List.length_singleton, Nat.add_assoc, Nat.add_comm 1 k] at hpath
    exact hpath

namespace Machine

/-- **Code does not depend on where it stands.**  If code returns, then it returns the same with any
    number of `nop` before it and any octets behind it; it leaves the same heap, and the same host
    methods are called with the same arguments in the same order.  The fuel that is needed more is
    that for the instructions before the code. -/
theorem execute_relocated (m : Machine) (fuel : Nat) (className : String) (code : Octets)
    (locals : List Value) (w : World) (result : Option Value)
    (h : (m.execute fuel className code locals w).1 = .ok result) (k : Nat) (back : Octets)
    (more : Nat) (hmore : fuel + k ≤ more) :
    let here := m.execute fuel className code locals w
    let there := m.execute more className (nops k ++ code ++ back) locals w
    there.1 = .ok result ∧ there.2.heap = here.2.heap ∧ there.2.calls = here.2.calls := by
  dsimp only
  cases hc : m.classes.get className with
  | error e =>
    simp only [execute, hc, reduceCtorEq] at h
  | ok c =>
    have hhere : m.execute fuel className code locals w =
        m.run fuel ⟨c.pool, code⟩ (.start locals) w := by simp only [execute, hc]
    obtain ⟨u, hrun⟩ : ∃ u, m.run fuel ⟨c.pool, code⟩ (.start locals) w = (.ok result, u) :=
      ⟨_, Prod.ext (hhere ▸ h) rfl⟩
    -- the instructions before the code come first, then the run is that of the code
    have hfront : (Routine.within (nops k) back ⟨c.pool, code⟩).code.drop 0 =
        nops k ++ (code ++ back) := List.append_assoc _ _ _
    obtain ⟨fs, hfs, hpath⟩ := Routine.path_nops [] locals k hfront
    obtain ⟨w', halike, -, hnops⟩ := hpath.run m fuel w
    obtain ⟨u', hrun', halike'⟩ := run_within (nops k) back hrun halike
    rw [hfs] at hnops
    rw [nops, List.length_replicate] at hrun'
    have hthere : m.execute (fuel + k) className (nops k ++ code ++ back) locals w =
        (.ok result, u') := by
      simp only [execute, hc]
      exact hnops.trans hrun'
    have hends : (m.execute (fuel + k) className (nops k ++ code ++ back) locals
        w).1 ≠ .error .outOfFuel := by
      rw [hthere]
      intro hstop
      cases hstop
    rw [execute_of_le hends hmore, hthere, hhere, hrun]
    exact ⟨rfl, halike'.heap, halike'.calls⟩

def showing : Machine :=
  let cls := (Assembly.build "A" [.member .field "A" "host" "LA;",
    .member .method "A" "show" "(I)V"]).2
  ⟨⟨[("A", cls)]⟩, NativeTable.empty.register ⟨"A", "host", "show"⟩ Native.silent, .isolateStatic⟩

/-- Counts down from two to zero; makes an object and shows the number each time. -/
def countdown : Octets :=
  [ 0x05, 0x3b,
    -- 2: the loop
    0xbb, 0, 2, 0x57, 0xb2, 0, 8, 0x1a, 0xb6, 0, 12, 0x84, 0, 0xff, 0x1a, 0x9a, 0xff, 0xf1,
    -- 20: behind it
    0x1a, 0xac]

def junk : Octets := [0xff, 0x12]

/-- A loop with a branch backwards, with other octets before it and behind it: it makes its two
    objects and shows its two numbers there too. -/
theorem execute_relocated_countdown :
    (let here := showing.execute 20 "A" countdown [.unset] .start;
      here.1.toOption = some (some (.int 0)) ∧ here.2.heap.size = 2 ∧
        here.2.calls.map Prod.snd = [[.int 2], [.int 1]]) ∧
    let here := showing.execute 20 "A" countdown [.unset] .start
    let there := showing.execute 23 "A" (nops 3 ++ countdown ++ junk) [.unset] .start
    there.1 = .ok (some (.int 0)) ∧ there.2.heap = here.2.heap ∧
      there.2.calls = here.2.calls := by
  have h : (showing.execute 20 "A" countdown [.unset] .start).1 = .ok (some (.int 0)) :=
    Except.toOption_eq_some_iff.1 (by decide +kernel)
  exact ⟨by decide +kernel, showing.execute_relocated 20 "A" countdown [.unset] .start
    (some (.int 0)) h 3 junk 23 (by decide)⟩

end Machine

end Bytecode
