/-
  Methods that pass on what they are given.

  The code `forwardingCode` loads the local slots in order, calls a method with them, and returns
  the value that this returns.  A method with this code, and with just the slots for what it is
  given, ends as the one that it calls, as long as there is a value to return.

  * `Machine.run_returnRef`: what the return makes of the callee's result.
-/
import Bytecode.Proofs.Machine.Isolation
import Bytecode.Proofs.Machine.Paths

namespace Bytecode

/-- Loads a number of local slots, from `first` on. -/
def loadRefs (first count : Nat) : Octets :=
  (List.range' first count).flatMap fun slot => [0x19, UInt8.ofNat slot]

/-- Loads the local slots, calls the method at `key` by the instruction of a tag, and returns what
    this returns. -/
def forwardingCode (slots : Nat) (tag : UInt8) (key : Nat) : Octets :=
  loadRefs 0 slots ++ (tag :: (indexOctets key ++ [0xb0]))

/-- A method of a class in the table passes the values of its local slots on to another method,
    which it calls by the instruction of a tag. -/
def Machine.Forwards (m : Machine) (className method : String) (slots : Nat) (tag : UInt8)
    (callee : MemberRef) : Prop :=
  ∃ c maxStack key, m.classes.get className = .ok c ∧ key < 65536 ∧
    c.pool.memberRef key (.member .method) = .ok callee ∧
    m.classes.findCode className method = .ok ⟨maxStack, slots, forwardingCode slots tag key⟩

/-- How a method ends that returns the result of another one.  If there is no value to return, the
    return, which stands at `offset`, fails. -/
def Result.handedOn (offset : Nat) : Result → Result
  | .ok none => .error (.error (.stackUnderflow offset))
  | result => result

/-- One run hands on the outcome of another one, and leaves the given heap. -/
structure HandsOn (offset : Nat) (heap : Heap) (direct out : Result × World) : Prop where
  result : out.1 = Result.handedOn offset direct.1
  heap : out.2.heap = heap
  calls : out.2.calls = direct.2.calls

/-! ## The loads -/

theorem loadRefs_succ (first count : Nat) :
    loadRefs first (count + 1) = 0x19 :: UInt8.ofNat first :: loadRefs (first + 1) count := by
  simp only [loadRefs, List.range'_succ, List.flatMap_cons]
  rfl

theorem length_loadRefs (first count : Nat) : (loadRefs first count).length = 2 * count := by
  induction count generalizing first with
  | zero => rfl
  | succ count ih =>
    rw [loadRefs_succ, List.length_cons, List.length_cons, ih]
    omega

theorem drop_forwardingCode (slots : Nat) (tag : UInt8) (key : Nat) :
    (forwardingCode slots tag key).drop (2 * slots) = tag :: (indexOctets key ++ [0xb0]) := by
  rw [forwardingCode, ← length_loadRefs 0 slots, List.drop_left]

theorem decodes_return (slots : Nat) (tag : UInt8) (key : Nat) :
    Decodes (forwardingCode slots tag key) (2 * slots + 3) .returnRef (2 * slots + 4) := by
  have hcode : (forwardingCode slots tag key).drop (2 * slots + 3) = [0xb0] :=
    drop_add_length_of_drop (tag :: indexOctets key) (drop_forwardingCode slots tag key)
  exact decodes_of_drop ⟨0xb0, "areturn", .fixed .returnRef⟩ [] rfl hcode rfl

namespace Routine

variable {r : Routine} {locals : List Value}

/-- **The loads push the values of the slots, the last one on top.** -/
theorem path_loadRefs (stack : List Value) {rest : Octets} {pc first count : Nat}
    (hcode : r.code.drop pc = loadRefs first count ++ rest)
    (hcount : first + count = locals.length) (hsmall : locals.length ≤ 256)
    (hset : .unset ∉ locals) :
    ∃ fs, fs.length = count ∧
      r.Path ⟨pc, stack, locals⟩ fs
        ⟨pc + 2 * count, (locals.drop first).reverse ++ stack, locals⟩ := by
  induction count generalizing pc first stack with
  | zero =>
    have hdrop : locals.drop first = [] := List.drop_eq_nil_of_le (by omega)
    rw [hdrop]
    exact ⟨[], rfl, .here _⟩
  | succ count ih =>
    have hfirst : first < locals.length := by omega
    have hoctet : first < 256 := by omega
    have hslot : (UInt8.ofNat first).toNat = first := UInt8.toNat_ofNat_of_lt' hoctet
    rw [loadRefs_succ] at hcode
    have hdecodes : Decodes r.code pc (.loadRef (UInt8.ofNat first)) (pc + 2) := by
      have h := decodes_of_drop ⟨0x19, "aload", .unsigned8 .loadRef⟩ [UInt8.ofNat first] rfl hcode
        rfl
      rwa [Form.make, ofNat_decode_octet] at h
    have hload : r.Steps ⟨pc, stack, locals⟩ ⟨pc + 2, locals[first] :: stack, locals⟩ := by
      refine steps_loadRef hdecodes ?_ fun h => hset (h ▸ List.getElem_mem hfirst)
      rw [hslot]
      exact List.getElem?_eq_getElem hfirst
    have hcode' : r.code.drop (pc + 2) = loadRefs (first + 1) count ++ rest :=
      drop_add_length_of_drop [0x19, UInt8.ofNat first] hcode
    obtain ⟨fs, hfs, hpath⟩ := ih (locals[first] :: stack) hcode' (by omega)
    refine ⟨_ :: fs, by rw [List.length_cons, hfs], .step hload ?_⟩
    rw [List.drop_eq_getElem_cons hfirst, List.reverse_cons, List.append_assoc]
    have hpc : pc + 2 * (count + 1) = pc + 2 + 2 * count := by omega
    rw [hpc]
    exact hpath

end Routine

/-! ## The call and the return -/

theorem HandsOn.leave {offset : Nat} {heap : Heap} {direct out : Result × World}
    (h : HandsOn offset heap direct out) (className method : String) :
    HandsOn offset heap direct (Machine.leave className method out) := by
  obtain ⟨why | result, w⟩ := out
  · exact h
  · exact ⟨h.result, h.heap, (World.calls_note_of_none rfl).trans h.calls⟩

namespace Machine

variable {m : Machine} {className method : String} {receiver receiver' : Option Value}
  {args : List Value} {r : Routine} {w w' : World}

theorem invoke_zero_ne_ok (m : Machine) (className method : String) (receiver : Option Value)
    (args : List Value) (w : World) (result : Option Value) :
    (m.invoke 0 className method receiver args w).1 ≠ .ok result := by
  rcases m.invokeWith_cases (m.run 0) className method receiver args w with
    ⟨e, -, hrefused⟩ | ⟨c, code, -, -, -, hentered⟩
  · rw [invoke, hrefused]
    simp
  · rw [invoke, hentered]
    simp [run, leave]

theorem run_returnRef {pc next : Nat} {locals : List Value} (h : Decodes r.code pc .returnRef next)
    (result : Option Value) (m : Machine) (fuel : Nat) (w : World) :
    ∃ w', w.Alike w' ∧ m.run (fuel + 1) r (Frame.pushResult ⟨pc, [], locals⟩ result) w =
      (Result.handedOn pc (.ok result), w') := by
  cases result with
  | none => exact Routine.run_of_fault (f := ⟨pc, [], locals⟩) h rfl m fuel
  | some v =>
    obtain ⟨w', halike, -, hrun⟩ := (Routine.does_returnRef h).run m fuel w
    exact ⟨w', halike, hrun⟩

/-- A call that is followed by a return hands on the outcome of the callee. -/
theorem handsOn_run {f : Frame} {callee : MemberRef} {pc next : Nat} {locals : List Value}
    (hcall : r.Does f (.call callee receiver args ⟨pc, [], locals⟩))
    (hreturn : Decodes r.code pc .returnRef next) (m : Machine) (fuel : Nat) (h : w.Alike w') :
    let direct := m.invoke fuel callee.className callee.name receiver args
      (m.worldOfCall receiver w)
    HandsOn pc (m.worldAfterCall receiver w direct.2).heap direct (m.run (fuel + 1) r f w') := by
  intro direct
  obtain ⟨w₁, halike₁, hrun⟩ := hcall.run_call m fuel w'
  have halike := h.trans halike₁
  -- the call is made in the world `w₁`, but ends as it would in `w`
  obtain ⟨hresult, hworld⟩ := m.invoke_alike fuel callee.className callee.name receiver args
    (halike.worldOfCall m receiver)
  obtain ⟨result, u, hinvoke⟩ : ∃ result u, m.invoke fuel callee.className callee.name receiver
      args (m.worldOfCall receiver w₁) = (result, u) := ⟨_, _, rfl⟩
  rw [hinvoke] at hrun hresult hworld
  have hafter : (m.worldAfterCall receiver w direct.2).Alike (m.worldAfterCall receiver w₁ u) :=
    halike.worldAfterCall hworld m receiver
  obtain ⟨w₂, halike₂, hout⟩ : ∃ w₂, (m.worldAfterCall receiver w₁ u).Alike w₂ ∧
      m.run (fuel + 1) r f w' = (Result.handedOn pc result, w₂) := by
    rw [hrun]
    cases result with
    | error why => exact ⟨_, .refl _, rfl⟩
    | ok result =>
      cases fuel with
      | zero => exact absurd hresult.symm (m.invoke_zero_ne_ok _ _ _ _ _ result)
      | succ fuel => exact run_returnRef hreturn result m fuel _
  have hends := hafter.trans halike₂
  rw [hout]
  refine ⟨?_, hends.heap, ?_⟩
  · rw [← hresult]
  · rw [hends.calls, World.calls_worldAfterCall]

/-- A method that loads what it is given, calls another one and returns hands on the outcome of the
    callee. -/
theorem handsOn_invoke {slots key maxStack : Nat} {tag : UInt8} {callee : MemberRef}
    {given : List Value} {c : ClassFile} (hget : m.classes.get className = .ok c)
    (hcode : m.classes.findCode className method =
      .ok ⟨maxStack, slots, forwardingCode slots tag key⟩)
    {values : List Value} (hvalues : receiver'.toList ++ given = values)
    (hlen : values.length = slots) (hsmall : slots ≤ 256) (hset : .unset ∉ values)
    (hcall : (⟨c.pool, forwardingCode slots tag key⟩ : Routine).Does
      ⟨2 * slots, values.reverse, values⟩
      (.call callee receiver args ⟨2 * slots + 3, [], values⟩))
    (fuel : Nat) (w : World) :
    let direct := m.invoke fuel callee.className callee.name receiver args
      (m.worldOfCall receiver w)
    HandsOn (2 * slots + 3) (m.worldAfterCall receiver w direct.2).heap direct
      (m.invoke (fuel + slots + 1) className method receiver' given w) := by
  intro direct
  have hentered : m.invoke (fuel + slots + 1) className method receiver' given w =
      leave className method (m.run (fuel + slots + 1) ⟨c.pool, forwardingCode slots tag key⟩
        (.start values) (w.note (.entered className method))) := by
    have hfits : (receiver'.toList ++ given).length ≤ slots := by
      rw [hvalues]
      exact Nat.le_of_eq hlen
    rw [invoke_of_findCode hget hcode hfits]
    simp only [Code.entry, hvalues, hlen, Nat.sub_self, List.replicate_zero, List.append_nil]
  have hloads : (forwardingCode slots tag key).drop 0 =
      loadRefs 0 slots ++ (tag :: (indexOctets key ++ [0xb0])) := rfl
  obtain ⟨fs, hfs, hpath⟩ := Routine.path_loadRefs (r := ⟨c.pool, forwardingCode slots tag key⟩) []
    hloads ((Nat.zero_add slots).trans hlen.symm) (hlen ▸ hsmall) hset
  rw [List.drop_zero, List.append_nil, Nat.zero_add] at hpath
  obtain ⟨w₁, halike, -, hrun⟩ := hpath.run m (fuel + 1) (w.note (.entered className method))
  rw [hfs, Nat.add_right_comm] at hrun
  rw [hentered, Frame.start, hrun]
  exact (handsOn_run hcall (decodes_return slots tag key) m fuel
    (((World.Alike.refl w).note rfl).trans halike)).leave className method

/-- A method that forwards a static call hands on its outcome. -/
theorem Forwards.handsOn_static {callee : MemberRef}
    (h : m.Forwards className method args.length 0xb8 callee)
    (hcount : Descriptor.argCount callee.descriptor = .ok args.length)
    (hsmall : args.length ≤ 255) (hset : .unset ∉ args) {given : List Value}
    (hgiven : receiver.toList ++ given = args) (fuel : Nat) (w : World) :
    let direct := m.invoke fuel callee.className callee.name none args (m.worldOfCall none w)
    HandsOn (2 * args.length + 3) (m.worldAfterCall none w direct.2).heap direct
      (m.invoke (fuel + args.length + 1) className method receiver given w) := by
  obtain ⟨c, maxStack, key, hget, hkey, hcallee, hcode⟩ := h
  rw [← toNat_decode_indexOctets hkey] at hcallee
  have hdecodes : Decodes (forwardingCode args.length 0xb8 key) (2 * args.length)
      (.invokeStatic _) (2 * args.length + 3) :=
    decodes_of_drop ⟨0xb8, "invokestatic", .unsigned16 .invokeStatic⟩ (indexOctets key) rfl
      (drop_forwardingCode _ _ _) rfl
  have hcall : (⟨c.pool, forwardingCode args.length 0xb8 key⟩ : Routine).Does
      ⟨2 * args.length, args.reverse ++ [], args⟩
      (.call callee none args ⟨2 * args.length + 3, [], args⟩) :=
    Routine.does_invokeStatic hdecodes hcallee hcount
  rw [List.append_nil] at hcall
  exact handsOn_invoke hget hcode hgiven rfl (by omega) hset hcall fuel w

/-- A method that forwards a call with a receiver hands on its outcome. -/
theorem Forwards.handsOn_special {callee : MemberRef} {id : Nat}
    (h : m.Forwards className method (args.length + 1) 0xb7 callee)
    (hroot : callee.isRootConstructor = false)
    (hcount : Descriptor.argCount callee.descriptor = .ok args.length)
    (hsmall : args.length ≤ 254) (hset : .unset ∉ args) {given : List Value}
    (hgiven : receiver.toList ++ given = .obj id :: args) (fuel : Nat) (w : World) :
    let direct := m.invoke fuel callee.className callee.name (some (.obj id)) args
      (m.worldOfCall (some (.obj id)) w)
    HandsOn (2 * (args.length + 1) + 3) (m.worldAfterCall (some (.obj id)) w direct.2).heap direct
      (m.invoke (fuel + args.length + 2) className method receiver given w) := by
  obtain ⟨c, maxStack, key, hget, hkey, hcallee, hcode⟩ := h
  rw [← toNat_decode_indexOctets hkey] at hcallee
  have hdecodes : Decodes (forwardingCode (args.length + 1) 0xb7 key) (2 * (args.length + 1))
      (.invokeSpecial _) (2 * (args.length + 1) + 3) :=
    decodes_of_drop ⟨0xb7, "invokespecial", .unsigned16 .invokeSpecial⟩ (indexOctets key) rfl
      (drop_forwardingCode _ _ _) rfl
  have hcall : (⟨c.pool, forwardingCode (args.length + 1) 0xb7 key⟩ : Routine).Does
      ⟨2 * (args.length + 1), args.reverse ++ [.obj id], .obj id :: args⟩
      (.call callee (some (.obj id)) args ⟨2 * (args.length + 1) + 3, [], .obj id :: args⟩) :=
    Routine.does_invokeSpecial hdecodes hcallee hcount hroot
  rw [← List.reverse_cons] at hcall
  have hset' : .unset ∉ Value.obj id :: args := by simpa using hset
  exact handsOn_invoke hget hcode hgiven rfl (by omega) hset' hcall fuel w

/-- **A call passes on the values that were pushed, in order.**  A method that loads what it is
    given, calls `callee` with it and returns ends as a direct call of `callee` ends, with the same
    calls of host methods, except that it fails at its return if `callee` returns no value.  A
    static call runs on the caller's heap, or, under `isolateStatic`, on an empty one, and then the
    caller's heap is as before; a call with a receiver always runs on the caller's heap. -/
theorem invoke_forwarding (m : Machine) (className method : String) (callee : MemberRef)
    (args : List Value) (hcount : Descriptor.argCount callee.descriptor = .ok args.length)
    (hset : .unset ∉ args) (fuel : Nat) (w : World) :
    (args.length ≤ 255 → m.Forwards className method args.length 0xb8 callee →
      ∀ receiver given, receiver.toList ++ given = args →
        let out := m.invoke (fuel + args.length + 1) className method receiver given w
        let direct := m.invoke fuel callee.className callee.name none args
        (m.policy = .shared → HandsOn (2 * args.length + 3) (direct w).2.heap (direct w) out) ∧
          (m.policy = .isolateStatic →
            HandsOn (2 * args.length + 3) w.heap (direct { w with heap := .empty }) out)) ∧
      (args.length ≤ 254 → m.Forwards className method (args.length + 1) 0xb7 callee →
        callee.isRootConstructor = false →
        ∀ id receiver given, receiver.toList ++ given = .obj id :: args →
          let out := m.invoke (fuel + args.length + 2) className method receiver given w
          let direct := m.invoke fuel callee.className callee.name (some (.obj id)) args w
          HandsOn (2 * (args.length + 1) + 3) direct.2.heap direct out) := by
  constructor
  · intro hsmall hforwards receiver given hgiven
    have hends := hforwards.handsOn_static hcount hsmall hset hgiven fuel w
    constructor
    · intro hpolicy
      simpa only [World.worldOfCall_eq_self (.inl hpolicy),
        World.worldAfterCall_eq_self (.inl hpolicy)] using hends
    · intro hpolicy
      simpa only [worldOfCall_isolated hpolicy, worldAfterCall_isolated hpolicy] using hends
  · intro hsmall hforwards hroot id receiver given hgiven
    have hends := hforwards.handsOn_special hroot hcount hsmall hset hgiven fuel w
    have hsome : m.policy = .shared ∨ some (Value.obj id) ≠ none := .inr (by simp)
    simpa only [World.worldOfCall_eq_self hsome, World.worldAfterCall_eq_self hsome] using hends

/-- A class `W` whose methods pass on what they are given, to a method of a class `C` that subtracts
    and to one that sets a field of its receiver. -/
def handing : Machine :=
  let w := (Assembly.build "W"
    [.member .method "C" "sub" "(II)I", .member .method "C" "set" "(I)V",
      .method ⟨0x0009⟩ "sub" "(II)I" ⟨2, 2, forwardingCode 2 0xb8 10⟩,
      .method ⟨0x0009⟩ "set" "(LC;I)V" ⟨2, 2, forwardingCode 2 0xb7 14⟩]).2
  let c := (Assembly.build "C"
    [.member .field "C" "x" "I",
      .method ⟨0x0009⟩ "sub" "(II)I" ⟨2, 2, [0x1a, 0x1b, 0x64, 0xac]⟩,
      .method ⟨0x0001⟩ "set" "(I)V" ⟨2, 2, [0x2a, 0x1b, 0xb5, 0, 8, 0xb1]⟩]).2
  ⟨⟨[("W", w), ("C", c)]⟩, .empty, .isolateStatic⟩

theorem handing_forwards_sub : handing.Forwards "W" "sub" 2 0xb8 ⟨"C", "sub", "(II)I"⟩ :=
  ⟨_, 2, 10, rfl, by decide, Except.toOption_eq_some_iff.1 (by decide +kernel),
    Except.toOption_eq_some_iff.1 (by decide +kernel)⟩

theorem handing_forwards_set : handing.Forwards "W" "set" 2 0xb7 ⟨"C", "set", "(I)V"⟩ :=
  ⟨_, 2, 14, rfl, by decide, Except.toOption_eq_some_iff.1 (by decide +kernel),
    Except.toOption_eq_some_iff.1 (by decide +kernel)⟩

/-- The static call runs on an empty heap and hands on a difference.  The other call sets a field,
    but has no value to hand on. -/
theorem invoke_forwarding_handing :
    let w : World := ⟨(Heap.empty.alloc "C").2, []⟩
    let sub := handing.invoke 9 "C" "sub" none [.int 10, .int 3] { w with heap := .empty }
    let set := handing.invoke 9 "C" "set" (some (.obj 0)) [.int 5] w
    sub.1.toOption = some (some (.int 7)) ∧ set.1.toOption = some none ∧
      HandsOn 7 w.heap sub (handing.invoke 12 "W" "sub" none [.int 10, .int 3] w) ∧
      HandsOn 7 set.2.heap set (handing.invoke 12 "W" "set" none [.obj 0, .int 5] w) := by
  have hsub : Descriptor.argCount "(II)I" = .ok 2 := by
    simp [Descriptor.argCount, Descriptor.countFrom, Descriptor.isPrimitive]
  have hset : Descriptor.argCount "(I)V" = .ok 1 := by
    simp [Descriptor.argCount, Descriptor.countFrom, Descriptor.isPrimitive]
  intro w
  have hstatic := (invoke_forwarding handing "W" "sub" ⟨"C", "sub", "(II)I"⟩ [.int 10, .int 3] hsub
    (by simp) 9 w).1 (by decide) handing_forwards_sub none [.int 10, .int 3] rfl
  have hspecial := (invoke_forwarding handing "W" "set" ⟨"C", "set", "(I)V"⟩ [.int 5] hset
    (by simp) 9 w).2 (by decide) handing_forwards_set (by decide) 0 none [.obj 0, .int 5] rfl
  refine ⟨by decide +kernel, by decide +kernel, hstatic.2 rfl, ?_⟩
  simpa only [List.length_singleton] using hspecial

end Machine

end Bytecode
