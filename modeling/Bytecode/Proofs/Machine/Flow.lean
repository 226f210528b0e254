/-
  Where the values that an instruction handles come from, and why it can fail.

  An instruction makes numbers, texts and static fields, and `new` makes the next object of the
  heap; all other values it takes from its frame or from a field of an object.  So a property that
  the former have, that every value of the frame has and every value on the heap, is a property of
  every value that is pushed, stored, written, passed on or returned.

  * `Flow P`: the effects in which every value has the property `P`;
  * `perform_ensures`: an instruction fails with a `Fault`, or has an effect that is a `Flow`.
-/
import Bytecode.Machine.Effect
import Bytecode.Proofs.Machine.Heap

namespace Bytecode

def Instruction.distance? : Instruction → Option Int16
  | .ifNotZero distance | .ifNotEqualInt distance | .ifGreaterEqualInt distance
  | .goto distance => some distance
  | _ => none

/-- How many operands an instruction takes, and how many values it puts in their place.  Those of a
    call depend on the method. -/
def Instruction.operands? : Instruction → Option (Nat × Nat)
  | .nop | .incInt _ _ | .goto _ | .returnVoid => some (0, 0)
  | .constInt _ | .pushByte _ | .pushShort _ | .loadConstant _ | .loadInt _ | .loadRef _
  | .getStatic _ | .new _ => some (0, 1)
  | .storeInt _ | .storeRef _ | .pop | .ifNotZero _ | .returnInt | .returnRef => some (1, 0)
  | .getField _ => some (1, 1)
  | .dup => some (1, 2)
  | .ifNotEqualInt _ | .ifGreaterEqualInt _ | .putField _ => some (2, 0)
  | .addInt | .subInt => some (2, 1)
  | .invokeVirtual _ | .invokeSpecial _ | .invokeStatic _ => none

/-- Whether an instruction can take more than `n` operands. -/
def Instruction.exceeds (n : Nat) (i : Instruction) : Bool :=
  i.operands?.all (n < ·.1)

/-- What an instruction can ask of the pool or of a descriptor is refused for this cause. -/
inductive Pool.Refuses (pool : Pool) (cause : FormatError) : Prop
  | get {index : Nat} (h : pool.get index = .error cause)
  | string {index : Nat} (h : pool.string index = .error cause)
  | className {index : Nat} (h : pool.className index = .error cause)
  | memberRef {index : Nat} {kind : ConstantKind} (h : pool.memberRef index kind = .error cause)
  | argCount {descriptor : String} (h : Descriptor.argCount descriptor = .error cause)

/-- A property that the values have which an instruction makes without an object. -/
structure Value.Plain (P : Value → Prop) : Prop where
  int : ∀ n, P (.int n)
  str : ∀ text, P (.str text)
  staticMember : ∀ ref, P (.staticMember ref)

/-- The errors of the instruction `i` at `offset`, in the frame `f` of the routine `r`. -/
inductive Fault (r : Routine) (heap : Heap) (offset : Nat) (i : Instruction) (f : Frame) :
    RunError → Prop
  | format {cause : FormatError} (h : r.pool.Refuses cause) :
      Fault r heap offset i f (.format cause)
  | constant (index : Nat) (kind : ConstantKind) :
      Fault r heap offset i f (.invalidConstant index kind)
  | underflow (h : i.exceeds f.stack.length) : Fault r heap offset i f (.stackUnderflow offset)
  | mismatch (expected : ValueKind) (found : Value) :
      Fault r heap offset i f (.typeMismatch expected found)
  | unset {slot : Nat} (h : slot < f.locals.length) : Fault r heap offset i f (.unsetLocal slot)
  | slot {slot : Nat} (h : f.locals.length ≤ slot) :
      Fault r heap offset i f (.localOutOfRange slot f.locals.length)
  /-- The object of an operand is not on the heap. -/
  | missing {id : Nat} (h : .obj id ∈ f.stack) (h' : heap.size ≤ id) :
      Fault r heap offset i f (.noSuchObject id)
  | field (id : Nat) (name : String) : Fault r heap offset i f (.fieldNotSet id name)
  | branch {distance : Int16} (h : i.distance? = some distance)
      (h' : (offset : Int) + distance.toInt < 0 ∨ (r.code.length : Int) ≤ offset + distance.toInt) :
      Fault r heap offset i f (.branchOutOfBounds offset (offset + distance.toInt))

namespace Frame

/-- Every operand has the property `P`, and so has every local slot that is set. -/
structure Each (P : Value → Prop) (f : Frame) : Prop where
  stack : ∀ v ∈ f.stack, P v
  locals : ∀ v ∈ f.locals, v ≠ .unset → P v

def pushAll (f : Frame) (vs : List Value) : Frame :=
  { f with stack := vs.reverse ++ f.stack }

variable {P Q : Value → Prop} {f : Frame} {v : Value}

theorem Each.imp (hf : f.Each P) (hPQ : ∀ v, P v → Q v) : f.Each Q :=
  ⟨fun v hv => hPQ v (hf.stack v hv), fun v hv hset => hPQ v (hf.locals v hv hset)⟩

theorem each_push : (f.push v).Each P ↔ P v ∧ f.Each P := by
  constructor
  · intro h
    exact ⟨h.stack v List.mem_cons_self,
      fun u hu => h.stack u (List.mem_cons_of_mem _ hu), h.locals⟩
  · rintro ⟨hv, hstack, hlocals⟩
    exact ⟨List.forall_mem_cons.2 ⟨hv, hstack⟩, hlocals⟩

theorem each_pushAll {vs : List Value} : (f.pushAll vs).Each P ↔ (∀ v ∈ vs, P v) ∧ f.Each P := by
  constructor
  · intro h
    exact ⟨fun v hv => h.stack v (List.mem_append_left _ (List.mem_reverse.2 hv)),
      fun v hv => h.stack v (List.mem_append_right _ hv), h.locals⟩
  · rintro ⟨hvs, hstack, hlocals⟩
    refine ⟨fun v hv => ?_, hlocals⟩
    rcases List.mem_append.1 hv with hv | hv
    · exact hvs v (List.mem_reverse.1 hv)
    · exact hstack v hv

theorem Each.pushResult (hf : f.Each P) {result : Option Value} (h : ∀ v, result = some v → P v) :
    (f.pushResult result).Each P := by
  cases result with
  | none => exact hf
  | some v => exact each_push.2 ⟨h v rfl, hf⟩

theorem Each.at (hf : f.Each P) (pc : Nat) : { f with pc }.Each P := ⟨hf.stack, hf.locals⟩

theorem Each.setLocal (hf : f.Each P) (hv : P v) (slot : Nat) :
    { f with locals := f.locals.set slot v }.Each P := by
  refine ⟨hf.stack, fun u hu hset => ?_⟩
  rcases List.mem_or_eq_of_mem_set hu with hu | rfl
  · exact hf.locals u hu hset
  · exact hv

end Frame

/-- The effects in which every value has the property `P`, on a heap where it is read or written;
    an object is made with the next number, whatever the property. -/
inductive Flow (P : Value → Prop) (heap : Heap) : Effect → Prop
  | advance {f : Frame} (hf : f.Each P) : Flow P heap (.advance f)
  | branch {f : Frame} (hf : f.Each P) : Flow P heap (.branch f)
  | write {f : Frame} {id : Nat} {name : String} {v : Value} {heap' : Heap} (hf : f.Each P)
      (hv : P v) (h : heap.putField id name v = .ok heap') : Flow P heap (.update f heap')
  | make {f : Frame} (className : String) (hf : f.Each P) :
      Flow P heap (.update (f.push (.obj heap.size)) (heap.alloc className).2)
  | finish {result : Option Value} (h : ∀ v, result = some v → P v) : Flow P heap (.finish result)
  | native (key : NativeKey) {args : List Value} {f : Frame} (hargs : ∀ v ∈ args, P v)
      (hf : f.Each P) : Flow P heap (.native key args f)
  | skip (callee : MemberRef) {f : Frame} (hf : f.Each P) : Flow P heap (.skip callee f)
  | call (callee : MemberRef) {receiver : Option Value} {args : List Value} {f : Frame}
      (hgiven : ∀ v ∈ receiver.toList ++ args, P v) (hf : f.Each P) :
      Flow P heap (.call callee receiver args f)

theorem fetch_error {code : Octets} {pc : Nat} {e : RunError} (h : fetch code pc = .error e) :
    e = .codeOverrun pc ∨ ∃ opcode, e = .unsupportedOpcode opcode pc := by
  unfold fetch at h
  dsimp only at h
  split at h
  · exact Or.inl (Except.error.inj h).symm
  · split at h
    · cases h
    · exact Or.inr ⟨_, (Except.error.inj h).symm⟩
    · exact Or.inl (Except.error.inj h).symm

/-! ## The steps of an instruction

`f` is the frame that the instruction starts in, `g` one that it has reached, after it has popped
the operands `vs`. -/

section
variable {r : Routine} {heap : Heap} {offset : Nat} {i : Instruction} {f : Frame} (g : Frame)

theorem ofFormat_ensures {α : Type} {x : Except FormatError α}
    (h : ∀ cause, x = .error cause → r.pool.Refuses cause) :
    (RunError.ofFormat x).Ensures (Fault r heap offset i f) fun _ => True := by
  cases x with
  | error cause => exact .format (h cause rfl)
  | ok a => trivial

theorem asInt_ensures (v : Value) : v.asInt.Ensures (Fault r heap offset i f) (v = .int ·) := by
  cases v with
  | int n => rfl
  | _ => exact .mismatch _ _

theorem asObject_ensures (v : Value) :
    v.asObject.Ensures (Fault r heap offset i f) (v = .obj ·) := by
  cases v with
  | obj id => rfl
  | _ => exact .mismatch _ _

theorem asStaticMember_ensures (v : Value) :
    v.asStaticMember.Ensures (Fault r heap offset i f) (v = .staticMember ·) := by
  cases v with
  | staticMember ref => rfl
  | _ => exact .mismatch _ _

theorem loadable_ensures {P : Value → Prop} (hP : Value.Plain P) (index : Nat) :
    (r.pool.loadable index).Ensures (Fault r heap offset i f) P := by
  refine (ofFormat_ensures fun _ => .get).bind fun c _ => ?_
  cases c with
  | string _ => exact (ofFormat_ensures fun _ => .string).map fun text _ => hP.str text
  | integer n => exact hP.int n
  | _ => exact .constant _ _

theorem pop_ensures (vs : List Value) (hvs : f.stack = vs ++ g.stack) (hi : i.exceeds vs.length) :
    (g.pop offset).Ensures (Fault r heap offset i f) fun p => g = p.2.push p.1 := by
  obtain ⟨pc, stack, locals⟩ := g
  cases stack with
  | nil =>
    rw [List.append_nil] at hvs
    exact .underflow (hvs ▸ hi)
  | cons v rest => rfl

theorem popInt_ensures (vs : List Value) (hvs : f.stack = vs ++ g.stack)
    (hi : i.exceeds vs.length) :
    (g.popInt offset).Ensures (Fault r heap offset i f) fun p => g = p.2.push (.int p.1) := by
  refine (pop_ensures g vs hvs hi).bind ?_
  rintro ⟨v, g'⟩ rfl
  refine (asInt_ensures v).bind ?_
  rintro n rfl
  rfl

theorem popObject_ensures (vs : List Value) (hvs : f.stack = vs ++ g.stack)
    (hi : i.exceeds vs.length) :
    (g.popObject offset).Ensures (Fault r heap offset i f) fun p => g = p.2.push (.obj p.1) := by
  refine (pop_ensures g vs hvs hi).bind ?_
  rintro ⟨v, g'⟩ rfl
  refine (asObject_ensures v).bind ?_
  rintro id rfl
  rfl

theorem popArgs_ensures (hi : i.operands? = none) (descriptor : String) :
    (g.popArgs offset descriptor).Ensures (Fault r heap offset i f)
      fun p => g = p.2.pushAll p.1 := by
  refine (ofFormat_ensures fun _ => .argCount).bind fun n _ => ?_
  split
  · exact .underflow (by rw [Instruction.exceeds, hi]; rfl)
  · show g = Frame.pushAll _ _
    rw [Frame.pushAll, List.reverse_reverse, List.take_append_drop]

theorem load_ensures {P : Value → Prop} (hf : f.Each P) (slot : Nat) :
    (f.load slot).Ensures (Fault r heap offset i f) P := by
  unfold Frame.load
  split
  · next h => exact .unset (List.getElem?_eq_some_iff.1 h).1
  · next v hne h => exact hf.locals v (List.mem_of_getElem? h) hne
  · next h => exact .slot (List.getElem?_eq_none_iff.1 h)

theorem store_ensures {P : Value → Prop} {v : Value} (hlocals : g.locals = f.locals)
    (hg : g.Each P) (hv : P v) (slot : Nat) :
    (g.store slot v).Ensures (Fault r heap offset i f) (Frame.Each P) := by
  unfold Frame.store
  split
  · exact hg.setLocal hv slot
  · next h =>
    rw [hlocals] at h ⊢
    exact .slot (Nat.le_of_not_lt h)

theorem jump_ensures {P : Value → Prop} {distance : Int16} (hi : i.distance? = some distance)
    (hg : g.Each P) :
    (g.jump r.code offset distance).Ensures (Fault r heap offset i f) (Frame.Each P) := by
  unfold Frame.jump
  dsimp only
  split
  · next h => exact .branch hi h
  · exact hg.at _

theorem getField_ensures {P : Value → Prop} (hheap : heap.Each P) {id : Nat}
    (hid : .obj id ∈ f.stack) (name : String) :
    (heap.getField id name).Ensures (Fault r heap offset i f) P := by
  refine .intro (fun e he => ?_) fun v hv => hheap.getField hv
  obtain ⟨rfl, hsize⟩ | rfl := Heap.getField_error he
  · exact .missing hid hsize
  · exact .field id name

theorem putField_ensures {id : Nat} (hid : .obj id ∈ f.stack) (name : String) (v : Value) :
    (heap.putField id name v).Ensures (Fault r heap offset i f)
      fun heap' => heap.putField id name v = .ok heap' := by
  refine .intro (fun e he => ?_) fun heap' h => h
  obtain ⟨rfl, hsize⟩ := Heap.putField_error he
  exact .missing hid hsize

theorem branchIf_ensures {P : Value → Prop} (hg : g.Each P) {distance : Int16}
    (hi : i.distance? = some distance) (c : Prop) [Decidable c] :
    (if c then .branch <$> g.jump r.code offset distance else return .advance g).Ensures
      (Fault r heap offset i f) (Flow P heap) := by
  split
  · exact (jump_ensures g hi hg).map fun _ hg' => .branch hg'
  · exact .advance hg

/-- Taken or not, a branch has no other effect. -/
theorem branchIf_eq_ok {x : Except RunError Frame} {c : Prop} [Decidable c] {effect : Effect}
    (h : (if c then .branch <$> x else return .advance f) = .ok effect) :
    (∃ g, effect = .branch g) ∨ effect = .advance f := by
  split at h
  · obtain ⟨g, -, rfl⟩ := Except.map_eq_ok_iff.1 h
    exact .inl ⟨g, rfl⟩
  · exact .inr (Except.pure_eq_ok_iff.1 h).symm

/-- **Every value in the effect of an instruction has a property** that plain values have and that
    the values in its frame and on the heap have; and an instruction that fails does so with a
    `Fault`. -/
theorem perform_ensures {P : Value → Prop} (hP : Value.Plain P) (hf : f.Each P)
    (hheap : heap.Each P) :
    (perform r heap offset i f).Ensures (Fault r heap offset i f) (Flow P heap) := by
  cases i with
  | nop => exact .advance hf
  | constInt n | pushByte n | pushShort n =>
    exact .advance (Frame.each_push.2 ⟨hP.int _, hf⟩)
  | loadConstant index =>
    exact (loadable_ensures hP _).bind fun v hv => .advance (Frame.each_push.2 ⟨hv, hf⟩)
  | loadInt slot =>
    refine (load_ensures hf _).bind fun v _ => (asInt_ensures v).bind fun n _ => ?_
    exact .advance (Frame.each_push.2 ⟨hP.int n, hf⟩)
  | loadRef slot =>
    exact (load_ensures hf _).bind fun v hv => .advance (Frame.each_push.2 ⟨hv, hf⟩)
  | storeInt slot =>
    refine (popInt_ensures f [] rfl (by rfl)).bind ?_
    rintro ⟨n, g⟩ rfl
    obtain ⟨hn, hg⟩ := Frame.each_push.1 hf
    have hlocals : g.locals = (g.push (.int n)).locals := rfl
    exact (store_ensures g hlocals hg hn _).map fun _ hg' => .advance hg'
  | storeRef slot =>
    refine (pop_ensures f [] rfl (by rfl)).bind ?_
    rintro ⟨v, g⟩ rfl
    obtain ⟨hv, hg⟩ := Frame.each_push.1 hf
    have hlocals : g.locals = (g.push v).locals := rfl
    exact (store_ensures g hlocals hg hv _).map fun _ hg' => .advance hg'
  | pop =>
    refine (pop_ensures f [] rfl (by rfl)).bind ?_
    rintro ⟨v, g⟩ rfl
    exact .advance (Frame.each_push.1 hf).2
  | dup =>
    refine (pop_ensures f [] rfl (by rfl)).bind ?_
    rintro ⟨v, g⟩ rfl
    exact .advance (Frame.each_push.2 ⟨(Frame.each_push.1 hf).1, hf⟩)
  | addInt | subInt =>
    refine (popInt_ensures f [] rfl (by rfl)).bind ?_
    rintro ⟨b, g⟩ rfl
    refine (popInt_ensures g [_] rfl (by rfl)).bind ?_
    rintro ⟨a, g⟩ rfl
    have hg : g.Each P := (Frame.each_push.1 (Frame.each_push.1 hf).2).2
    exact .advance (Frame.each_push.2 ⟨hP.int _, hg⟩)
  | incInt slot delta =>
    refine (load_ensures hf _).bind fun v _ => (asInt_ensures v).bind fun n _ => ?_
    exact (store_ensures f rfl hf (hP.int _) _).map fun _ hg => .advance hg
  | ifNotZero distance =>
    refine (popInt_ensures f [] rfl (by rfl)).bind ?_
    rintro ⟨n, g⟩ rfl
    exact branchIf_ensures g (Frame.each_push.1 hf).2 rfl _
  | ifNotEqualInt distance | ifGreaterEqualInt distance =>
    refine (popInt_ensures f [] rfl (by rfl)).bind ?_
    rintro ⟨b, g⟩ rfl
    refine (popInt_ensures g [_] rfl (by rfl)).bind ?_
    rintro ⟨a, g⟩ rfl
    have hg : g.Each P := (Frame.each_push.1 (Frame.each_push.1 hf).2).2
    exact branchIf_ensures g hg rfl _
  | goto distance => exact (jump_ensures f rfl hf).map fun _ hg => .branch hg
  | returnInt =>
    refine (popInt_ensures f [] rfl (by rfl)).bind ?_
    rintro ⟨n, g⟩ rfl
    exact .finish fun v hv => Option.some.inj hv ▸ hP.int n
  | returnRef =>
    refine (pop_ensures f [] rfl (by rfl)).bind ?_
    rintro ⟨v, g⟩ rfl
    exact .finish fun v' hv' => Option.some.inj hv' ▸ (Frame.each_push.1 hf).1
  | returnVoid => exact .finish fun v hv => nomatch hv
  | getStatic index =>
    refine (ofFormat_ensures fun _ => .memberRef).bind fun ref _ => ?_
    exact .advance (Frame.each_push.2 ⟨hP.staticMember ref, hf⟩)
  | getField index =>
    refine (ofFormat_ensures fun _ => .memberRef).bind fun ref _ => ?_
    refine (popObject_ensures f [] rfl (by rfl)).bind ?_
    rintro ⟨id, g⟩ rfl
    refine (getField_ensures hheap List.mem_cons_self ref.name).bind fun v hv => ?_
    exact .advance (Frame.each_push.2 ⟨hv, (Frame.each_push.1 hf).2⟩)
  | putField index =>
    refine (ofFormat_ensures fun _ => .memberRef).bind fun ref _ => ?_
    refine (pop_ensures f [] rfl (by rfl)).bind ?_
    rintro ⟨v, g⟩ rfl
    refine (popObject_ensures g [_] rfl (by rfl)).bind ?_
    rintro ⟨id, g⟩ rfl
    obtain ⟨hv, hg⟩ := Frame.each_push.1 hf
    have hid : .obj id ∈ ((g.push (.obj id)).push v).stack :=
      List.mem_cons_of_mem _ List.mem_cons_self
    exact (putField_ensures hid ref.name v).map fun _ h => .write (Frame.each_push.1 hg).2 hv h
  | invokeVirtual index =>
    refine (ofFormat_ensures fun _ => .memberRef).bind fun ref _ => ?_
    refine (popArgs_ensures f rfl _).bind ?_
    rintro ⟨args, g⟩ rfl
    refine (pop_ensures g _ rfl (by rfl)).bind ?_
    rintro ⟨receiver, g⟩ rfl
    refine (asStaticMember_ensures receiver).bind fun host _ => ?_
    obtain ⟨hargs, hg⟩ := Frame.each_pushAll.1 hf
    exact .native _ hargs (Frame.each_push.1 hg).2
  | invokeSpecial index =>
    refine (ofFormat_ensures fun _ => .memberRef).bind fun ref _ => ?_
    refine (popArgs_ensures f rfl _).bind ?_
    rintro ⟨args, g⟩ rfl
    refine (pop_ensures g _ rfl (by rfl)).bind ?_
    rintro ⟨receiver, g⟩ rfl
    refine (asObject_ensures receiver).bind fun id _ => ?_
    obtain ⟨hargs, hg⟩ := Frame.each_pushAll.1 hf
    obtain ⟨hreceiver, hg⟩ := Frame.each_push.1 hg
    dsimp only
    split
    · exact .skip _ hg
    · exact .call _ (List.forall_mem_cons.2 ⟨hreceiver, hargs⟩) hg
  | invokeStatic index =>
    refine (ofFormat_ensures fun _ => .memberRef).bind fun ref _ => ?_
    refine (popArgs_ensures f rfl _).bind ?_
    rintro ⟨args, g⟩ rfl
    obtain ⟨hargs, hg⟩ := Frame.each_pushAll.1 hf
    exact .call _ hargs hg
  | new index =>
    refine (ofFormat_ensures fun _ => .className).bind fun name _ => ?_
    exact .make name hf

end

end Bytecode
