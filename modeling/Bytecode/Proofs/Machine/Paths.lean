/-
  Paths of a frame through its code.

  Most instructions do the same whatever the heap is.  `Routine.Does` tells the effect of such an
  instruction; if this is to go on in the same frame, the instruction is a step of a
  `Routine.Path`.  A path is a matter of the code alone: there is neither a world nor fuel in it.

  * `Decodes`: which instruction stands at an offset; `EachInstruction`: what all of them are like;
  * `Routine.steps_constInt` and so on: what the instructions do, one rule for each;
  * `Path.run_finish`, `Does.run_call`: how a run goes on at the end of a path, if the method
    returns there or calls another one.
-/
import Bytecode.ClassFile.Encode
import Bytecode.Proofs.Code.Decoding
import Bytecode.Proofs.Machine.Moves
import Bytecode.Proofs.Machine.Worlds

namespace Bytecode

/-! ## Instructions in code -/

/-- The instruction `i` stands at an offset of the code, and the next one at `next`. -/
def Decodes (code : Octets) (pc : Nat) (i : Instruction) (next : Nat) : Prop :=
  ∃ tag mnemonic, fetch code pc = .ok (⟨pc, tag, mnemonic, i⟩, next)

/-- A branch at `pc` over this distance leads to `target`, which lies within the code. -/
def LeadsTo (code : Octets) (pc : Nat) (distance : Int16) (target : Nat) : Prop :=
  (pc : Int) + distance.toInt = target ∧ target < code.length

instance (code : Octets) (pc : Nat) (distance : Int16) (target : Nat) :
    Decidable (LeadsTo code pc distance target) :=
  instDecidableAnd

instance (code : Octets) (pc : Nat) (distance : Int16) (P : Nat → Prop) [DecidablePred P] :
    Decidable (∀ target, LeadsTo code pc distance target → P target) :=
  decidable_of_iff (∀ target < code.length, LeadsTo code pc distance target → P target)
    ⟨fun h target hleads => h target hleads.2 hleads, fun h target _ => h target⟩

/-- An instruction has at most one distance, so there is no need to go through all of them. -/
instance (i : Instruction) (P : Int16 → Prop) [DecidablePred P] :
    Decidable (∀ distance ∈ i.distance?, P distance) :=
  Option.decidableForallMem i.distance?

theorem start_of_fetch {code : Octets} {pc next : Nat} {d : Decoded}
    (h : fetch code pc = .ok (d, next)) : d.start = pc := by
  obtain ⟨op, -, -, rfl, -⟩ := fetch_eq_ok_iff.1 h
  rfl

theorem decodes_of_fetch {code : Octets} {pc next : Nat} {d : Decoded}
    (h : fetch code pc = .ok (d, next)) : Decodes code pc d.instruction next := by
  obtain ⟨op, -, -, rfl, -⟩ := fetch_eq_ok_iff.1 h
  exact ⟨_, _, h⟩

theorem Decodes.lt_next {code : Octets} {pc next : Nat} {i : Instruction}
    (h : Decodes code pc i next) : pc < next ∧ next ≤ code.length := by
  obtain ⟨tag, mnemonic, hfetch⟩ := h
  obtain ⟨op, -, hwhole, -, rfl⟩ := fetch_eq_ok_iff.1 hfetch
  omega

/-- Every instruction that can be decoded from the code, at whatever offset, is as `P` says. -/
def EachInstruction (code : Octets) (P : Nat → Instruction → Nat → Prop) : Prop :=
  ∀ pc i next, Decodes code pc i next → P pc i next

theorem eachInstruction_iff {code : Octets} {P : Nat → Instruction → Nat → Prop} :
    EachInstruction code P ↔
      ∀ pc < code.length, ∀ x ∈ (fetch code pc).toOption, P pc x.1.instruction x.2 := by
  constructor
  · intro h pc _ x hx
    exact h pc _ _ (decodes_of_fetch (Except.toOption_eq_some_iff.1 hx))
  · rintro h pc i next hdecodes
    obtain ⟨hlt, hle⟩ := hdecodes.lt_next
    obtain ⟨tag, mnemonic, hfetch⟩ := hdecodes
    exact h pc (Nat.lt_of_lt_of_le hlt hle) _ (Except.toOption_eq_some_iff.2 hfetch)

instance (code : Octets) (P : Nat → Instruction → Nat → Prop)
    [∀ pc i next, Decidable (P pc i next)] : Decidable (EachInstruction code P) :=
  decidable_of_iff _ eachInstruction_iff.symm

theorem decodes_of_drop {code rest : Octets} {pc : Nat} (op : Opcode) (operands : Octets)
    (hop : Opcode.ofTag? op.tag = some op)
    (hcode : code.drop pc = op.tag :: (operands ++ rest))
    (hwidth : operands.length = op.form.width) :
    Decodes code pc (op.form.make operands) (pc + 1 + operands.length) := by
  have hlong : ¬ (operands ++ rest).length < op.form.width := by
    rw [List.length_append]
    omega
  refine ⟨op.tag, op.mnemonic, ?_⟩
  rw [fetch_eq, hcode]
  simp only [hop, if_neg hlong]
  rw [← hwidth, List.take_left]

theorem drop_add_length_of_drop {code rest : Octets} {pc : Nat} (before : Octets)
    (h : code.drop pc = before ++ rest) : code.drop (pc + before.length) = rest := by
  rw [← List.drop_drop, h, List.drop_left]

theorem toNat_decode_indexOctets {key : Nat} (h : key < 65536) :
    (UInt16.ofNat (BigEndian.decode (indexOctets key))).toNat = key := by
  have hdecode : BigEndian.decode (indexOctets key) = key % 65536 := BigEndian.decode_encode 2 key
  rw [hdecode, Nat.mod_eq_of_lt h]
  exact UInt16.toNat_ofNat_of_lt' h

theorem ofNat_decode_octet (b : UInt8) : UInt8.ofNat (BigEndian.decode [b]) = b := by
  have hdecode : BigEndian.decode [b] = b.toNat := by simp [BigEndian.decode]
  rw [hdecode, UInt8.ofNat_toNat]

theorem Frame.jump_of_leadsTo {code : Octets} {pc target : Nat} {distance : Int16}
    (h : LeadsTo code pc distance target) (f : Frame) :
    f.jump code pc distance = .ok { f with pc := target } := by
  obtain ⟨htarget, hlt⟩ := h
  have hinside : ¬ ((target : Int) < 0 ∨ (code.length : Int) ≤ target) := by omega
  simp only [Frame.jump, htarget, if_neg hinside, Int.toNat_natCast]

theorem Frame.leadsTo_of_jump {code : Octets} {pc : Nat} {distance : Int16} {f g : Frame}
    (h : f.jump code pc distance = .ok g) : LeadsTo code pc distance g.pc := by
  unfold Frame.jump at h
  dsimp only at h
  split at h
  · cases h
  · next hinside =>
    obtain rfl := Except.ok.inj h
    rw [not_or, Int.not_lt, Int.not_le] at hinside
    obtain ⟨hnonneg, hlt⟩ := hinside
    have htarget := Int.toNat_of_nonneg hnonneg
    refine ⟨htarget.symm, ?_⟩
    show ((pc : Int) + distance.toInt).toNat < code.length
    omega

/-! ## Where a method goes on -/

/-- Whether a method can go on behind the instruction. -/
def Instruction.fallsThrough : Instruction → Bool
  | .goto _ | .returnInt | .returnRef | .returnVoid => false
  | _ => true

/-- After the instruction `i` at `pc`, behind which stands the one at `next`, a method with this
    code can go on at `target`. -/
def Instruction.GoesTo (code : Octets) (pc next : Nat) (i : Instruction) (target : Nat) : Prop :=
  (i.fallsThrough = true ∧ target = next) ∨
    ∃ distance ∈ i.distance?, LeadsTo code pc distance target

theorem Instruction.forall_goesTo {code : Octets} {pc next : Nat} {i : Instruction}
    {P : Nat → Prop} :
    (∀ target, i.GoesTo code pc next target → P target) ↔
      (i.fallsThrough = true → P next) ∧
        ∀ distance ∈ i.distance?, ∀ target, LeadsTo code pc distance target → P target := by
  constructor
  · intro h
    refine ⟨fun hfalls => h next (.inl ⟨hfalls, rfl⟩), ?_⟩
    exact fun distance hdistance target hleads => h target (.inr ⟨distance, hdistance, hleads⟩)
  · rintro ⟨hfalls, hbranch⟩ target (⟨hi, rfl⟩ | ⟨distance, hdistance, hleads⟩)
    · exact hfalls hi
    · exact hbranch distance hdistance target hleads

instance (code : Octets) (pc next : Nat) (i : Instruction) (P : Nat → Prop) [DecidablePred P] :
    Decidable (∀ target, i.GoesTo code pc next target → P target) :=
  decidable_of_iff _ Instruction.forall_goesTo.symm

/-- **Control flow is a matter of the code alone**: an instruction goes on behind itself or at the
    target of a branch, as the code says. -/
theorem perform_goesTo {r : Routine} {heap : Heap} {offset : Nat} {i : Instruction} {f g : Frame}
    {effect : Effect} (h : perform r heap offset i f = .ok effect)
    (hg : effect.frame? = some g) : i.GoesTo r.code offset f.pc g.pc := by
  rcases (perform_moves.ok h g hg).pc with hnext | ⟨distance, hdistance, htarget, hlt⟩
  · cases i with
    | goto distance =>
      obtain ⟨g', hjump, rfl⟩ := Except.map_eq_ok_iff.1 h
      obtain rfl := Option.some.inj hg
      exact .inr ⟨distance, rfl, Frame.leadsTo_of_jump hjump⟩
    | returnInt | returnRef =>
      obtain ⟨_, -, hreturn⟩ := Except.bind_eq_ok_iff.1 h
      obtain rfl := Except.pure_eq_ok_iff.1 hreturn
      cases hg
    | returnVoid =>
      obtain rfl := Except.pure_eq_ok_iff.1 h
      cases hg
    | _ => exact .inl ⟨rfl, hnext⟩
  · exact .inr ⟨distance, hdistance, htarget.symm, hlt⟩

theorem Machine.step_goesTo {m : Machine} {call : Caller} {r : Routine} {f f' : Frame}
    {w w' : World} (h : m.step call r f w = (.going f', w')) :
    ∃ i next, Decodes r.code f.pc i next ∧ i.GoesTo r.code f.pc next f'.pc := by
  obtain ⟨d, next, effect, g, result, hfetch, hperform, hg, rfl⟩ := step_going h
  rw [start_of_fetch hfetch] at hperform
  refine ⟨d.instruction, next, decodes_of_fetch hfetch, ?_⟩
  rw [Frame.pc_pushResult]
  exact perform_goesTo hperform hg

namespace Routine

/-! ## What instructions do -/

/-- The instruction at a frame has this effect, whatever the heap is. -/
def Does (r : Routine) (f : Frame) (effect : Effect) : Prop :=
  ∃ d next, fetch r.code f.pc = .ok (d, next) ∧
    ∀ heap, perform r heap d.start d.instruction { f with pc := next } = .ok effect

/-- The instruction at the frame `f` leads to the frame `f'` of the same method. -/
inductive Steps (r : Routine) (f f' : Frame) : Prop
  | advance (h : r.Does f (.advance f'))
  | branch (h : r.Does f (.branch f'))

/-- The instructions at the frames `fs` lead from the frame `f` to the frame `f'`. -/
inductive Path (r : Routine) : Frame → List Frame → Frame → Prop
  | here (f : Frame) : Path r f [] f
  | step {f f' f'' : Frame} {fs : List Frame} (h : r.Steps f f') (hrest : Path r f' fs f'') :
      Path r f (f :: fs) f''

variable {r : Routine} {f f' f'' : Frame} {fs gs : List Frame}

theorem Path.trans (h : r.Path f fs f') (h' : r.Path f' gs f'') : r.Path f (fs ++ gs) f'' := by
  induction h with
  | here => exact h'
  | step hstep _ ih => exact .step hstep (ih h')

section Rules

variable {pc next target : Nat} {stack locals : List Value} {n a b : Int32} {v : Value}
  {slot : UInt8} {distance : Int16} {i : Instruction} {effect : Effect}

theorem does_of_decodes (h : Decodes r.code f.pc i next)
    (hperform : ∀ heap, perform r heap f.pc i { f with pc := next } = .ok effect) :
    r.Does f effect := by
  obtain ⟨tag, mnemonic, hfetch⟩ := h
  exact ⟨_, next, hfetch, hperform⟩

theorem steps_nop (h : Decodes r.code pc .nop next) :
    r.Steps ⟨pc, stack, locals⟩ ⟨next, stack, locals⟩ :=
  .advance (does_of_decodes h fun _ => rfl)

theorem steps_constInt (h : Decodes r.code pc (.constInt n) next) :
    r.Steps ⟨pc, stack, locals⟩ ⟨next, .int n :: stack, locals⟩ :=
  .advance (does_of_decodes h fun _ => rfl)

theorem steps_pushByte {n : Int8} (h : Decodes r.code pc (.pushByte n) next) :
    r.Steps ⟨pc, stack, locals⟩ ⟨next, .int n.toInt32 :: stack, locals⟩ :=
  .advance (does_of_decodes h fun _ => rfl)

theorem steps_pushShort {n : Int16} (h : Decodes r.code pc (.pushShort n) next) :
    r.Steps ⟨pc, stack, locals⟩ ⟨next, .int n.toInt32 :: stack, locals⟩ :=
  .advance (does_of_decodes h fun _ => rfl)

theorem load_of_get? (hslot : locals[slot.toNat]? = some v) (hset : v ≠ .unset) :
    (⟨pc, stack, locals⟩ : Frame).load slot.toNat = .ok v := by
  cases v with
  | unset => exact absurd rfl hset
  | int n => simp only [Frame.load, hslot]
  | str text => simp only [Frame.load, hslot]
  | obj id => simp only [Frame.load, hslot]
  | staticMember ref => simp only [Frame.load, hslot]

theorem steps_loadInt (h : Decodes r.code pc (.loadInt slot) next)
    (hslot : locals[slot.toNat]? = some (.int n)) :
    r.Steps ⟨pc, stack, locals⟩ ⟨next, .int n :: stack, locals⟩ := by
  refine .advance (does_of_decodes h fun _ => ?_)
  simp only [perform, load_of_get? hslot (by simp)]
  rfl

theorem steps_loadRef (h : Decodes r.code pc (.loadRef slot) next)
    (hslot : locals[slot.toNat]? = some v) (hset : v ≠ .unset) :
    r.Steps ⟨pc, stack, locals⟩ ⟨next, v :: stack, locals⟩ := by
  refine .advance (does_of_decodes h fun _ => ?_)
  simp only [perform, load_of_get? hslot hset]
  rfl

theorem steps_storeInt (h : Decodes r.code pc (.storeInt slot) next)
    (hslot : slot.toNat < locals.length) :
    r.Steps ⟨pc, .int n :: stack, locals⟩ ⟨next, stack, locals.set slot.toNat (.int n)⟩ := by
  refine .advance (does_of_decodes h fun _ => ?_)
  have hstore : (⟨next, stack, locals⟩ : Frame).store slot.toNat (.int n) =
      .ok ⟨next, stack, locals.set slot.toNat (.int n)⟩ := if_pos hslot
  exact congrArg (Effect.advance <$> ·) hstore

theorem steps_incInt {delta : Int8} (h : Decodes r.code pc (.incInt slot delta) next)
    (hslot : locals[slot.toNat]? = some (.int n)) :
    r.Steps ⟨pc, stack, locals⟩
      ⟨next, stack, locals.set slot.toNat (.int (n + delta.toInt32))⟩ := by
  refine .advance (does_of_decodes h fun _ => ?_)
  obtain ⟨hlt, -⟩ := List.getElem?_eq_some_iff.1 hslot
  have hstore : (⟨next, stack, locals⟩ : Frame).store slot.toNat (.int (n + delta.toInt32)) =
      .ok ⟨next, stack, locals.set slot.toNat (.int (n + delta.toInt32))⟩ := if_pos hlt
  simp only [perform, load_of_get? hslot (by simp)]
  exact congrArg (Effect.advance <$> ·) hstore

theorem steps_addInt (h : Decodes r.code pc .addInt next) :
    r.Steps ⟨pc, .int b :: .int a :: stack, locals⟩ ⟨next, .int (a + b) :: stack, locals⟩ :=
  .advance (does_of_decodes h fun _ => rfl)

theorem steps_subInt (h : Decodes r.code pc .subInt next) :
    r.Steps ⟨pc, .int b :: .int a :: stack, locals⟩ ⟨next, .int (a - b) :: stack, locals⟩ :=
  .advance (does_of_decodes h fun _ => rfl)

theorem steps_goto (h : Decodes r.code pc (.goto distance) next)
    (htarget : LeadsTo r.code pc distance target) :
    r.Steps ⟨pc, stack, locals⟩ ⟨target, stack, locals⟩ := by
  refine .branch (does_of_decodes h fun _ => ?_)
  simp only [perform, Frame.jump_of_leadsTo htarget]
  rfl

/-- A branch that is taken on a condition leads to its target, or behind it. -/
theorem steps_of_branch {p : Prop} [Decidable p] (h : Decodes r.code f.pc i next)
    (htarget : LeadsTo r.code f.pc distance target)
    (hperform : ∀ heap, perform r heap f.pc i { f with pc := next } =
      if p then Effect.branch <$> Frame.jump r.code f.pc distance ⟨next, stack, locals⟩
      else pure (.advance ⟨next, stack, locals⟩)) :
    r.Steps f ⟨if p then target else next, stack, locals⟩ := by
  rw [Frame.jump_of_leadsTo htarget] at hperform
  by_cases hp : p
  · simp only [if_pos hp] at hperform ⊢
    exact .branch (does_of_decodes h hperform)
  · simp only [if_neg hp] at hperform ⊢
    exact .advance (does_of_decodes h hperform)

theorem steps_ifNotZero (h : Decodes r.code pc (.ifNotZero distance) next)
    (htarget : LeadsTo r.code pc distance target) :
    r.Steps ⟨pc, .int n :: stack, locals⟩ ⟨if n ≠ 0 then target else next, stack, locals⟩ :=
  steps_of_branch h htarget fun _ => rfl

theorem steps_ifNotEqualInt (h : Decodes r.code pc (.ifNotEqualInt distance) next)
    (htarget : LeadsTo r.code pc distance target) :
    r.Steps ⟨pc, .int b :: .int a :: stack, locals⟩
      ⟨if a ≠ b then target else next, stack, locals⟩ :=
  steps_of_branch h htarget fun _ => rfl

theorem steps_ifGreaterEqualInt (h : Decodes r.code pc (.ifGreaterEqualInt distance) next)
    (htarget : LeadsTo r.code pc distance target) :
    r.Steps ⟨pc, .int b :: .int a :: stack, locals⟩
      ⟨if b ≤ a then target else next, stack, locals⟩ :=
  steps_of_branch h htarget fun _ => rfl

theorem steps_loadConstant {index : UInt8} (h : Decodes r.code pc (.loadConstant index) next)
    (hconstant : r.pool.loadable index.toNat = .ok v) :
    r.Steps ⟨pc, stack, locals⟩ ⟨next, v :: stack, locals⟩ := by
  refine .advance (does_of_decodes h fun _ => ?_)
  simp only [perform, hconstant]
  rfl

theorem steps_getStatic {index : UInt16} {ref : MemberRef}
    (h : Decodes r.code pc (.getStatic index) next)
    (href : r.pool.memberRef index.toNat (.member .field) = .ok ref) :
    r.Steps ⟨pc, stack, locals⟩ ⟨next, .staticMember ref :: stack, locals⟩ := by
  refine .advance (does_of_decodes h fun _ => ?_)
  simp only [perform, href]
  rfl

theorem does_returnInt (h : Decodes r.code pc .returnInt next) :
    r.Does ⟨pc, .int n :: stack, locals⟩ (.finish (some (.int n))) :=
  does_of_decodes h fun _ => rfl

theorem does_returnRef (h : Decodes r.code pc .returnRef next) :
    r.Does ⟨pc, v :: stack, locals⟩ (.finish (some v)) :=
  does_of_decodes h fun _ => rfl

theorem does_returnVoid (h : Decodes r.code pc .returnVoid next) :
    r.Does ⟨pc, stack, locals⟩ (.finish none) :=
  does_of_decodes h fun _ => rfl

variable {index : UInt16} {callee : MemberRef} {args : List Value}

/-- The values that were pushed last are the arguments, in the order in which they were pushed. -/
theorem popArgs_of_argCount {descriptor : String}
    (hcount : Descriptor.argCount descriptor = .ok args.length) :
    Frame.popArgs pc descriptor ⟨next, args.reverse ++ stack, locals⟩ =
      .ok (args, ⟨next, stack, locals⟩) := by
  have henough : ¬ (args.reverse ++ stack).length < args.length := by simp
  have htake : (args.reverse ++ stack).take args.length = args.reverse := by simp
  have hdrop : (args.reverse ++ stack).drop args.length = stack := by simp
  simp only [Frame.popArgs, hcount, RunError.ofFormat, Except.mapError_ok, bind, Except.bind,
    if_neg henough, htake, hdrop, List.reverse_reverse]
  rfl

theorem does_invokeStatic (h : Decodes r.code pc (.invokeStatic index) next)
    (hcallee : r.pool.memberRef index.toNat (.member .method) = .ok callee)
    (hcount : Descriptor.argCount callee.descriptor = .ok args.length) :
    r.Does ⟨pc, args.reverse ++ stack, locals⟩
      (.call callee none args ⟨next, stack, locals⟩) := by
  refine does_of_decodes h fun _ => ?_
  simp only [perform, hcallee, RunError.ofFormat, Except.mapError_ok, bind, Except.bind,
    popArgs_of_argCount hcount]
  rfl

theorem does_invokeSpecial {id : Nat} (h : Decodes r.code pc (.invokeSpecial index) next)
    (hcallee : r.pool.memberRef index.toNat (.member .method) = .ok callee)
    (hcount : Descriptor.argCount callee.descriptor = .ok args.length)
    (hroot : callee.isRootConstructor = false) :
    r.Does ⟨pc, args.reverse ++ .obj id :: stack, locals⟩
      (.call callee (some (.obj id)) args ⟨next, stack, locals⟩) := by
  refine does_of_decodes h fun _ => ?_
  simp only [perform, hcallee, RunError.ofFormat, Except.mapError_ok, bind, Except.bind,
    popArgs_of_argCount hcount, Frame.pop, Value.asObject, hroot]
  rfl

theorem does_invokeVirtual {host : MemberRef} (h : Decodes r.code pc (.invokeVirtual index) next)
    (hcallee : r.pool.memberRef index.toNat (.member .method) = .ok callee)
    (hcount : Descriptor.argCount callee.descriptor = .ok args.length) :
    r.Does ⟨pc, args.reverse ++ .staticMember host :: stack, locals⟩
      (.native ⟨host.className, host.name, callee.name⟩ args ⟨next, stack, locals⟩) := by
  refine does_of_decodes h fun _ => ?_
  simp only [perform, hcallee, RunError.ofFormat, Except.mapError_ok, bind, Except.bind,
    popArgs_of_argCount hcount, Frame.pop, Value.asStaticMember]
  rfl

end Rules

/-! ## Runs -/

variable {effect : Effect} {result : Option Value}

/-- An instruction that does the same on every heap is fetched, and then its effect is settled. -/
theorem Does.run (h : r.Does f effect) (m : Machine) (fuel : Nat) (w : World) :
    ∃ w', w.Alike w' ∧ w'.frames = w.frames ++ [f] ∧
      m.run (fuel + 1) r f w = match m.settle (m.caller fuel) effect w' with
        | (.going f', w'') => m.run fuel r f' w''
        | (.done result, w'') => (.ok result, w'')
        | (.stopped why, w'') => (.error why, w'') := by
  obtain ⟨d, next, hfetch, hperform⟩ := h
  refine ⟨Machine.noteFetch d f w, .noteFetch d f w,
    w.frames_noteFetch d f (start_of_fetch hfetch), ?_⟩
  rw [← Machine.step_of_effect hfetch (hperform w.heap)]
  exact Point.run_of_fuel (p := ⟨fuel + 1, r, f, w⟩) rfl

theorem run_of_fault {i : Instruction} {next : Nat} {e : RunError} {w : World}
    (h : Decodes r.code f.pc i next)
    (hperform : perform r w.heap f.pc i { f with pc := next } = .error e) (m : Machine)
    (fuel : Nat) :
    ∃ w', w.Alike w' ∧ m.run (fuel + 1) r f w = (.error (.error e), w') := by
  obtain ⟨tag, mnemonic, hfetch⟩ := h
  refine ⟨_, .noteFetch ⟨f.pc, tag, mnemonic, i⟩ f w, ?_⟩
  have hrun := Point.run_of_fuel (m := m) (p := ⟨fuel + 1, r, f, w⟩) rfl
  dsimp only at hrun
  rw [Machine.step_of_fault hfetch hperform] at hrun
  exact hrun

theorem Steps.run (h : r.Steps f f') (m : Machine) (fuel : Nat) (w : World) :
    ∃ w', w.Alike w' ∧ w'.frames = w.frames ++ [f] ∧
      m.run (fuel + 1) r f w = m.run fuel r f' w' := by
  cases h with
  | advance h =>
    obtain ⟨w', halike, hframes, hrun⟩ := h.run m fuel w
    exact ⟨w', halike, hframes, hrun⟩
  | branch h =>
    obtain ⟨w', halike, hframes, hrun⟩ := h.run m fuel w
    exact ⟨w'.note (.jumped f'.pc), halike.note rfl, hframes, hrun⟩

/-- **A run follows a path**: it fetches in the frames on the path, and neither changes the heap nor
    calls a host method. -/
theorem Path.run (h : r.Path f fs f') (m : Machine) (fuel : Nat) (w : World) :
    ∃ w', w.Alike w' ∧ w'.frames = w.frames ++ fs ∧
      m.run (fuel + fs.length) r f w = m.run fuel r f' w' := by
  induction h generalizing w with
  | here f => exact ⟨w, .refl w, (List.append_nil _).symm, rfl⟩
  | @step f f' f'' fs hstep _ ih =>
    obtain ⟨w₁, halike₁, hframes₁, hrun₁⟩ := hstep.run m (fuel + fs.length) w
    obtain ⟨w₂, halike₂, hframes₂, hrun₂⟩ := ih w₁
    refine ⟨w₂, halike₁.trans halike₂, ?_, hrun₁.trans hrun₂⟩
    rw [hframes₂, hframes₁, List.append_assoc]
    rfl

theorem Path.run_finish (h : r.Path f fs f') (hfinish : r.Does f' (.finish result)) {fuel : Nat}
    (hfuel : fs.length < fuel) (m : Machine) (w : World) :
    ∃ w', w.Alike w' ∧ w'.frames = w.frames ++ (fs ++ [f']) ∧
      m.run fuel r f w = (.ok result, w') := by
  obtain ⟨k, rfl⟩ : ∃ k, fuel = k + 1 + fs.length := ⟨fuel - 1 - fs.length, by omega⟩
  obtain ⟨w₁, halike₁, hframes₁, hrun₁⟩ := h.run m (k + 1) w
  obtain ⟨w₂, halike₂, hframes₂, hrun₂⟩ := hfinish.run m k w₁
  refine ⟨w₂, halike₁.trans halike₂, ?_, hrun₁.trans hrun₂⟩
  rw [hframes₂, hframes₁, List.append_assoc]

variable {callee : MemberRef} {receiver : Option Value} {args : List Value}

/-- A method that is called runs on the heap that the policy gives it.  Its result is pushed, and an
    error that it stops with stops its caller. -/
theorem Does.run_call (h : r.Does f (.call callee receiver args f')) (m : Machine) (fuel : Nat)
    (w : World) :
    ∃ w', w.Alike w' ∧ m.run (fuel + 1) r f w =
      match m.invoke fuel callee.className callee.name receiver args
          (m.worldOfCall receiver w') with
      | (.ok result, u) =>
        m.run fuel r (f'.pushResult result) (m.worldAfterCall receiver w' u)
      | (.error why, u) => (.error why, m.worldAfterCall receiver w' u) := by
  obtain ⟨w', halike, -, hrun⟩ := h.run m fuel w
  refine ⟨w', halike, ?_⟩
  have hcall : m.caller fuel callee receiver args (m.worldOfCall receiver w') =
      m.invoke fuel callee.className callee.name receiver args (m.worldOfCall receiver w') := rfl
  rw [hrun]
  simp only [Machine.settle, Machine.callOnHeap_eq, hcall]
  rcases m.invoke fuel callee.className callee.name receiver args (m.worldOfCall receiver w') with
    ⟨why | result, u⟩
  · rfl
  · rfl

end Routine

namespace Machine

/-- Calls of a method with these values return `result`; they neither change the heap nor call a
    host method. -/
def Returns (m : Machine) (fuel : Nat) (className method : String) (receiver : Option Value)
    (args : List Value) (result : Option Value) : Prop :=
  ∀ w, ∃ w', w.Alike w' ∧ m.invoke fuel className method receiver args w = (.ok result, w')

variable {m : Machine} {fuel : Nat} {className method : String} {receiver : Option Value}
  {args : List Value} {result : Option Value} {c : ClassFile} {code : Code}

theorem invoke_of_findCode (hget : m.classes.get className = .ok c)
    (hcode : m.classes.findCode className method = .ok code)
    (hlen : (receiver.toList ++ args).length ≤ code.maxLocals) (w : World) :
    m.invoke fuel className method receiver args w =
      leave className method (m.run fuel (code.entry c (receiver.toList ++ args)).1
        (code.entry c (receiver.toList ++ args)).2 (w.note (.entered className method))) := by
  have hfirst : m.firstPoint? fuel className method (receiver.toList ++ args) w = some _ :=
    firstPoint?_eq_some_iff.2 ⟨c, code, hget, hcode, hlen, rfl⟩
  exact invokeWith_of_firstPoint? hfirst (m.run fuel)

theorem alike_note_note {w w' : World} (h : (w.note (.entered className method)).Alike w') :
    w.Alike (w'.note (.exited className method result)) :=
  (((World.Alike.refl w).note rfl).trans h).note rfl

theorem invoke_of_path (hget : m.classes.get className = .ok c)
    (hcode : m.classes.findCode className method = .ok code)
    (hlen : (receiver.toList ++ args).length ≤ code.maxLocals) {fs : List Frame} {f : Frame}
    (hpath : (code.entry c (receiver.toList ++ args)).1.Path
      (code.entry c (receiver.toList ++ args)).2 fs f)
    (hfinish : (code.entry c (receiver.toList ++ args)).1.Does f (.finish result))
    (hfuel : fs.length < fuel) (w : World) :
    ∃ w', w.Alike w' ∧ w'.frames = w.frames ++ (fs ++ [f]) ∧
      m.invoke fuel className method receiver args w = (.ok result, w') := by
  obtain ⟨w', halike, hframes, hrun⟩ :=
    hpath.run_finish hfinish hfuel m (w.note (.entered className method))
  refine ⟨w'.note (.exited className method result), alike_note_note halike, hframes, ?_⟩
  rw [invoke_of_findCode hget hcode hlen, hrun]
  rfl

theorem returns_of_run (hget : m.classes.get className = .ok c)
    (hcode : m.classes.findCode className method = .ok code)
    (hlen : (receiver.toList ++ args).length ≤ code.maxLocals)
    (hrun : ∀ w, ∃ w', w.Alike w' ∧ m.run fuel (code.entry c (receiver.toList ++ args)).1
      (code.entry c (receiver.toList ++ args)).2 w = (.ok result, w')) :
    m.Returns fuel className method receiver args result := by
  intro w
  obtain ⟨w', halike, heq⟩ := hrun (w.note (.entered className method))
  refine ⟨w'.note (.exited className method result), alike_note_note halike, ?_⟩
  rw [invoke_of_findCode hget hcode hlen, heq]
  rfl

/-- A call that returns pushes its result, and that is all that it does. -/
theorem run_of_returns {r : Routine} {f f' : Frame} {callee : MemberRef}
    (hcall : r.Does f (.call callee receiver args f'))
    (hreturns : m.Returns fuel callee.className callee.name receiver args result) (w : World) :
    ∃ w', w.Alike w' ∧ m.run (fuel + 1) r f w = m.run fuel r (f'.pushResult result) w' := by
  obtain ⟨w₁, halike, hrun⟩ := hcall.run_call m fuel w
  obtain ⟨u, hu, hinvoke⟩ := hreturns (m.worldOfCall receiver w₁)
  rw [hinvoke] at hrun
  exact ⟨_, halike.trans (World.alike_worldAfterCall hu), hrun⟩

end Machine

end Bytecode
