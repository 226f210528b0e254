/-
  What an instruction does to its frame.

  A frame goes on behind the instruction, or at a target within the code if the instruction is a
  branch.  At most one local slot is written, with a number or with an operand.  What a call
  returns is pushed and changes neither.  Every instruction but a call takes a fixed number of
  operands and puts a fixed number of values in their place.
-/
import Bytecode.Proofs.Machine.Flow
import Bytecode.Proofs.Machine.Points

namespace Bytecode

/-- The frame with which to go on after an effect, but for what a call returns. -/
def Effect.frame? : Effect → Option Frame
  | .advance f | .branch f | .update f _ | .native _ _ f | .skip _ f | .call _ _ _ f => some f
  | .finish _ => none

theorem Frame.pc_pushResult (f : Frame) (result : Option Value) :
    (f.pushResult result).pc = f.pc := by
  cases result <;> rfl

/-- The frame `g` has as many operands as the instruction `i` leaves in the frame `f`; a call may
    leave any number. -/
def Instruction.Trades (i : Instruction) (f g : Frame) : Prop :=
  match i.operands? with
  | some (pops, pushes) => g.stack.length + pops = f.stack.length + pushes
  | none => True

/-- The instruction `i` at `offset`, in the frame `f` of the routine `r`, may lead to the frame `g`,
    whatever the operands are. -/
structure Moves (r : Routine) (offset : Nat) (i : Instruction) (f g : Frame) : Prop where
  pc : g.pc = f.pc ∨ ∃ distance, i.distance? = some distance ∧
    (g.pc : Int) = offset + distance.toInt ∧ g.pc < r.code.length
  locals : g.locals = f.locals ∨ ∃ slot v, (v ∈ f.stack ∨ ∃ n, v = .int n) ∧
    g.locals = f.locals.set slot v
  height : i.Trades f g

/-- Every frame of an effect is one that the instruction may lead to. -/
def Effect.Moves (r : Routine) (offset : Nat) (i : Instruction) (f : Frame) (effect : Effect) :
    Prop :=
  ∀ g, effect.frame? = some g → Bytecode.Moves r offset i f g

namespace Moves

variable {r : Routine} {heap : Heap} {offset : Nat} {i : Instruction} {f g : Frame}

theorem length_locals (h : Moves r offset i f g) : g.locals.length = f.locals.length := by
  rcases h.locals with heq | ⟨slot, v, -, heq⟩
  · rw [heq]
  · rw [heq, List.length_set]

theorem pc_le (h : Moves r offset i f g) (hpc : f.pc ≤ r.code.length) : g.pc ≤ r.code.length := by
  rcases h.pc with heq | ⟨distance, -, -, hlt⟩
  · rw [heq]
    exact hpc
  · exact Nat.le_of_lt hlt

/-- An instruction that only works on the operands. -/
theorem stays {effect : Effect} (h : effect.frame? = some g) (hpc : g.pc = f.pc)
    (hlocals : g.locals = f.locals) (hheight : i.Trades f g) : effect.Moves r offset i f := by
  intro g' hg'
  obtain rfl := Option.some.inj (h.symm.trans hg')
  exact ⟨.inl hpc, .inl hlocals, hheight⟩

/-- An instruction that writes a local slot. -/
theorem store (g : Frame) {v : Value} (hpc : g.pc = f.pc) (hlocals : g.locals = f.locals)
    (hheight : i.Trades f g) (hv : v ∈ f.stack ∨ ∃ n, v = .int n) (slot : Nat) :
    (Effect.advance <$> g.store slot v).Ensures (Fault r heap offset i f)
      (Effect.Moves r offset i f) := by
  unfold Frame.store
  split
  · intro g' hg'
    obtain rfl := Option.some.inj hg'
    exact ⟨.inl hpc, .inr ⟨slot, v, hv, by rw [← hlocals]⟩, hheight⟩
  · next h =>
    rw [hlocals] at h ⊢
    exact .slot (Nat.le_of_not_lt h)

/-- An instruction that branches. -/
theorem jump (g : Frame) (hlocals : g.locals = f.locals) (hheight : i.Trades f g)
    {distance : Int16} (hi : i.distance? = some distance) :
    (Effect.branch <$> g.jump r.code offset distance).Ensures (Fault r heap offset i f)
      (Effect.Moves r offset i f) := by
  unfold Frame.jump
  dsimp only
  split
  · next h => exact .branch hi h
  · next h =>
    rw [not_or, Int.not_lt, Int.not_le] at h
    obtain ⟨hnonneg, hlt⟩ := h
    intro g' hg'
    obtain rfl := Option.some.inj hg'
    have htarget : (((offset : Int) + distance.toInt).toNat : Int) = offset + distance.toInt :=
      Int.toNat_of_nonneg hnonneg
    refine ⟨.inr ⟨distance, hi, htarget, ?_⟩, .inl hlocals, hheight⟩
    show ((offset : Int) + distance.toInt).toNat < r.code.length
    omega

theorem branchIf (g : Frame) (hpc : g.pc = f.pc) (hlocals : g.locals = f.locals)
    (hheight : i.Trades f g) {distance : Int16} (hi : i.distance? = some distance) (c : Prop)
    [Decidable c] :
    (if c then .branch <$> g.jump r.code offset distance else return .advance g).Ensures
      (Fault r heap offset i f) (Effect.Moves r offset i f) := by
  split
  · exact jump g hlocals hheight hi
  · exact stays rfl hpc hlocals hheight

end Moves

section
variable {r : Routine} {heap : Heap} {offset : Nat} {i : Instruction} {f : Frame}

/-- **What an instruction does to position and local slots**, whatever the values are. -/
theorem perform_moves : (perform r heap offset i f).Ensures (Fault r heap offset i f)
    (Effect.Moves r offset i f) := by
  have hplain : Value.Plain fun _ => True :=
    ⟨fun _ => trivial, fun _ => trivial, fun _ => trivial⟩
  have hf : f.Each fun _ => True := ⟨fun _ _ => trivial, fun _ _ _ => trivial⟩
  have hheap : heap.Each fun _ => True := fun _ _ _ _ _ _ => trivial
  cases i with
  | nop | constInt n | pushByte n | pushShort n => exact Moves.stays rfl rfl rfl rfl
  | loadConstant index =>
    exact (loadable_ensures hplain _).bind fun v _ => Moves.stays rfl rfl rfl rfl
  | loadInt slot =>
    refine (load_ensures hf _).bind fun v _ => (asInt_ensures v).bind fun n _ => ?_
    exact Moves.stays rfl rfl rfl rfl
  | loadRef slot => exact (load_ensures hf _).bind fun v _ => Moves.stays rfl rfl rfl rfl
  | storeInt slot =>
    refine (popInt_ensures f [] rfl (by rfl)).bind ?_
    rintro ⟨n, g⟩ rfl
    exact Moves.store g (by rfl) (by rfl) (by exact rfl) (.inr ⟨n, rfl⟩) _
  | storeRef slot =>
    refine (pop_ensures f [] rfl (by rfl)).bind ?_
    rintro ⟨v, g⟩ rfl
    exact Moves.store g (by rfl) (by rfl) (by exact rfl) (.inl List.mem_cons_self) _
  | pop | dup =>
    refine (pop_ensures f [] rfl (by rfl)).bind ?_
    rintro ⟨v, g⟩ rfl
    exact Moves.stays rfl rfl rfl rfl
  | addInt | subInt =>
    refine (popInt_ensures f [] rfl (by rfl)).bind ?_
    rintro ⟨b, g⟩ rfl
    refine (popInt_ensures g [_] rfl (by rfl)).bind ?_
    rintro ⟨a, g⟩ rfl
    exact Moves.stays rfl rfl rfl rfl
  | incInt slot delta =>
    refine (load_ensures hf _).bind fun v _ => (asInt_ensures v).bind fun n _ => ?_
    exact Moves.store f rfl rfl (by exact rfl) (.inr ⟨_, rfl⟩) _
  | ifNotZero distance =>
    refine (popInt_ensures f [] rfl (by rfl)).bind ?_
    rintro ⟨n, g⟩ rfl
    exact Moves.branchIf g (by rfl) (by rfl) (by exact rfl) (by rfl) _
  | ifNotEqualInt distance | ifGreaterEqualInt distance =>
    refine (popInt_ensures f [] rfl (by rfl)).bind ?_
    rintro ⟨b, g⟩ rfl
    refine (popInt_ensures g [_] rfl (by rfl)).bind ?_
    rintro ⟨a, g⟩ rfl
    exact Moves.branchIf g (by rfl) (by rfl) (by exact rfl) (by rfl) _
  | goto distance => exact Moves.jump f rfl (by exact rfl) rfl
  | returnInt =>
    refine (popInt_ensures f [] rfl (by rfl)).bind ?_
    rintro ⟨n, g⟩ rfl
    exact fun _ hg => nomatch hg
  | returnRef =>
    refine (pop_ensures f [] rfl (by rfl)).bind ?_
    rintro ⟨v, g⟩ rfl
    exact fun _ hg => nomatch hg
  | returnVoid => exact fun _ hg => nomatch hg
  | getStatic index =>
    refine (ofFormat_ensures fun _ => .memberRef).bind fun ref _ => ?_
    exact Moves.stays rfl rfl rfl rfl
  | getField index =>
    refine (ofFormat_ensures fun _ => .memberRef).bind fun ref _ => ?_
    refine (popObject_ensures f [] rfl (by rfl)).bind ?_
    rintro ⟨id, g⟩ rfl
    exact (getField_ensures hheap List.mem_cons_self _).bind fun v _ => Moves.stays rfl rfl rfl rfl
  | putField index =>
    refine (ofFormat_ensures fun _ => .memberRef).bind fun ref _ => ?_
    refine (pop_ensures f [] rfl (by rfl)).bind ?_
    rintro ⟨v, g⟩ rfl
    refine (popObject_ensures g [_] rfl (by rfl)).bind ?_
    rintro ⟨id, g⟩ rfl
    have hid : .obj id ∈ ((g.push (.obj id)).push v).stack :=
      List.mem_cons_of_mem _ List.mem_cons_self
    exact (putField_ensures hid ref.name v).map fun _ _ => Moves.stays rfl rfl rfl rfl
  | invokeVirtual index =>
    refine (ofFormat_ensures fun _ => .memberRef).bind fun ref _ => ?_
    refine (popArgs_ensures f rfl _).bind ?_
    rintro ⟨args, g⟩ rfl
    refine (pop_ensures g _ rfl (by rfl)).bind ?_
    rintro ⟨receiver, g⟩ rfl
    exact (asStaticMember_ensures receiver).bind fun host _ => Moves.stays rfl rfl rfl trivial
  | invokeSpecial index =>
    refine (ofFormat_ensures fun _ => .memberRef).bind fun ref _ => ?_
    refine (popArgs_ensures f rfl _).bind ?_
    rintro ⟨args, g⟩ rfl
    refine (pop_ensures g _ rfl (by rfl)).bind ?_
    rintro ⟨receiver, g⟩ rfl
    refine (asObject_ensures receiver).bind fun id _ => ?_
    dsimp only
    split
    · exact Moves.stays rfl rfl rfl trivial
    · exact Moves.stays rfl rfl rfl trivial
  | invokeStatic index =>
    refine (ofFormat_ensures fun _ => .memberRef).bind fun ref _ => ?_
    refine (popArgs_ensures f rfl _).bind ?_
    rintro ⟨args, g⟩ rfl
    exact Moves.stays rfl rfl rfl trivial
  | new index =>
    refine (ofFormat_ensures fun _ => .className).bind fun name _ => ?_
    exact Moves.stays rfl rfl rfl rfl

/-- An effect that asks for a call. -/
def Effect.isCall : Effect → Bool
  | .native _ _ _ | .skip _ _ | .call _ _ _ _ => true
  | _ => false

theorem perform_isCall {effect : Effect} (h : perform r heap offset i f = .ok effect)
    (hcall : effect.isCall = true) : i.operands? = none := by
  cases i with
  | invokeVirtual _ | invokeSpecial _ | invokeStatic _ => rfl
  | ifNotZero _ =>
    simp only [perform, Except.bind_eq_ok_iff] at h
    obtain ⟨_, -, h⟩ := h
    obtain ⟨_, rfl⟩ | rfl := branchIf_eq_ok h <;> cases hcall
  | ifNotEqualInt _ | ifGreaterEqualInt _ =>
    simp only [perform, Except.bind_eq_ok_iff] at h
    obtain ⟨_, -, _, -, h⟩ := h
    obtain ⟨_, rfl⟩ | rfl := branchIf_eq_ok h <;> cases hcall
  | _ =>
    cases effect with
    | native _ _ _ | skip _ _ | call _ _ _ _ =>
      simp [perform, Except.bind_eq_ok_iff, Except.map_eq_ok_iff, Except.pure_eq_ok_iff] at h
    | _ => cases hcall

theorem Machine.settle_going {m : Machine} {call : Caller} {effect : Effect} {w w' : World}
    {f' : Frame} (h : m.settle call effect w = (.going f', w')) :
    ∃ g result, effect.frame? = some g ∧ f' = g.pushResult result := by
  have hresume : ∀ {g : Frame} {out : Result × World}, Machine.resume g out = (.going f', w') →
      ∃ result, f' = g.pushResult result := by
    rintro g ⟨why | result, w⟩ hresume
    · cases hresume
    · exact ⟨result, (Progress.going.inj (Prod.mk.inj hresume).1).symm⟩
  cases effect with
  | advance g | branch g | update g heap | skip callee g =>
    exact ⟨g, none, rfl, (Progress.going.inj (Prod.mk.inj h).1).symm⟩
  | finish result => cases h
  | native key args g =>
    obtain ⟨result, heq⟩ := hresume h
    exact ⟨g, result, rfl, heq⟩
  | call callee receiver args g =>
    obtain ⟨result, heq⟩ := hresume h
    exact ⟨g, result, rfl, heq⟩

theorem Machine.step_going {m : Machine} {call : Caller} {w w' : World} {f' : Frame}
    (h : m.step call r f w = (.going f', w')) :
    ∃ d next effect g result, fetch r.code f.pc = .ok (d, next) ∧
      perform r w.heap d.start d.instruction { f with pc := next } = .ok effect ∧
      effect.frame? = some g ∧ f' = g.pushResult result := by
  cases hfetch : fetch r.code f.pc with
  | error e =>
    simp only [step, hfetch, Prod.mk.injEq, reduceCtorEq, false_and] at h
  | ok decoded =>
    obtain ⟨d, next⟩ := decoded
    cases hperform : perform r w.heap d.start d.instruction { f with pc := next } with
    | error e =>
      rw [step_of_fault hfetch hperform] at h
      cases (Prod.mk.inj h).1
    | ok effect =>
      rw [step_of_effect hfetch hperform] at h
      obtain ⟨g, result, hg, heq⟩ := settle_going h
      exact ⟨d, next, effect, g, result, rfl, hperform, hg, heq⟩

/-- **From one instruction to the next** the frame moves as the instruction says, and what a call
    returned is pushed. -/
theorem Machine.step_moves {m : Machine} {call : Caller} {w w' : World} {f' : Frame}
    (h : m.step call r f w = (.going f', w')) :
    ∃ d next g result, fetch r.code f.pc = .ok (d, next) ∧
      Moves r d.start d.instruction { f with pc := next } g ∧ f' = g.pushResult result := by
  obtain ⟨d, next, effect, g, result, hfetch, hperform, hg, heq⟩ := step_going h
  exact ⟨d, next, g, result, hfetch, perform_moves.ok hperform g hg, heq⟩

end

end Bytecode
