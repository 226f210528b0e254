/-
  Where errors come from, and what they tell about the code there.

  An error travels unchanged through all the methods that wait for a call, so it tells of a piece
  of code that need not be that of the method which was called from outside.  But there is a point
  of the run at which it arose, and the code that runs there is as the error says.
-/
import Bytecode.ClassFile.Assembly
import Bytecode.Proofs.Code.Decoding
import Bytecode.Proofs.Machine.Moves

namespace Bytecode

/-! ## Where errors arise -/

/-- The instruction at a point fails with an error, or the call that it asks for is refused. -/
inductive Point.Raises (m : Machine) (p : Point) : RunError → Prop
  | fetch {e : RunError} (h : fetch p.routine.code p.frame.pc = .error e) : Raises m p e
  | fault {d : Decoded} {next : Nat} {e : RunError}
      (hfetch : Bytecode.fetch p.routine.code p.frame.pc = .ok (d, next))
      (h : perform p.routine p.world.heap d.start d.instruction { p.frame with pc := next } =
        .error e) : Raises m p e
  | missing {key : NativeKey} {args : List Value} {f : Frame} {w : World}
      (heffect : p.effect? = some (.native key args f, w)) (h : m.natives.get? key = none) :
      Raises m p (.nativeNotFound key)
  | host {key : NativeKey} {args : List Value} {f : Frame} {w : World} {g : Native} {e : RunError}
      (heffect : p.effect? = some (.native key args f, w)) (hg : m.natives.get? key = some g)
      (h : g args = .error e) : Raises m p e
  | refused {callee : MemberRef} {receiver : Option Value} {args : List Value} {f : Frame}
      {w : World} {e : RunError} (heffect : p.effect? = some (.call callee receiver args f, w))
      (h : Refusal e) : Raises m p e

namespace Machine

variable {m : Machine}

theorem resume_stopped {f : Frame} {out : Result × World} {why : Stop} {w : World}
    (h : resume f out = (.stopped why, w)) : out.1 = .error why := by
  obtain ⟨why' | result, w'⟩ := out
  · rw [Progress.stopped.inj (Prod.mk.inj h).1]
  · cases h

theorem error_of_invokeWith {fuel : Nat} {className method : String} {receiver : Option Value}
    {args : List Value} {w : World} {e : RunError}
    (h : (m.invokeWith (m.run fuel) className method receiver args w).1 = .error (.error e)) :
    Refusal e ∨ ∃ q, m.firstPoint? fuel className method (receiver.toList ++ args) w = some q ∧
      (q.run m).1 = .error (.error e) := by
  rcases m.invokeWith_cases (m.run fuel) className method receiver args w with
    ⟨e', he', heq⟩ | ⟨c, code, hc, hcode, hlen, heq⟩
  · rw [heq] at h
    exact .inl (Stop.error.inj (Except.error.inj h) ▸ he')
  · rw [heq] at h
    refine .inr ⟨_, firstPoint?_eq_some_iff.2 ⟨c, code, hc, hcode, hlen, rfl⟩, ?_⟩
    unfold Point.run
    dsimp only
    generalize m.run fuel _ _ _ = out at h ⊢
    obtain ⟨why | result, w'⟩ := out
    · exact h
    · cases h

end Machine

namespace Point

variable {m : Machine} {p : Point} {e : RunError}

/-- If the run stops at a point, then the point raises the error or the method does that is called
    there. -/
theorem raises_of_step {fuel : Nat} {w : World} (hfuel : p.fuel = fuel + 1)
    (h : m.step (m.caller fuel) p.routine p.frame p.world = (.stopped (.error e), w)) :
    p.Raises m e ∨ ∃ q, p.callee? m = some q ∧ (q.run m).1 = .error (.error e) := by
  cases hfetch : fetch p.routine.code p.frame.pc with
  | error e' =>
    simp only [Machine.step, hfetch, Prod.mk.injEq, Progress.stopped.injEq, Stop.error.injEq] at h
    obtain ⟨rfl, -⟩ := h
    exact .inl (.fetch hfetch)
  | ok decoded =>
    obtain ⟨d, next⟩ := decoded
    cases hperform : perform p.routine p.world.heap d.start d.instruction
        { p.frame with pc := next } with
    | error e' =>
      rw [Machine.step_of_fault hfetch hperform] at h
      obtain rfl := Stop.error.inj (Progress.stopped.inj (Prod.mk.inj h).1)
      exact .inl (.fault hfetch hperform)
    | ok effect =>
      have heffect := effect?_eq_some_iff.2 ⟨d, next, hfetch, hperform, rfl⟩
      rw [step_of_effect? _ heffect] at h
      cases effect with
      | advance f | branch f | update f heap | skip callee f | finish result => cases h
      | native key args f =>
        left
        have hout := Machine.resume_stopped h
        unfold Machine.callNative at hout
        cases hkey : m.natives.get? key with
        | none =>
          simp only [hkey] at hout
          obtain rfl := Stop.error.inj (Except.error.inj hout)
          exact .missing heffect hkey
        | some g =>
          simp only [hkey] at hout
          obtain ⟨e', he', hstop⟩ := Except.mapError_eq_error_iff.1 hout
          obtain rfl := Stop.error.inj hstop
          exact .host heffect hkey he'
      | call callee receiver args f =>
        have hout := Machine.resume_stopped h
        rw [Machine.callOnHeap_eq] at hout
        rcases Machine.error_of_invokeWith hout with hrefusal | ⟨q, hfirst, hrun⟩
        · exact .inl (.refused heffect hrefusal)
        · exact .inr ⟨q, callee?_eq_some_iff.2 ⟨_, _, _, _, _, _, hfuel, heffect, hfirst⟩, hrun⟩

/-- The error of a run is raised at a point of its frame, or by a method that is called there. -/
theorem raised_after? (h : (p.run m).1 = .error (.error e)) :
    ∃ n q, p.after? m n = some q ∧
      (q.Raises m e ∨ ∃ q', q.callee? m = some q' ∧ (q'.run m).1 = .error (.error e)) := by
  induction p using Point.induction m with
  | h p ih =>
    cases hfuel : p.fuel with
    | zero =>
      rw [run, hfuel] at h
      cases h
    | succ fuel =>
      cases hstep : m.step (m.caller fuel) p.routine p.frame p.world with
      | mk progress w =>
        cases progress with
        | going f =>
          have hnext := next?_eq_some_iff.2 ⟨fuel, f, w, hfuel, hstep, rfl⟩
          obtain ⟨n, q, hq, hraised⟩ := ih _ (next_mem_successors hnext) (run_of_next? hnext ▸ h)
          exact ⟨n + 1, q, (after?_of_next? hnext n).trans hq, hraised⟩
        | done result =>
          rw [run_of_fuel hfuel, hstep] at h
          cases h
        | stopped why =>
          rw [run_of_fuel hfuel, hstep] at h
          obtain rfl := Except.error.inj h
          exact ⟨0, p, rfl, raises_of_step hfuel hstep⟩

/-- **The error of a run is raised at a point that the run visits.** -/
theorem raised_of_run (h : (p.run m).1 = .error (.error e)) : ∃ q, p.Visits m q ∧ q.Raises m e := by
  generalize hfuel : p.fuel = fuel
  induction fuel using Nat.strongRecOn generalizing p with
  | ind fuel ih =>
    obtain ⟨n, q, hq, hraises | ⟨q', hcallee, hrun⟩⟩ := raised_after? h
    · exact ⟨q, visits_of_after? hq, hraises⟩
    · -- the method that is called has less fuel
      have hvisits := visits_of_after? hq
      have hle := hvisits.fuel_le
      have hlt := fuel_of_mem_successors (callee_mem_successors hcallee)
      obtain ⟨s, hs, hraises⟩ := ih q'.fuel (by omega) hrun rfl
      exact ⟨s, (hvisits.enter hcallee).trans hs, hraises⟩

end Point

/-! ## What errors tell about code -/

/-- Whether an error is about the code that was run. -/
def RunError.concernsCode : RunError → Bool
  | .unsupportedOpcode _ _ | .codeOverrun _ | .stackUnderflow _ | .branchOutOfBounds _ _
  | .localOutOfRange _ _ | .unsetLocal _ => true
  | _ => false

def Opcode.branches : List UInt8 :=
  [0x9a, 0xa0, 0xa2, 0xa7]

/-- The operand of a branch: the signed number on the two octets behind its tag. -/
def Opcode.operandAt (code : Octets) (offset : Nat) : Int16 :=
  (UInt16.ofNat (BigEndian.decode ((code.drop (offset + 1)).take 2))).toInt16

/-- What an error tells about code is so. -/
inductive Code.Justifies (code : Code) : RunError → Prop
  | unsupported {tag : UInt8} {offset : Nat} (htag : code.octets[offset]? = some tag)
      (hunknown : Opcode.ofTag? tag = none) : Justifies code (.unsupportedOpcode tag offset)
  | ended : Justifies code (.codeOverrun code.octets.length)
  | cut {op : Opcode} {offset : Nat} (hop : Opcode.at? code.octets offset = some op)
      (hcut : code.octets.length < offset + 1 + op.form.width) :
      Justifies code (.codeOverrun offset)
  | underflow {op : Opcode} {offset : Nat} (hop : Opcode.at? code.octets offset = some op)
      (hwhole : offset + 1 + op.form.width ≤ code.octets.length) :
      Justifies code (.stackUnderflow offset)
  | branch {op : Opcode} {offset : Nat} {target : Int}
      (hop : Opcode.at? code.octets offset = some op)
      (hwhole : offset + 1 + op.form.width ≤ code.octets.length)
      (hbranch : op.tag ∈ Opcode.branches)
      (htarget : target = offset + (Opcode.operandAt code.octets offset).toInt)
      (houtside : target < 0 ∨ code.octets.length ≤ target) :
      Justifies code (.branchOutOfBounds offset target)
  | slot {slot : Nat} (h : code.maxLocals ≤ slot) :
      Justifies code (.localOutOfRange slot code.maxLocals)
  | unset {slot : Nat} (h : slot < code.maxLocals) : Justifies code (.unsetLocal slot)

theorem Opcode.branch_of_distance? : ∀ op ∈ table, ∀ bs distance,
    (op.form.make bs).distance? = some distance →
      op.tag ∈ branches ∧ op.form.width = 2 ∧
        distance = (UInt16.ofNat (BigEndian.decode bs)).toInt16 := by
  simp [table, Form.make, Form.width, Instruction.distance?, branches, eq_comm]

/-- The frame of a method with this code. -/
structure Code.Runs (code : Code) (r : Routine) (f : Frame) : Prop where
  octets : r.code = code.octets
  pc : f.pc ≤ code.octets.length
  locals : f.locals.length = code.maxLocals

namespace Code.Runs

variable {code : Code} {r : Routine} {f : Frame}

theorem entry (c : ClassFile) {given : List Value} (h : given.length ≤ code.maxLocals) :
    code.Runs (code.entry c given).1 (code.entry c given).2 where
  octets := rfl
  pc := Nat.zero_le _
  locals := by
    simp only [Code.entry, Frame.start, List.length_append, List.length_replicate]
    omega

theorem justifies_of_fetch (h : code.Runs r f) {e : RunError} (he : fetch r.code f.pc = .error e) :
    code.Justifies e := by
  rw [h.octets] at he
  rcases reason_of_fetch_error he with
    ⟨hend, rfl⟩ | ⟨tag, htag, hunknown, rfl⟩ | ⟨op, hop, hcut, rfl⟩
  · rw [Nat.le_antisymm h.pc hend]
    exact .ended
  · exact .unsupported htag hunknown
  · exact .cut hop hcut

theorem justifies_of_fault (h : code.Runs r f) {d : Decoded} {next : Nat} {heap : Heap}
    {e : RunError} (hfetch : fetch r.code f.pc = .ok (d, next))
    (hfault : Fault r heap d.start d.instruction { f with pc := next } e)
    (he : e.concernsCode) : code.Justifies e := by
  rw [h.octets] at hfetch
  obtain ⟨op, hop, hwhole, rfl, -⟩ := fetch_eq_ok_iff.1 hfetch
  cases hfault with
  | format | constant | mismatch | missing | field => cases he
  | underflow => exact .underflow hop hwhole
  | unset hslot => exact .unset (h.locals ▸ hslot)
  | slot hslot =>
    dsimp only at hslot ⊢
    rw [h.locals] at hslot ⊢
    exact .slot hslot
  | branch hdistance houtside =>
    obtain ⟨hbranch, hwidth, rfl⟩ :=
      Opcode.branch_of_distance? op (Opcode.mem_of_at? hop) _ _ hdistance
    rw [hwidth, h.octets] at houtside
    rw [hwidth]
    exact .branch hop hwhole hbranch rfl houtside

theorem step (h : code.Runs r f) {m : Machine} {call : Caller} {w w' : World} {f' : Frame}
    (hstep : m.step call r f w = (.going f', w')) : code.Runs r f' := by
  obtain ⟨d, next, g, result, hfetch, hmoves, rfl⟩ := Machine.step_moves hstep
  obtain ⟨op, -, hwhole, -, rfl⟩ := fetch_eq_ok_iff.1 hfetch
  have hpc : g.pc ≤ code.octets.length := h.octets ▸ hmoves.pc_le hwhole
  have hlocals : g.locals.length = code.maxLocals := hmoves.length_locals.trans h.locals
  cases result with
  | none => exact ⟨h.octets, hpc, hlocals⟩
  | some v => exact ⟨h.octets, hpc, hlocals⟩

end Code.Runs

/-! ## Runs -/

/-- No host method of the table fails with an error that is about code. -/
def NativeTable.SparesCode (t : NativeTable) : Prop :=
  ∀ key f args e, t.get? key = some f → f args = .error e → ¬ e.concernsCode

namespace Machine

variable {m : Machine}

/-- Every point of a run is in the code of a method of the table. -/
theorem runs_of_visits {fuel : Nat} {className method : String} {given : List Value} {w : World}
    {start p : Point} (hstart : m.firstPoint? fuel className method given w = some start)
    (h : start.Visits m p) :
    ∃ owner name code, m.classes.findCode owner name = .ok code ∧
      code.Runs p.routine p.frame := by
  induction h with
  | here =>
    obtain ⟨c, code, -, hcode, hlen, rfl⟩ := firstPoint?_eq_some_iff.1 hstart
    exact ⟨className, method, code, hcode, .entry c hlen⟩
  | next _ hq ih =>
    obtain ⟨owner, name, code, hcode, hruns⟩ := ih
    obtain ⟨fuel, f, w, -, hstep, rfl⟩ := Point.next?_eq_some_iff.1 hq
    exact ⟨owner, name, code, hcode, hruns.step hstep⟩
  | enter _ hq ih =>
    obtain ⟨fuel, callee, receiver, args, f, w, -, -, hfirst⟩ := Point.callee?_eq_some_iff.1 hq
    obtain ⟨c, code, -, hcode, hlen, rfl⟩ := firstPoint?_eq_some_iff.1 hfirst
    exact ⟨callee.className, callee.name, code, hcode, .entry c hlen⟩

/-- What a point raises that is about code is justified by the code that runs there. -/
theorem justifies_of_raises (hm : m.natives.SparesCode) {p : Point} {code : Code} {e : RunError}
    (hruns : code.Runs p.routine p.frame) (h : p.Raises m e) (he : e.concernsCode) :
    code.Justifies e := by
  cases h with
  | fetch hfetch => exact hruns.justifies_of_fetch hfetch
  | fault hfetch hfault => exact hruns.justifies_of_fault hfetch (perform_moves.error hfault) he
  | missing => cases he
  | host _ hg herror => exact absurd he (hm _ _ _ _ hg herror)
  | refused _ hrefusal => cases hrefusal <;> cases he

/-- **Errors tell the truth about the code they come from**: if a run ends with an error that is
    about code, then it has visited a point of a method, however deep in calls, of whose code what
    the error tells is so. -/
theorem invoke_error_justified (m : Machine) (hnatives : m.natives.SparesCode) (fuel : Nat)
    (className method : String) (receiver : Option Value) (args : List Value) (w : World)
    (e : RunError) (he : e.concernsCode)
    (h : (m.invoke fuel className method receiver args w).1 = .error (.error e)) :
    ∃ start p owner name code,
      m.firstPoint? fuel className method (receiver.toList ++ args) w = some start ∧
      start.Visits m p ∧ m.classes.findCode owner name = .ok code ∧
      code.Runs p.routine p.frame ∧ code.Justifies e := by
  rcases error_of_invokeWith h with hrefusal | ⟨start, hstart, hrun⟩
  · cases hrefusal <;> cases he
  · obtain ⟨p, hvisits, hraises⟩ := Point.raised_of_run hrun
    obtain ⟨owner, name, code, hcode, hruns⟩ := runs_of_visits hstart hvisits
    exact ⟨start, p, owner, name, code, hstart, hvisits, hcode, hruns,
      justifies_of_raises hnatives hruns hraises he⟩

/-- A method that calls another one, which branches to before its start. -/
def straying : Machine :=
  let cls := (Assembly.build "B" [.member .method "B" "far" "()V",
    .method ⟨9⟩ "main" "()V" ⟨0, 0, [0x00, 0xb8, 0, 8, 0xb1]⟩,
    .method ⟨9⟩ "far" "()V" ⟨0, 0, [0x00, 0x00, 0xa7, 0xff, 0xfd]⟩]).2
  ⟨⟨[("B", cls)]⟩, .empty, .isolateStatic⟩

/-- The error names the branch of the method that was called last. -/
theorem invoke_error_justified_branch :
    (straying.invoke 9 "B" "main" none [] .start).1 =
        .error (.error (.branchOutOfBounds 2 (-1))) ∧
      ∃ start p owner name code,
        straying.firstPoint? 9 "B" "main" [] .start = some start ∧ start.Visits straying p ∧
        straying.classes.findCode owner name = .ok code ∧ code.Runs p.routine p.frame ∧
        code.Justifies (.branchOutOfBounds 2 (-1)) := by
  have hnatives : straying.natives.SparesCode := by
    intro key f args e hf
    cases hf
  have h : (straying.invoke 9 "B" "main" none [] .start).1 =
      .error (.error (.branchOutOfBounds 2 (-1))) := rfl
  exact ⟨h, straying.invoke_error_justified hnatives 9 "B" "main" none [] .start _ rfl h⟩

end Machine

end Bytecode
