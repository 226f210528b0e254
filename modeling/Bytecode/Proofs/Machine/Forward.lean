/-
  Code that only goes forward.

  If code calls no methods and all its branches lead ahead, then every instruction moves the frame
  on, be it to the next instruction or to the target of a branch, which may well lie within another
  instruction.  What is left of the code bounds the instructions that can still be fetched, so the
  code ends, with a result or with an error.

  * `perform_call`: only two instructions call methods;
  * `Machine.run_ahead`: by induction on the fuel, a run ends within what is left of the code.
-/
import Bytecode.ClassFile.Assembly
import Bytecode.Proofs.Machine.Fetches
import Bytecode.Proofs.Machine.Fuel

namespace Bytecode

def Instruction.callsMethod : Instruction → Bool
  | .invokeStatic _ | .invokeSpecial _ => true
  | _ => false

/-- No instruction of the code, at whatever offset it is decoded, calls a method of a class, and
    every branch leads ahead. -/
def ForwardOnly (code : Octets) : Prop :=
  EachInstruction code fun _ i _ =>
    i.callsMethod = false ∧ ∀ distance ∈ i.distance?, 0 < distance.toInt

instance (code : Octets) : Decidable (ForwardOnly code) :=
  inferInstanceAs (Decidable (EachInstruction code _))

theorem ForwardOnly.lt_of_goesTo {code : Octets} (h : ForwardOnly code) {pc next target : Nat}
    {i : Instruction} (hdecodes : Decodes code pc i next)
    (hgoes : i.GoesTo code pc next target) : pc < target ∧ target ≤ code.length := by
  rcases hgoes with ⟨-, rfl⟩ | ⟨distance, hdistance, htarget, hlt⟩
  · exact hdecodes.lt_next
  · have hpositive := (h _ _ _ hdecodes).2 distance hdistance
    omega

theorem perform_call {r : Routine} {heap : Heap} {offset : Nat} {i : Instruction} {f g : Frame}
    {callee : MemberRef} {receiver : Option Value} {args : List Value}
    (h : perform r heap offset i f = .ok (.call callee receiver args g)) :
    i.callsMethod = true := by
  have hcalls := perform_isCall h rfl
  cases i with
  | invokeStatic _ | invokeSpecial _ => rfl
  | invokeVirtual _ => simp [perform, Except.bind_eq_ok_iff, Except.map_eq_ok_iff] at h
  | _ => cases hcalls

namespace Machine

variable {m : Machine} {r : Routine} {f : Frame} {w : World}

/-- What an instruction leaves in the frame `f` of code that only goes forward: the run goes on
    further ahead, or it ends, and then not for want of fuel. -/
def Ahead (r : Routine) (f : Frame) (w : World) : Progress × World → Prop
  | (.going f', w') => f.pc < f'.pc ∧ f'.pc ≤ r.code.length ∧ w'.frames = w.frames ++ [f]
  | (.done _, w') => f.pc < r.code.length ∧ w'.frames = w.frames ++ [f]
  | (.stopped why, w') => why ≠ .outOfFuel ∧
    (w'.frames = w.frames ∨ f.pc < r.code.length ∧ w'.frames = w.frames ++ [f])

/-- **An instruction of code that only goes forward moves the frame on**, or ends the run. -/
theorem step_ahead (h : ForwardOnly r.code) (call : Caller) (f : Frame) (w : World) :
    Ahead r f w (m.step call r f w) := by
  cases hfetch : fetch r.code f.pc with
  | error e =>
    simp only [step, hfetch]
    exact ⟨by simp, .inl rfl⟩
  | ok decoded =>
    obtain ⟨d, next⟩ := decoded
    have hdecodes := decodes_of_fetch hfetch
    have hstart := start_of_fetch hfetch
    have hinside : f.pc < r.code.length :=
      Nat.lt_of_lt_of_le hdecodes.lt_next.1 hdecodes.lt_next.2
    have hfetched := w.frames_noteFetch d f hstart
    cases hperform : perform r w.heap d.start d.instruction { f with pc := next } with
    | error e =>
      rw [step_of_fault hfetch hperform]
      exact ⟨by simp, .inr ⟨hinside, hfetched⟩⟩
    | ok effect =>
      have hnot : ∀ callee receiver args g, effect ≠ .call callee receiver args g := by
        rintro callee receiver args g rfl
        have hcalls := (h _ _ _ hdecodes).1
        rw [perform_call hperform] at hcalls
        cases hcalls
      rw [step_of_effect hfetch hperform]
      obtain ⟨hframes, hstop⟩ := m.settle_of_not_call call hnot (noteFetch d f w)
      rw [hfetched] at hframes
      cases hsettle : m.settle call effect (noteFetch d f w) with
      | mk progress w' =>
        rw [hsettle] at hframes hstop
        cases progress with
        | going f' =>
          obtain ⟨g, result, hg, rfl⟩ := settle_going hsettle
          rw [hstart] at hperform
          obtain ⟨hahead, hend⟩ := h.lt_of_goesTo hdecodes (perform_goesTo hperform hg)
          rw [← g.pc_pushResult result] at hahead hend
          exact ⟨hahead, hend, hframes⟩
        | done result => exact ⟨hinside, hframes⟩
        | stopped why => exact ⟨fun hwhy => hstop (congrArg _ hwhy), .inr ⟨hinside, hframes⟩⟩

/-- **A run of such code ends**, and fetches no more instructions than there are octets left. -/
theorem run_ahead (h : ForwardOnly r.code) {fuel : Nat} (hpc : f.pc ≤ r.code.length)
    (hfuel : r.code.length - f.pc < fuel) :
    (m.run fuel r f w).1 ≠ .error .outOfFuel ∧
      ∃ fs, (m.run fuel r f w).2.frames = w.frames ++ fs ∧ fs.length ≤ r.code.length - f.pc := by
  induction fuel generalizing f w with
  | zero => omega
  | succ fuel ih =>
    have hstep := step_ahead h (m.caller fuel) f w (m := m)
    have hrun := Point.run_of_fuel (m := m) (p := ⟨fuel + 1, r, f, w⟩) rfl
    dsimp only [Point.run] at hrun
    rw [hrun]
    generalize m.step (m.caller fuel) r f w = out at hstep
    obtain ⟨progress, w'⟩ := out
    cases progress with
    | going f' =>
      obtain ⟨hahead, hpc', hframes⟩ := hstep
      obtain ⟨hends, fs, hfs, hlen⟩ := ih (w := w') hpc' (by omega)
      refine ⟨hends, f :: fs, ?_, ?_⟩
      · rw [hfs, hframes, List.append_assoc]
        rfl
      · rw [List.length_cons]
        omega
    | done result =>
      obtain ⟨hinside, hframes⟩ := hstep
      refine ⟨by simp, [f], hframes, ?_⟩
      rw [List.length_singleton]
      omega
    | stopped why =>
      obtain ⟨hwhy, hframes | ⟨hinside, hframes⟩⟩ := hstep
      · exact ⟨by simpa using hwhy, [], by simpa using hframes, Nat.zero_le _⟩
      · refine ⟨by simpa using hwhy, [f], hframes, ?_⟩
        rw [List.length_singleton]
        omega

/-- **Code that only goes forward terminates**: it has an outcome, a result or an error, which it
    reaches on any fuel beyond the number of its octets, and it fetches no more instructions than it
    has octets. -/
theorem execute_forwardOnly (m : Machine) {code : Octets} (h : ForwardOnly code)
    (className : String) (locals : List Value) (w : World) :
    ∃ result w',
      (∀ fuel, code.length < fuel → m.execute fuel className code locals w = (result, w')) ∧
      result ≠ .error .outOfFuel ∧
      ∃ fs, w'.frames = w.frames ++ fs ∧ fs.length ≤ code.length := by
  have hends : (m.execute (code.length + 1) className code locals w).1 ≠ .error .outOfFuel ∧
      ∃ fs, (m.execute (code.length + 1) className code locals w).2.frames = w.frames ++ fs ∧
        fs.length ≤ code.length := by
    unfold execute
    split
    · exact ⟨by simp, [], (List.append_nil _).symm, Nat.zero_le _⟩
    · exact run_ahead h (Nat.zero_le _) (Nat.lt_succ_self _)
  exact ⟨_, _, fun fuel hfuel => execute_of_le hends.1 hfuel, hends⟩

/-- A class with a host method `echo`, which returns its argument. -/
def echoing : Machine :=
  let cls := (Assembly.build "A" [.member .field "A" "host" "LA;",
    .member .method "A" "echo" "(I)I"]).2
  ⟨⟨[("A", cls)]⟩, NativeTable.empty.register ⟨"A", "host", "echo"⟩ Native.first, .isolateStatic⟩

/-- Branches into the operand of `sipush` if its local slot is not zero, and else runs over its
    end. -/
def skipping : Octets :=
  [0xb2, 0, 8, 0x1a, 0xb6, 0, 12, 0x9a, 0, 4, 0x11, 0x08, 0xac]

/-- Six instructions are fetched out of thirteen octets. -/
theorem execute_forwardOnly_skipping :
    ForwardOnly skipping ∧
    (let out := echoing.execute 14 "A" skipping [.int 1] .start;
      out.1.toOption = some (some (.int 5)) ∧ out.2.frames.map (·.pc) = [0, 3, 4, 7, 11, 12]) ∧
    ∃ result w',
      (∀ fuel, skipping.length < fuel →
        echoing.execute fuel "A" skipping [.int 1] .start = (result, w')) ∧
      result ≠ .error .outOfFuel ∧
      ∃ fs, w'.frames = World.start.frames ++ fs ∧ fs.length ≤ skipping.length :=
  have h : ForwardOnly skipping := by decide +kernel
  ⟨h, by decide +kernel, echoing.execute_forwardOnly h "A" [.int 1] .start⟩

end Machine

end Bytecode
