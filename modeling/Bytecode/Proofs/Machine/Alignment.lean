/-
  Code whose branches meet its instructions.

  A listing of code follows its octets, a run follows its branches, and the two need not meet: a
  branch may lead into the operands of an instruction.  If no branch that is listed does so
  (`Aligned`), then a run stays on the instructions of the listing, over any number of branches and
  calls.

  * `Aligned.mem_linear_of_fetch`, `Aligned.not_astray`: a run fetches what the decoding
    gives, and no error of decoding arises but that of running over the end.
-/
import Bytecode.ClassFile.Assembly
import Bytecode.Listing
import Bytecode.Proofs.Code.Linear
import Bytecode.Proofs.Machine.Blame
import Bytecode.Proofs.Machine.Paths

namespace Bytecode

/-- The linear decoding of the code does not fail, and every branch that it gives leads out of the
    code or to the start of an instruction that it gives. -/
structure Aligned (code : Octets) : Prop where
  decodes : ∀ s ∈ Decoded.linear code, s.2.1.isOk = true
  targets : ∀ s ∈ Decoded.linear code, ∀ d ∈ s.2.1.toOption, ∀ distance ∈ d.instruction.distance?,
    ∀ target, LeadsTo code s.1 distance target → target ∈ Decoded.starts code

instance (code : Octets) : Decidable (Aligned code) :=
  decidable_of_iff (_ ∧ _) ⟨fun h => Aligned.mk h.1 h.2, fun h => ⟨h.decodes, h.targets⟩⟩

/-- An error of decoding other than that of running over the end of the code. -/
def RunError.Astray (code : Octets) : RunError → Prop
  | .unsupportedOpcode _ _ => True
  | .codeOverrun offset => offset ≠ code.length
  | _ => False

namespace Point

/-- The frame itself fails: its instruction cannot be fetched or not be carried out. -/
def Fails (p : Point) (e : RunError) : Prop :=
  fetch p.routine.code p.frame.pc = .error e ∨
    ∃ d next, fetch p.routine.code p.frame.pc = .ok (d, next) ∧
      perform p.routine p.world.heap d.start d.instruction { p.frame with pc := next } = .error e

/-- What the instruction calls fails, be it a host method or a method of a class. -/
def Inherits (m : Machine) (p : Point) (e : RunError) : Prop :=
  (∃ key args f w host, p.effect? = some (.native key args f, w) ∧
    m.natives.get? key = some host ∧ host args = .error e) ∨
  ∃ q, p.callee? m = some q ∧ (q.run m).1 = .error (.error e)

end Point

namespace Aligned

open Decoded

variable {code : Octets} {pc next : Nat}

theorem mem_linear (h : Aligned code) (hpc : Boundary code pc) (hend : pc ≠ code.length) :
    ∃ d next, (pc, .ok d, next) ∈ linear code := by
  rcases hpc with hstart | heq
  · obtain ⟨⟨pc, step, next⟩, hmem, rfl⟩ := List.mem_map.1 hstart
    have hok := h.decodes _ hmem
    cases step with
    | error e => cases hok
    | ok d => exact ⟨d, next, hmem⟩
  · exact absurd heq hend

/-- What is fetched at a boundary is what the linear decoding gives there. -/
theorem mem_linear_of_fetch (h : Aligned code) (hpc : Boundary code pc) {d : Decoded}
    (hfetch : fetch code pc = .ok (d, next)) : (pc, .ok d, next) ∈ linear code := by
  obtain ⟨hlt, hle⟩ := (decodes_of_fetch hfetch).lt_next
  obtain ⟨d', next', hmem⟩ := h.mem_linear hpc (by omega)
  cases hfetch.symm.trans (fetch_of_mem_linear hmem).1
  exact hmem

/-- From a boundary, a method goes on at a boundary. -/
theorem boundary_of_goesTo (h : Aligned code) (hpc : Boundary code pc) {i : Instruction}
    {target : Nat} (hdecodes : Decodes code pc i next) (hgoes : i.GoesTo code pc next target) :
    Boundary code target := by
  obtain ⟨tag, mnemonic, hfetch⟩ := hdecodes
  have hmem := h.mem_linear_of_fetch hpc hfetch
  rcases hgoes with ⟨-, rfl⟩ | ⟨distance, hdistance, hleads⟩
  · exact (fetch_of_mem_linear hmem).2
  · exact .inl (h.targets _ hmem _ rfl distance hdistance target hleads)

variable {m : Machine} {start p : Point}

/-- **A frame that starts at the start of the code stays at boundaries**, over branches and
    calls. -/
theorem boundary_after? (h : Aligned start.routine.code) (hstart : start.frame.pc = 0) {n : Nat}
    (hp : start.after? m n = some p) :
    p.routine = start.routine ∧ Boundary start.routine.code p.frame.pc := by
  induction n generalizing p with
  | zero =>
    obtain rfl := Option.some.inj hp
    exact ⟨rfl, hstart ▸ boundary_zero _⟩
  | succ n ih =>
    obtain ⟨q, hq, hnext⟩ := Option.bind_eq_some_iff.1 hp
    obtain ⟨hroutine, hboundary⟩ := ih hq
    obtain ⟨fuel, f, w, -, hstep, rfl⟩ := Point.next?_eq_some_iff.1 hnext
    obtain ⟨i, next, hdecodes, hgoes⟩ := Machine.step_goesTo hstep
    rw [hroutine] at hdecodes hgoes
    exact ⟨hroutine, h.boundary_of_goesTo hboundary hdecodes hgoes⟩

theorem not_astray (h : Aligned p.routine.code) (hp : Boundary p.routine.code p.frame.pc)
    {e : RunError} (hfails : p.Fails e) : ¬ e.Astray p.routine.code := by
  rcases hfails with hfetch | ⟨d, next, -, hfault⟩
  · by_cases hend : p.frame.pc = p.routine.code.length
    · rw [fetch_eq, List.drop_eq_nil_of_le (Nat.le_of_eq hend.symm)] at hfetch
      obtain rfl := Except.error.inj hfetch
      exact fun hastray => hastray hend
    · obtain ⟨d, next, hmem⟩ := h.mem_linear hp hend
      cases hfetch.symm.trans (fetch_of_mem_linear hmem).1
  · cases perform_moves.error hfault <;> exact id

end Aligned

/-- **Aligned code stays aligned.**  Whatever a frame fetches that starts at the start of such code
    is an instruction of the linear decoding, and the listing shows it there.  The frame itself goes
    wrong in decoding only at the end of the code; any other such error of its run comes from what
    it calls. -/
theorem Point.stays_aligned (m : Machine) {start : Point} (h : Aligned start.routine.code)
    (hstart : start.frame.pc = 0) :
    let code := start.routine.code
    (∀ n (p : Point), start.after? m n = some p →
      (∀ d next, fetch p.routine.code p.frame.pc = .ok (d, next) → ∃ k : Nat,
        (Decoded.linear code)[k]? = some (p.frame.pc, .ok d, next) ∧
        ∀ pool lines, Listing.disassemble pool code = .ok lines →
          ∃ line, lines[k]? = some line ∧
            Listing.instructionLine pool p.frame.pc (.ok d) = .ok line) ∧
      ∀ e, p.Fails e → ¬ e.Astray code) ∧
    ∀ e : RunError, e.Astray code → (start.run m).1 = .error (.error e) →
      ∃ n p, start.after? m n = some p ∧ p.Inherits m e := by
  intro code
  have hfails : ∀ n (p : Point), start.after? m n = some p → ∀ e, p.Fails e → ¬ e.Astray code := by
    intro n p hp e hfails
    obtain ⟨hroutine, hboundary⟩ := h.boundary_after? hstart hp
    rw [← hroutine] at h hboundary
    have hsame : code = p.routine.code := congrArg Routine.code hroutine.symm
    rw [hsame]
    exact h.not_astray hboundary hfails
  refine ⟨fun n p hp => ⟨fun d next hfetch => ?_, hfails n p hp⟩, fun e hastray hrun => ?_⟩
  · obtain ⟨hroutine, hboundary⟩ := h.boundary_after? hstart hp
    rw [hroutine] at hfetch
    obtain ⟨k, hk⟩ := List.mem_iff_getElem?.1 (h.mem_linear_of_fetch hboundary hfetch)
    exact ⟨k, hk, fun pool lines hlines => Except.getElem?_of_mapM hlines hk⟩
  · obtain ⟨n, p, hp, hraises | hcallee⟩ := Point.raised_after? hrun
    · cases hraises with
      | fetch hfetch => exact absurd hastray (hfails n p hp e (.inl hfetch))
      | fault hfetch hfault => exact absurd hastray (hfails n p hp e (.inr ⟨_, _, hfetch, hfault⟩))
      | missing => exact hastray.elim
      | host heffect hhost herror => exact ⟨n, p, hp, .inl ⟨_, _, _, _, _, heffect, hhost, herror⟩⟩
      | refused _ hrefusal => cases hrefusal <;> exact hastray.elim
    · exact ⟨n, p, hp, .inr hcallee⟩

/-- A class with a method that takes one off a number. -/
def lessening : ClassFile :=
  (Assembly.build "A" [.member .method "A" "less" "(I)I",
    .method ⟨9⟩ "less" "(I)I" ⟨2, 1, [0x1a, 0x04, 0x64, 0xac]⟩]).2

/-- Calls this method in a loop until three is down to zero. -/
def Point.repeating : Point :=
  ⟨40, ⟨lessening.pool, [0x06, 0x3b, 0x1a, 0xb8, 0, 8, 0x3b, 0x1a, 0x9a, 0xff, 0xfa, 0xb1]⟩,
    .start [.unset], .start⟩

/-- The frame goes through the loop three times, with a call each, before it returns at 11. -/
theorem Point.stays_aligned_repeating :
    let m : Machine := ⟨⟨[("A", lessening)]⟩, .empty, .isolateStatic⟩
    let code := repeating.routine.code
    Aligned code ∧ (repeating.after? m 17).map (·.frame.pc) = some 11 ∧
    (∀ n (p : Point), repeating.after? m n = some p →
      (∀ d next, fetch p.routine.code p.frame.pc = .ok (d, next) → ∃ k : Nat,
        (Decoded.linear code)[k]? = some (p.frame.pc, .ok d, next) ∧
        ∀ pool lines, Listing.disassemble pool code = .ok lines →
          ∃ line, lines[k]? = some line ∧
            Listing.instructionLine pool p.frame.pc (.ok d) = .ok line) ∧
      ∀ e, p.Fails e → ¬ e.Astray code) ∧
    ∀ e : RunError, e.Astray code → (repeating.run m).1 = .error (.error e) →
      ∃ n p, repeating.after? m n = some p ∧ p.Inherits m e := by
  have h : Aligned repeating.routine.code := by decide +kernel
  exact ⟨h, by decide +kernel, stays_aligned _ h rfl⟩

end Bytecode
