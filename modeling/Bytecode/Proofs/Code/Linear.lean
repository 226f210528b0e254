/-
  Decoding code from its start to its end.

  The linear decoding of code takes one instruction after the other: each step starts where the one
  before it ended, the first one at 0.  What a step gives is what would be fetched at its start, so
  the steps tile the code up to its end, or up to the first offset at which nothing can be fetched.

  * `Decoded.run_read_of_fetch`, `Decoded.run_read_of_fetch_error`: decoding, in terms of fetching;
  * `Decoded.linear_tiles`: the steps of the linear decoding tile the code.
-/
import Bytecode.Proofs.Code.Decoding

namespace Bytecode

/-- The error of fetching at an offset at which decoding fails. -/
def DecodeError.at (pc : Nat) : DecodeError → RunError
  | .unknownOpcode tag => .unsupportedOpcode tag pc
  | .truncated => .codeOverrun pc

theorem Cursor.isEmpty_place_iff {code : Octets} {pc : Nat} :
    (Cursor.place code pc).isEmpty = true ↔ code.length ≤ pc := by
  rw [Cursor.isEmpty, Cursor.rest_place, List.isEmpty_iff, List.drop_eq_nil_iff]

namespace Decoded

variable {code : Octets} {pc next : Nat} {d : Decoded}

theorem run_read_of_fetch (h : fetch code pc = .ok (d, next)) :
    read.run (Cursor.place code pc) = (.ok d, Cursor.place code next) := by
  obtain ⟨op, hop, hwhole, rfl, rfl⟩ := fetch_eq_ok_iff.1 h
  cases hrest : code.drop pc with
  | nil =>
    have hend := List.drop_eq_nil_iff.1 hrest
    omega
  | cons tag rest =>
    obtain ⟨-, hat, hdrop, hlen⟩ := at?_of_drop hrest
    rw [hop] at hat
    have hoperands : op.form.width ≤ (Cursor.place code (pc + 1)).remaining := by
      rw [Cursor.remaining, Cursor.rest_place, hdrop]
      omega
    rw [run_read hrest, ← hat, ← Opcode.tag_of_ofTag? hat.symm]
    simp only [Form.run_read hoperands, Cursor.rest_place, Cursor.advance_place]

theorem run_read_of_fetch_error {e : RunError} (hpc : pc < code.length)
    (h : fetch code pc = .error e) :
    ∃ e' c, read.run (Cursor.place code pc) = (.error e', c) ∧ e = e'.at pc := by
  have hmore : ¬ (Cursor.place code pc).isEmpty = true := by
    rw [Cursor.isEmpty_place_iff]
    exact Nat.not_le.2 hpc
  unfold fetch at h
  simp only [if_neg hmore] at h
  cases hread : read.run (Cursor.place code pc) with
  | mk result c =>
    rw [hread] at h
    cases result with
    | ok d => cases h
    | error e' =>
      refine ⟨e', c, rfl, ?_⟩
      cases e' with
      | unknownOpcode tag => exact (Except.error.inj h).symm
      | truncated => exact (Except.error.inj h).symm

/-- Steps of decoding from an offset on: each starts where the one before it ended, and the last one
    ends the code or fails. -/
inductive Tiles (code : Octets) : Nat → List (Nat × Except DecodeError Decoded × Nat) → Prop
  | done : Tiles code code.length []
  | step {pc next : Nat} {d : Decoded} {rest : List (Nat × Except DecodeError Decoded × Nat)}
      (h : fetch code pc = .ok (d, next)) (hrest : Tiles code next rest) :
      Tiles code pc ((pc, .ok d, next) :: rest)
  | fail {pc : Nat} {e : DecodeError} (hpc : pc < code.length)
      (h : fetch code pc = .error (e.at pc)) (next : Nat) : Tiles code pc [(pc, .error e, next)]

theorem steps_tiles {fuel : Nat} (hpc : pc ≤ code.length) (hfuel : code.length - pc ≤ fuel) :
    Tiles code pc (steps fuel (Cursor.place code pc)) := by
  induction fuel generalizing pc with
  | zero =>
    obtain rfl : pc = code.length := by omega
    exact .done
  | succ fuel ih =>
    rcases Nat.lt_or_eq_of_le hpc with hlt | rfl
    · have hmore : ¬ (Cursor.place code pc).isEmpty = true := by
        rw [Cursor.isEmpty_place_iff]
        exact Nat.not_le.2 hlt
      rw [steps, if_neg hmore]
      cases hfetch : fetch code pc with
      | ok decoded =>
        obtain ⟨d, next⟩ := decoded
        obtain ⟨op, -, hwhole, -, rfl⟩ := fetch_eq_ok_iff.1 hfetch
        have hless : code.length - (pc + 1 + op.form.width) ≤ fuel := by omega
        rw [run_read_of_fetch hfetch]
        exact .step hfetch (ih hwhole hless)
      | error e =>
        obtain ⟨e', c, hread, rfl⟩ := run_read_of_fetch_error hlt hfetch
        rw [hread]
        exact .fail hlt hfetch _
    · rw [steps, if_pos (Cursor.isEmpty_place_iff.2 (Nat.le_refl _))]
      exact .done

/-- **The linear decoding tiles the code.** -/
theorem linear_tiles (code : Octets) : Tiles code 0 (linear code) := by
  rw [linear, Cursor.ofOctets_eq]
  exact steps_tiles (Nat.zero_le _) (Nat.le_refl _)

/-- Where steps tile the code from an offset on, one of them starts there, or there is none left. -/
theorem Tiles.head {steps : List (Nat × Except DecodeError Decoded × Nat)}
    (h : Tiles code pc steps) : pc ∈ steps.map (·.1) ∨ pc = code.length := by
  cases h with
  | done => exact .inr rfl
  | step | fail => exact .inl List.mem_cons_self

/-- A step that succeeds gives what is fetched at its start, and the next one starts where it
    ends. -/
theorem Tiles.of_mem {steps : List (Nat × Except DecodeError Decoded × Nat)} {start : Nat}
    (h : Tiles code pc steps) (hmem : (start, .ok d, next) ∈ steps) :
    fetch code start = .ok (d, next) ∧ (next ∈ steps.map (·.1) ∨ next = code.length) := by
  induction h with
  | done => cases hmem
  | step hfetch hrest ih =>
    rcases List.mem_cons.1 hmem with heq | hmem
    · cases heq
      exact ⟨hfetch, hrest.head.imp_left (List.mem_cons_of_mem _)⟩
    · obtain ⟨hstart, hnext⟩ := ih hmem
      exact ⟨hstart, hnext.imp_left (List.mem_cons_of_mem _)⟩
  | fail => cases List.mem_singleton.1 hmem

/-- The offsets at which the steps of the linear decoding start. -/
def starts (code : Octets) : List Nat :=
  (linear code).map (·.1)

/-- A step of the linear decoding starts at the offset, or the code ends there. -/
def Boundary (code : Octets) (pc : Nat) : Prop :=
  pc ∈ starts code ∨ pc = code.length

theorem boundary_zero (code : Octets) : Boundary code 0 :=
  (linear_tiles code).head

theorem fetch_of_mem_linear (h : (pc, .ok d, next) ∈ linear code) :
    fetch code pc = .ok (d, next) ∧ Boundary code next :=
  (linear_tiles code).of_mem h

end Decoded

end Bytecode
