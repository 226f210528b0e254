/-
  More fuel.

  Fuel bounds a run and has no other say in it.  A run that ends does so in the same way with more
  fuel: with the same result or error, in the same world (`Machine.run_of_le`).
-/
import Bytecode.Proofs.Machine.Agreement

namespace Bytecode

def Agreement.unlessExhausted : Agreement :=
  .sameUnless (· = .outOfFuel)

namespace Machine

variable {m : Machine} {fuel more : Nat} {r : Routine} {f : Frame} {w : World}

theorem ends_callOnHeap {call call' : Caller} {callee : MemberRef} {receiver : Option Value}
    {args : List Value}
    (h : Agreement.unlessExhausted.Ends (call callee receiver args (m.worldOfCall receiver w))
      (call' callee receiver args (m.worldOfCall receiver w))) :
    Agreement.unlessExhausted.Ends (m.callOnHeap call callee receiver args w)
      (m.callOnHeap call' callee receiver args w) := by
  simp only [callOnHeap_eq]
  rcases h with heq | ⟨why, hspares, hout⟩
  · rw [heq]
    exact .inl rfl
  · exact .inr ⟨why, hspares, hout⟩

/-- **A run with more fuel agrees.**  The calls of an instruction have more fuel too, so they agree
    by the same induction. -/
theorem ends_of_more (m : Machine) (more : Nat) (p : Point) :
    Agreement.unlessExhausted.Ends (p.run m) (Point.run m { p with fuel := p.fuel + more }) := by
  obtain ⟨fuel, r, f, w⟩ := p
  induction fuel generalizing r f w with
  | zero => exact .inr ⟨.outOfFuel, rfl, rfl⟩
  | succ fuel ih =>
    have hcall : ∀ callee receiver args (u : World),
        Agreement.unlessExhausted.Ends (m.callOnHeap (m.caller fuel) callee receiver args u)
          (m.callOnHeap (m.caller (fuel + more)) callee receiver args u) :=
      fun callee receiver args u =>
        ends_callOnHeap (Agreement.ends_invokeWith rfl rfl fuel fun p _ => ih _ _ _)
    have hstep : Agreement.unlessExhausted.Continues (m.step (m.caller fuel) r f w)
        (m.step (m.caller (fuel + more)) r f w) :=
      Agreement.continues_step (p := ⟨fuel + 1, r, f, w⟩) (Agreement.natives_of_eq rfl)
        (Agreement.overlooks_sameUnless _ _)
        fun callee receiver args _ u _ => hcall callee receiver args u
    rw [Point.run_of_fuel rfl, Point.run_of_fuel (Nat.add_right_comm fuel 1 more)]
    dsimp only
    generalize m.step (m.caller fuel) r f w = left at hstep ⊢
    obtain ⟨progress, w'⟩ := left
    rcases hstep with heq | ⟨why, hspares, rfl⟩
    · have heq' : m.step (m.caller (fuel + more)) r f w = (progress, w') := heq
      rw [heq']
      cases progress with
      | going f' => exact ih r f' w'
      | done result => exact .inl rfl
      | stopped why => exact .inl rfl
    · exact .inr ⟨why, hspares, rfl⟩

/-- **A run that ends is the same with more fuel.** -/
theorem run_of_le (h : (m.run fuel r f w).1 ≠ .error .outOfFuel) (hle : fuel ≤ more) :
    m.run more r f w = m.run fuel r f w := by
  obtain ⟨extra, rfl⟩ := Nat.exists_eq_add_of_le hle
  refine (m.ends_of_more extra ⟨fuel, r, f, w⟩).eq ?_
  rintro _ hout rfl
  exact h hout

theorem execute_of_le {className : String} {code : Octets} {locals : List Value}
    (h : (m.execute fuel className code locals w).1 ≠ .error .outOfFuel) (hle : fuel ≤ more) :
    m.execute more className code locals w = m.execute fuel className code locals w := by
  unfold execute at h ⊢
  split
  · rfl
  · next c hc =>
    simp only [hc] at h
    exact run_of_le h hle

end Machine

end Bytecode
