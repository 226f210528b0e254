/-
  What every run keeps, from what every instruction keeps.

  A `Contract` says which values a call may be given, which frames a routine may be in, how the
  world may change and which results are good.  It is `Sound` for a machine if one instruction
  keeps it, provided that the calls do, and if methods are entered and left in accordance with it.
  Since a call runs on what fuel its caller has left, every run then keeps it, by induction on the
  fuel (`Sound.run`).

  `Refusal` are the errors with which a method is not even entered.
-/
import Bytecode.Machine.Run
import Bytecode.Proofs.Outcome

namespace Bytecode

/-- The errors with which a call is refused before the method is entered. -/
inductive Refusal : RunError → Prop
  | format (cause : FormatError) : Refusal (.format cause)
  | noClass (name : String) : Refusal (.classNotFound name)
  | noMethod (className method : String) : Refusal (.methodNotFound className method)
  | noCode (className method : String) : Refusal (.codeNotFound className method)
  | tooFewLocals (maxLocals needed : Nat) : Refusal (.tooFewLocals maxLocals needed)

namespace ClassTable

variable (t : ClassTable) (className method : String)

theorem ofFormat_refusal {α : Type} (x : Except FormatError α) :
    (RunError.ofFormat x).Ensures Refusal fun _ => True := by
  cases x with
  | error cause => exact .format cause
  | ok a => trivial

theorem get_refusal : (t.get className).Ensures Refusal fun _ => True := by
  unfold get
  split
  · trivial
  · exact .noClass className

theorem findMethod_refusal : (t.findMethod className method).Ensures Refusal fun _ => True := by
  refine (t.get_refusal className).bind fun c _ => (ofFormat_refusal _).bind fun found _ => ?_
  cases found with
  | none => exact .noMethod className method
  | some m => trivial

theorem findCode_refusal : (t.findCode className method).Ensures Refusal fun _ => True := by
  refine (t.get_refusal className).bind fun c _ => (t.findMethod_refusal className method).bind ?_
  refine fun m _ => (ofFormat_refusal _).bind fun found _ => ?_
  cases found with
  | none => exact .noCode className method
  | some code => trivial

end ClassTable

/-- The routine and the frame in which a method starts that is given these values. -/
def Code.entry (c : ClassFile) (code : Code) (given : List Value) : Routine × Frame :=
  (⟨c.pool, code.octets⟩,
    .start (given ++ List.replicate (code.maxLocals - given.length) .unset))

/-- Leaving a method is an event if it returns. -/
def Machine.leave (className method : String) : Result × World → Result × World
  | (.ok result, w) => (.ok result, w.note (.exited className method result))
  | (.error why, w) => (.error why, w)

/-- A call is refused, or the method is entered, run and left. -/
theorem Machine.invokeWith_cases (m : Machine) (run : Routine → Frame → World → Result × World)
    (className method : String) (receiver : Option Value) (args : List Value) (w : World) :
    (∃ e, Refusal e ∧ m.invokeWith run className method receiver args w = (.error (.error e), w)) ∨
    ∃ c code, m.classes.get className = .ok c ∧ m.classes.findCode className method = .ok code ∧
      (receiver.toList ++ args).length ≤ code.maxLocals ∧
      m.invokeWith run className method receiver args w =
        leave className method (run (code.entry c (receiver.toList ++ args)).1
          (code.entry c (receiver.toList ++ args)).2 (w.note (.entered className method))) := by
  cases hc : m.classes.get className with
  | error e =>
    exact Or.inl ⟨e, (m.classes.get_refusal className).error hc, by simp only [invokeWith, hc]⟩
  | ok c =>
    cases hcode : m.classes.findCode className method with
    | error e =>
      refine Or.inl ⟨e, (m.classes.findCode_refusal className method).error hcode, ?_⟩
      simp only [invokeWith, hc, hcode]
    | ok code =>
      by_cases hlen : code.maxLocals < (receiver.toList ++ args).length
      · refine Or.inl ⟨_, .tooFewLocals code.maxLocals (receiver.toList ++ args).length, ?_⟩
        simp only [invokeWith, hc, hcode, if_pos hlen]
      · refine Or.inr ⟨c, code, rfl, rfl, Nat.le_of_not_lt hlen, ?_⟩
        simp only [invokeWith, hc, hcode, if_neg hlen]
        rfl

/-- What the runs of a machine are to keep. -/
structure Contract where
  Given : List Value → World → Prop
  Fits : Routine → Frame → World → Prop
  Evolves : World → World → Prop
  Good : Result → World → Prop

namespace Contract

variable (k : Contract)

/-- A run that started in the world `w` ends as it should. -/
def Ends (w : World) (out : Result × World) : Prop :=
  k.Evolves w out.2 ∧ k.Good out.1 out.2

/-- Calls that are given what they may be given end as they should. -/
def Honours (call : Caller) : Prop :=
  ∀ callee receiver args w, k.Given (receiver.toList ++ args) w →
    k.Ends w (call callee receiver args w)

/-- An instruction of the routine `r`, carried out in the world `w`, leaves things as it should. -/
def Continues (r : Routine) (w : World) : Progress × World → Prop
  | (.going f, w') => k.Evolves w w' ∧ k.Fits r f w'
  | (.done result, w') => k.Ends w (.ok result, w')
  | (.stopped why, w') => k.Ends w (.error why, w')

/-- The conditions under which every run of a machine keeps the contract. -/
structure Sound (m : Machine) : Prop where
  refl : ∀ w, k.Evolves w w
  trans : ∀ {w w' w''}, k.Evolves w w' → k.Evolves w' w'' → k.Evolves w w''
  step : ∀ {call r f w}, k.Honours call → k.Fits r f w → k.Continues r w (m.step call r f w)
  exhausted : ∀ {r f w}, k.Fits r f w → k.Good (.error .outOfFuel) w
  refuse : ∀ {given w e}, k.Given given w → Refusal e → k.Good (.error (.error e)) w
  enter : ∀ {className method c code given w}, k.Given given w →
    m.classes.get className = .ok c → m.classes.findCode className method = .ok code →
    given.length ≤ code.maxLocals →
    k.Evolves w (w.note (.entered className method)) ∧
      k.Fits (code.entry c given).1 (code.entry c given).2 (w.note (.entered className method))
  leave : ∀ {className method result w}, k.Good (.ok result) w →
    k.Ends w (.ok result, w.note (.exited className method result))

variable {k} {m : Machine}

theorem Continues.after {r : Routine} {w w' : World} {progress : Progress × World}
    (htrans : ∀ {u u' u''}, k.Evolves u u' → k.Evolves u' u'' → k.Evolves u u'')
    (hw : k.Evolves w w') (h : k.Continues r w' progress) : k.Continues r w progress := by
  obtain ⟨f | result | why, w''⟩ := progress
  · exact ⟨htrans hw h.1, h.2⟩
  · exact ⟨htrans hw h.1, h.2⟩
  · exact ⟨htrans hw h.1, h.2⟩

theorem Sound.invokeWith (h : k.Sound m) {run : Routine → Frame → World → Result × World}
    (hrun : ∀ r f w, k.Fits r f w → k.Ends w (run r f w)) (className method : String)
    {receiver : Option Value} {args : List Value} {w : World}
    (hgiven : k.Given (receiver.toList ++ args) w) :
    k.Ends w (m.invokeWith run className method receiver args w) := by
  rcases m.invokeWith_cases run className method receiver args w with
    ⟨e, he, heq⟩ | ⟨c, code, hc, hcode, hlen, heq⟩
  · rw [heq]
    exact ⟨h.refl w, h.refuse hgiven he⟩
  · rw [heq]
    obtain ⟨hevolves, hfits⟩ := h.enter hgiven hc hcode hlen
    have hends := hrun _ _ _ hfits
    generalize run _ _ _ = out at hends
    obtain ⟨why | result, w'⟩ := out
    · exact ⟨h.trans hevolves hends.1, hends.2⟩
    · obtain ⟨hexit, hgood⟩ := h.leave hends.2
      exact ⟨h.trans hevolves (h.trans hends.1 hexit), hgood⟩

/-- **Every run keeps a sound contract.** -/
theorem Sound.run (h : k.Sound m) (fuel : Nat) :
    ∀ r f w, k.Fits r f w → k.Ends w (m.run fuel r f w) := by
  induction fuel with
  | zero => exact fun r f w hfits => ⟨h.refl w, h.exhausted hfits⟩
  | succ fuel ih =>
    intro r f w hfits
    -- the calls of this instruction run on less fuel
    have hcall : k.Honours fun callee =>
        m.invokeWith (m.run fuel) callee.className callee.name :=
      fun callee _ _ _ hgiven => h.invokeWith ih callee.className callee.name hgiven
    have hstep := h.step hcall hfits
    rw [Machine.run]
    generalize m.step _ r f w = progress at hstep ⊢
    obtain ⟨f' | result | why, w'⟩ := progress
    · obtain ⟨hevolves, hfits'⟩ := hstep
      obtain ⟨hrest, hgood⟩ := ih r f' w' hfits'
      exact ⟨h.trans hevolves hrest, hgood⟩
    · exact hstep
    · exact hstep

/-- Every call of a method keeps a sound contract. -/
theorem Sound.invoke (h : k.Sound m) (fuel : Nat) (className method : String)
    {receiver : Option Value} {args : List Value} {w : World}
    (hgiven : k.Given (receiver.toList ++ args) w) :
    k.Ends w (m.invoke fuel className method receiver args w) :=
  h.invokeWith (h.run fuel) className method hgiven

end Contract

end Bytecode
