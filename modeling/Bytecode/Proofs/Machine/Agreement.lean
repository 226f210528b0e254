/-
  Two machines side by side.

  An `Agreement` says how the world of a run on one machine looks on another machine, and for which
  reasons the first run may stop where the second goes on.  Two runs agree if they end alike, in
  worlds that correspond, or if the first stops for such a reason.  A stop of a call stops every
  method that waits for it, so agreement is carried from the calls to the instruction, and from the
  instructions to the run:

  * `continues_step`: if the calls of an instruction agree, so does what the instruction leaves,
    provided that it does not see the difference of the worlds (`Overlooks`);
  * `ends_invokeWith`: if the runs of a method agree, so do the calls of it;
  * `runs`: a run agrees if its first instruction does and the run after it.
-/
import Bytecode.Proofs.Machine.Points

namespace Bytecode

/-- How a run on a second machine is to compare with a run on a first one. -/
structure Agreement where
  /-- The world of the second run, from that of the first. -/
  world : World → World
  /-- For these reasons the first run may stop where the second goes on. -/
  Spares : Stop → Prop
  note : ∀ w e, world (w.note e) = (world w).note e

namespace Agreement

/-- The second run ends as the first, unless the first stops for a reason that is spared. -/
def Ends (a : Agreement) (out out' : Result × World) : Prop :=
  out' = (out.1, a.world out.2) ∨ ∃ why, a.Spares why ∧ out.1 = .error why

def Continues (a : Agreement) (progress progress' : Progress × World) : Prop :=
  progress' = (progress.1, a.world progress.2) ∨ ∃ why, a.Spares why ∧ progress.1 = .stopped why

/-- Host methods that only the second machine has are missed by the first for a reason that is
    spared. -/
def Natives (a : Agreement) (m m' : Machine) : Prop :=
  ∀ key, m'.natives.get? key = m.natives.get? key ∨
    m.natives.get? key = none ∧ a.Spares (.error (.nativeNotFound key))

/-- The instruction at a point does the same in both worlds. -/
structure Overlooks (a : Agreement) (p : Point) : Prop where
  perform : ∀ {d next}, fetch p.routine.code p.frame.pc = .ok (d, next) →
    perform p.routine (a.world p.world).heap d.start d.instruction { p.frame with pc := next } =
      perform p.routine p.world.heap d.start d.instruction { p.frame with pc := next }
  update : ∀ {f heap w}, p.effect? = some (.update f heap, w) →
    a.world { w with heap } = { a.world w with heap }

/-- The run from a point on the first machine agrees with that from the corresponding one on the
    second. -/
def Runs (a : Agreement) (m m' : Machine) (p : Point) : Prop :=
  a.Ends (p.run m) (Point.run m' { p with world := a.world p.world })

/-- The second run is the same as the first, unless this stops for one of the given reasons. -/
def sameUnless (E : Stop → Prop) : Agreement where
  world w := w
  Spares := E
  note _ _ := rfl

variable {a : Agreement} {m m' : Machine}

theorem Ends.eq {out out' : Result × World} (h : a.Ends out out')
    (hspares : ∀ why, out.1 = .error why → ¬ a.Spares why) : out' = (out.1, a.world out.2) := by
  rcases h with heq | ⟨why, hwhy, hout⟩
  · exact heq
  · exact absurd hwhy (hspares why hout)

theorem natives_of_eq (h : m'.natives = m.natives) : a.Natives m m' := by
  intro key
  rw [h]
  exact .inl rfl

theorem overlooks_sameUnless (E : Stop → Prop) (p : Point) : (sameUnless E).Overlooks p :=
  ⟨fun _ => rfl, fun _ => rfl⟩

theorem noteFetch (d : Decoded) (f : Frame) (w : World) :
    a.world (Machine.noteFetch d f w) = Machine.noteFetch d f (a.world w) := by
  simp only [Machine.noteFetch, a.note]

/-! ## Calls -/

theorem ends_callNative (hnatives : a.Natives m m') (key : NativeKey) (args : List Value)
    (w : World) : a.Ends (m.callNative key args w) (m'.callNative key args (a.world w)) := by
  rcases hnatives key with heq | ⟨hnone, hspares⟩
  · left
    unfold Machine.callNative
    rw [heq]
    cases m.natives.get? key with
    | none => simp only [a.note]
    | some f => simp only [a.note]
  · right
    refine ⟨_, hspares, ?_⟩
    simp only [Machine.callNative, hnone]

theorem ends_leave (className method : String) {out out' : Result × World} (h : a.Ends out out') :
    a.Ends (Machine.leave className method out) (Machine.leave className method out') := by
  obtain ⟨result, w⟩ := out
  rcases h with rfl | ⟨why, hspares, rfl⟩
  · left
    cases result with
    | error why => rfl
    | ok result => simp only [Machine.leave, a.note]
  · exact .inr ⟨why, hspares, rfl⟩

/-- A method that both machines find alike is refused by both, or entered by both. -/
theorem ends_invokeWith {run run' : Routine → Frame → World → Result × World}
    {className method : String} {receiver : Option Value} {args : List Value} {w : World}
    (hget : m'.classes.get className = m.classes.get className)
    (hcode : m'.classes.findCode className method = m.classes.findCode className method)
    (fuel : Nat)
    (hrun : ∀ p, m.firstPoint? fuel className method (receiver.toList ++ args) w = some p →
      a.Ends (run p.routine p.frame p.world) (run' p.routine p.frame (a.world p.world))) :
    a.Ends (m.invokeWith run className method receiver args w)
      (m'.invokeWith run' className method receiver args (a.world w)) := by
  cases hp : m.firstPoint? fuel className method (receiver.toList ++ args) w with
  | some p =>
    obtain ⟨c, code, hc, hfound, hlen, rfl⟩ := Machine.firstPoint?_eq_some_iff.1 hp
    have hp' := Machine.firstPoint?_eq_some_iff.2 ⟨c, code, hget.trans hc, hcode.trans hfound, hlen,
      Eq.refl (Point.mk fuel _ _ ((a.world w).note (.entered className method)))⟩
    rw [Machine.invokeWith_of_firstPoint? hp, Machine.invokeWith_of_firstPoint? hp', ← a.note]
    exact ends_leave className method (hrun _ hp)
  | none =>
    left
    unfold Machine.firstPoint? at hp
    unfold Machine.invokeWith
    rw [hget, hcode]
    cases hc : m.classes.get className with
    | error e => rfl
    | ok c =>
      cases hfound : m.classes.findCode className method with
      | error e => rfl
      | ok code =>
        simp only [hc, hfound, ite_eq_right_iff, reduceCtorEq, imp_false, Nat.not_le] at hp
        simp only [if_pos hp]

theorem ends_invoke {fuel : Nat} {className method : String} {receiver : Option Value}
    {args : List Value} {w : World}
    (hget : m'.classes.get className = m.classes.get className)
    (hcode : m'.classes.findCode className method = m.classes.findCode className method)
    (hrun : ∀ p, m.firstPoint? fuel className method (receiver.toList ++ args) w = some p →
      a.Runs m m' p) :
    a.Ends (m.invoke fuel className method receiver args w)
      (m'.invoke fuel className method receiver args (a.world w)) := by
  refine ends_invokeWith hget hcode fuel fun p hp => ?_
  obtain ⟨rfl, -⟩ := Machine.fuel_of_firstPoint? hp
  exact hrun p hp

/-! ## Instructions and runs -/

theorem continues_resume (f : Frame) {out out' : Result × World} (h : a.Ends out out') :
    a.Continues (Machine.resume f out) (Machine.resume f out') := by
  obtain ⟨result, w⟩ := out
  rcases h with rfl | ⟨why, hspares, rfl⟩
  · left
    cases result with
    | error why => rfl
    | ok result => rfl
  · exact .inr ⟨why, hspares, rfl⟩

theorem continues_settle (hnatives : a.Natives m m') {call call' : Caller} {effect : Effect}
    {w : World}
    (hupdate : ∀ f heap, effect = .update f heap →
      a.world { w with heap } = { a.world w with heap })
    (hcall : ∀ callee receiver args f, effect = .call callee receiver args f →
      a.Ends (m.callOnHeap call callee receiver args w)
        (m'.callOnHeap call' callee receiver args (a.world w))) :
    a.Continues (m.settle call effect w) (m'.settle call' effect (a.world w)) := by
  cases effect with
  | advance f => exact .inl rfl
  | branch f => exact .inl (by simp only [Machine.settle, a.note])
  | update f heap => exact .inl (by simp only [Machine.settle, hupdate f heap rfl])
  | finish result => exact .inl rfl
  | native key args f => exact continues_resume f (ends_callNative hnatives key args w)
  | skip callee f => exact .inl (by simp only [Machine.settle, a.note])
  | call callee receiver args f => exact continues_resume f (hcall callee receiver args f rfl)

/-- **One instruction agrees**, if it overlooks the difference of the worlds and its call, if it is
    one, agrees. -/
theorem continues_step (hnatives : a.Natives m m') {p : Point} (hp : a.Overlooks p)
    {call call' : Caller}
    (hcall : ∀ callee receiver args f w, p.effect? = some (.call callee receiver args f, w) →
      a.Ends (m.callOnHeap call callee receiver args w)
        (m'.callOnHeap call' callee receiver args (a.world w))) :
    a.Continues (m.step call p.routine p.frame p.world)
      (m'.step call' p.routine p.frame (a.world p.world)) := by
  cases hfetch : fetch p.routine.code p.frame.pc with
  | error e => exact .inl (by simp only [Machine.step, hfetch])
  | ok decoded =>
    obtain ⟨d, next⟩ := decoded
    have hsame := hp.perform hfetch
    cases hperform : perform p.routine p.world.heap d.start d.instruction
        { p.frame with pc := next } with
    | error e =>
      left
      rw [Machine.step_of_fault hfetch hperform,
        Machine.step_of_fault hfetch (hsame.trans hperform), noteFetch]
    | ok effect =>
      have heffect := Point.effect?_eq_some_iff.2 ⟨d, next, hfetch, hperform, rfl⟩
      rw [Point.step_of_effect? call heffect,
        Machine.step_of_effect hfetch (hsame.trans hperform), ← noteFetch]
      refine continues_settle hnatives (fun f heap h => ?_) fun callee receiver args f h => ?_
      · subst h
        exact hp.update heffect
      · subst h
        exact hcall callee receiver args f _ heffect

/-- **A run agrees** if its first instruction overlooks the difference of the worlds, and if the
    call of this instruction agrees and the run after it. -/
theorem runs {p : Point} (hnatives : a.Natives m m') (hp : a.Overlooks p)
    (hcall : ∀ fuel callee receiver args f w, p.fuel = fuel + 1 →
      p.effect? = some (.call callee receiver args f, w) →
      a.Ends (m.callOnHeap (m.caller fuel) callee receiver args w)
        (m'.callOnHeap (m'.caller fuel) callee receiver args (a.world w)))
    (hnext : ∀ q, p.next? m = some q → a.Runs m m' q) : a.Runs m m' p := by
  obtain ⟨fuel, r, f, w⟩ := p
  cases fuel with
  | zero => exact .inl rfl
  | succ fuel =>
    have hstep := continues_step hnatives hp fun callee receiver args f w =>
      hcall fuel callee receiver args f w rfl
    have hnext' : ∀ f' w', m.step (m.caller fuel) r f w = (.going f', w') →
        a.Ends (m.run fuel r f' w') (m'.run fuel r f' (a.world w')) := by
      intro f' w' hgoing
      exact hnext ⟨fuel, r, f', w'⟩ (Point.next?_eq_some_iff.2 ⟨fuel, f', w', rfl, hgoing, rfl⟩)
    rw [Runs, Point.run_of_fuel rfl, Point.run_of_fuel rfl]
    generalize m.step (m.caller fuel) r f w = progress at hstep hnext'
    generalize m'.step (m'.caller fuel) r f (a.world w) = progress' at hstep
    obtain ⟨going, w'⟩ := progress
    rcases hstep with rfl | ⟨why, hspares, rfl⟩
    · cases going with
      | going f' => exact hnext' f' w' rfl
      | done result => exact .inl rfl
      | stopped why => exact .inl rfl
    · exact .inr ⟨why, hspares, rfl⟩

end Agreement

end Bytecode
