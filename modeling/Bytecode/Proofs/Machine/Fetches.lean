/-
  What a run fetches.

  The history of a run tells in which frames instructions were fetched.  Nothing but a fetch adds to
  these frames, so they are those of the points that the run visits, up to the one at which it
  stops.

  * `World.FetchesOnly P`: from a world to a later one, instructions were fetched in frames with the
    property `P` only.
-/
import Bytecode.Proofs.Machine.Paths

namespace Bytecode

namespace World

/-- An event that tells nothing of local slots is not part of a fetch. -/
theorem frames_note {e : Event} (h : ∀ values, e ≠ .locals values) (w : World) :
    (w.note e).frames = w.frames := by
  cases e with
  | locals values => exact absurd rfl (h values)
  | _ => rfl

theorem frames_worldOfCall (m : Machine) (receiver : Option Value) (w : World) :
    (m.worldOfCall receiver w).frames = w.frames := by
  unfold Machine.worldOfCall
  split <;> rfl

theorem frames_worldAfterCall (m : Machine) (receiver : Option Value) (w w' : World) :
    (m.worldAfterCall receiver w w').frames = w'.frames := by
  unfold Machine.worldAfterCall
  split <;> rfl

/-- Between two worlds, instructions were fetched only in frames with the property `P`. -/
def FetchesOnly (P : Frame → Prop) (w w' : World) : Prop :=
  ∃ fs, w'.frames = w.frames ++ fs ∧ ∀ f ∈ fs, P f

namespace FetchesOnly

variable {P Q : Frame → Prop} {w w' w'' : World}

theorem of_eq (h : w'.frames = w.frames) : FetchesOnly P w w' :=
  ⟨[], h.trans (List.append_nil _).symm, fun _ hf => absurd hf List.not_mem_nil⟩

theorem single {f : Frame} (h : w'.frames = w.frames ++ [f]) (hf : P f) : FetchesOnly P w w' :=
  ⟨[f], h, fun _ hg => List.mem_singleton.1 hg ▸ hf⟩

theorem trans (h : FetchesOnly P w w') (h' : FetchesOnly P w' w'') : FetchesOnly P w w'' := by
  obtain ⟨fs, hfs, hP⟩ := h
  obtain ⟨gs, hgs, hP'⟩ := h'
  refine ⟨fs ++ gs, by rw [hgs, hfs, List.append_assoc], fun f hf => ?_⟩
  exact (List.mem_append.1 hf).elim (hP f) (hP' f)

theorem imp (h : FetchesOnly P w w') (hPQ : ∀ f, P f → Q f) : FetchesOnly Q w w' := by
  obtain ⟨fs, hfs, hP⟩ := h
  exact ⟨fs, hfs, fun f hf => hPQ f (hP f hf)⟩

end FetchesOnly

end World

namespace Machine

variable {m : Machine}

theorem callNative_returns (m : Machine) (key : NativeKey) (args : List Value) (w : World) :
    (m.callNative key args w).2.frames = w.frames ∧
      (m.callNative key args w).1 ≠ .error .outOfFuel := by
  have hnative : (w.note (.native key)).frames = w.frames := w.frames_note (by simp)
  unfold callNative
  cases m.natives.get? key with
  | none => exact ⟨hnative, by simp⟩
  | some host =>
    refine ⟨(World.frames_note (by simp) _).trans hnative, fun h => ?_⟩
    obtain ⟨e, -, he⟩ := Except.mapError_eq_error_iff.1 h
    cases he

/-- Effects other than calls of methods fetch nothing, and they are settled on any fuel. -/
theorem settle_of_not_call (m : Machine) (call : Caller) {effect : Effect}
    (h : ∀ callee receiver args g, effect ≠ .call callee receiver args g) (w : World) :
    (m.settle call effect w).2.frames = w.frames ∧
      (m.settle call effect w).1 ≠ .stopped .outOfFuel := by
  cases effect with
  | advance g | update g heap | finish result => exact ⟨rfl, by simp [settle]⟩
  | branch g | skip callee g => exact ⟨w.frames_note (by simp), by simp [settle]⟩
  | native key args g =>
    obtain ⟨hframes, hreturns⟩ := m.callNative_returns key args w
    rw [settle]
    generalize m.callNative key args w = out at hframes hreturns
    obtain ⟨why | result, w'⟩ := out
    · exact ⟨hframes, fun hstop => hreturns (congrArg Except.error (Progress.stopped.inj hstop))⟩
    · exact ⟨hframes, by simp [resume]⟩
  | call callee receiver args g => exact absurd rfl (h callee receiver args g)

theorem resume_world (f : Frame) (out : Result × World) : (resume f out).2 = out.2 := by
  obtain ⟨why | result, w⟩ := out <;> rfl

theorem invoke_fetchesOnly {P : Frame → Prop} {fuel : Nat} {className method : String}
    {receiver : Option Value} {args : List Value} {w : World}
    (h : ∀ q, m.firstPoint? fuel className method (receiver.toList ++ args) w = some q →
      q.world.FetchesOnly P (q.run m).2) :
    w.FetchesOnly P (m.invokeWith (m.run fuel) className method receiver args w).2 := by
  rcases m.invokeWith_cases (m.run fuel) className method receiver args w with
    ⟨e, -, heq⟩ | ⟨c, code, hc, hcode, hlen, heq⟩
  · rw [heq]
    exact .of_eq rfl
  · have hrun := h _ (firstPoint?_eq_some_iff.2 ⟨c, code, hc, hcode, hlen, rfl⟩)
    rw [heq]
    have hentered : w.FetchesOnly P (w.note (.entered className method)) :=
      .of_eq (w.frames_note (by simp))
    refine hentered.trans ?_
    unfold Point.run at hrun
    dsimp only at hrun
    generalize m.run fuel _ _ _ = out at hrun ⊢
    obtain ⟨why | result, w'⟩ := out
    · exact hrun
    · exact hrun.trans (.of_eq (World.frames_note (by simp) w'))

end Machine

namespace Point

variable {m : Machine} {p : Point}

theorem step_fetchesOnly {P : Frame → Prop} {fuel : Nat} (hfuel : p.fuel = fuel + 1)
    (hp : P p.frame) (hcallee : ∀ q, p.callee? m = some q → q.world.FetchesOnly P (q.run m).2) :
    p.world.FetchesOnly P (m.step (m.caller fuel) p.routine p.frame p.world).2 := by
  cases hfetch : fetch p.routine.code p.frame.pc with
  | error e =>
    simp only [Machine.step, hfetch]
    exact .of_eq rfl
  | ok decoded =>
    obtain ⟨d, next⟩ := decoded
    have hfetched := World.FetchesOnly.single
      (p.world.frames_noteFetch d p.frame (start_of_fetch hfetch)) hp
    cases hperform : perform p.routine p.world.heap d.start d.instruction
        { p.frame with pc := next } with
    | error e =>
      rw [Machine.step_of_fault hfetch hperform]
      exact hfetched
    | ok effect =>
      rw [Machine.step_of_effect hfetch hperform]
      refine hfetched.trans ?_
      cases effect with
      | call callee receiver args g =>
        have heffect := effect?_eq_some_iff.2 ⟨d, next, hfetch, hperform, rfl⟩
        rw [Machine.settle, Machine.resume_world, Machine.callOnHeap_eq]
        refine .trans (.of_eq (World.frames_worldOfCall m receiver _))
          (.trans (Machine.invoke_fetchesOnly fun q hq => hcallee q ?_)
            (.of_eq (World.frames_worldAfterCall m receiver _ _)))
        exact callee?_eq_some_iff.2 ⟨fuel, callee, receiver, args, g, _, hfuel, heffect, hq⟩
      | _ => exact .of_eq (m.settle_of_not_call _ (by simp) _).1

/-- **A run fetches in frames of the points that it visits.** -/
theorem run_fetchesOnly (m : Machine) (p : Point) :
    p.world.FetchesOnly (fun f => ∃ q, p.Visits m q ∧ q.frame = f) (p.run m).2 := by
  induction p using Point.induction m with
  | h p ih =>
    have hafter : ∀ q ∈ p.successors m,
        q.world.FetchesOnly (fun f => ∃ q, p.Visits m q ∧ q.frame = f) (q.run m).2 := by
      intro q hq
      refine (ih q hq).imp ?_
      rintro f ⟨q', hvisits, hframe⟩
      exact ⟨q', (visits_of_mem_successors hq).trans hvisits, hframe⟩
    cases hfuel : p.fuel with
    | zero =>
      rw [run, hfuel]
      exact .of_eq rfl
    | succ fuel =>
      have hstep := step_fetchesOnly (m := m) hfuel ⟨p, .here, rfl⟩
        fun q hq => hafter q (callee_mem_successors hq)
      cases hgoing : m.step (m.caller fuel) p.routine p.frame p.world with
      | mk progress w =>
        rw [hgoing] at hstep
        cases progress with
        | going f =>
          have hnext := next?_eq_some_iff.2 ⟨fuel, f, w, hfuel, hgoing, rfl⟩
          rw [run_of_next? hnext]
          exact hstep.trans (hafter _ (next_mem_successors hnext))
        | done result =>
          rw [run_of_fuel hfuel, hgoing]
          exact hstep
        | stopped why =>
          rw [run_of_fuel hfuel, hgoing]
          exact hstep

end Point

end Bytecode
