/-
  Heights of the operand stack.

  Every instruction but a call takes a fixed number of operands and puts a fixed number of values in
  their place.  So heights of the stack can be given to offsets of the code and checked there,
  instruction by instruction, without running it: `Heights`.

  * `Heights.step`: from one instruction to the next, the stack has the height given to the offset;
    hence at all points that are visited (`Heights.of_visits`).
-/
import Bytecode.Proofs.Machine.Blame
import Bytecode.Proofs.Machine.Fetches

namespace Bytecode

/-! ## Operands -/

def RunError.NotUnderflow : RunError → Prop
  | .stackUnderflow _ => False
  | _ => True

/-- The effect is one without a call; if the frame goes on, then with so many operands. -/
def Effect.Leaves (height : Nat) : Effect → Prop
  | .advance g | .branch g | .update g _ => g.stack.length = height
  | .finish _ => True
  | .native _ _ _ | .skip _ _ | .call _ _ _ _ => False

/-- **An instruction that has its operands does not miss one**, and leaves what it puts in their
    place. -/
theorem perform_operands {r : Routine} {heap : Heap} {offset n pops pushes : Nat}
    {i : Instruction} {f : Frame} (hi : i.operands? = some (pops, pushes))
    (hf : f.stack.length = n + pops) :
    (perform r heap offset i f).Ensures RunError.NotUnderflow (Effect.Leaves (n + pushes)) := by
  refine .intro (fun e he => ?_) fun effect heffect => ?_
  · cases perform_moves.error he with
    | underflow hexceeds =>
      have hlt : f.stack.length < pops := by simpa [Instruction.exceeds, hi] using hexceeds
      omega
    | _ => trivial
  · have hleaves : ∀ g, effect.frame? = some g → g.stack.length = n + pushes := by
      intro g hg
      have hheight := (perform_moves.ok heffect g hg).height
      simp only [Instruction.Trades, hi] at hheight
      omega
    have hcall : effect.isCall = false := by
      refine Bool.eq_false_iff.2 fun hcall => ?_
      rw [perform_isCall heffect hcall] at hi
      cases hi
    cases effect with
    | advance g | branch g | update g _ => exact hleaves g rfl
    | finish _ => trivial
    | native _ _ _ | skip _ _ | call _ _ _ _ => cases hcall

/-! ## Heights given to code -/

/-- Heights of the stack given to some offsets of the code, 0 among them, where the stack is empty.
    The instruction at such an offset is no call and has its operands, and what it leaves is the
    height given to every offset at which the method can go on. -/
structure Heights (code : Octets) (height : Nat → Option Nat) : Prop where
  start : height 0 = some 0
  each : EachInstruction code fun pc i next => ∀ n ∈ height pc, ∃ x ∈ i.operands?,
    x.1 ≤ n ∧ ∀ target, i.GoesTo code pc next target → height target = some (n - x.1 + x.2)

instance (code : Octets) (height : Nat → Option Nat) : Decidable (Heights code height) :=
  decidable_of_iff (_ ∧ _) ⟨fun h => Heights.mk h.1 h.2, fun h => ⟨h.start, h.each⟩⟩

/-- The stack of the frame is as high as its offset says. -/
def Frame.Level (height : Nat → Option Nat) (f : Frame) : Prop :=
  height f.pc = some f.stack.length

theorem Effect.Leaves.settle {m : Machine} {call : Caller} {effect : Effect} {n : Nat}
    {f' : Frame} {w w' : World} (h : effect.Leaves n)
    (hsettle : m.settle call effect w = (.going f', w')) :
    effect.frame? = some f' ∧ f'.stack.length = n := by
  cases effect with
  | advance g | branch g | update g heap =>
    obtain rfl := Progress.going.inj (Prod.mk.inj hsettle).1
    exact ⟨rfl, h⟩
  | finish result => cases hsettle
  | native key args g | skip callee g | call callee receiver args g => exact h.elim

namespace Heights

variable {m : Machine} {height : Nat → Option Nat} {r : Routine} {f : Frame}

/-- The instruction at a frame of the right height has its operands, and leaves the height at which
    the method goes on. -/
theorem perform_leaves (h : Heights r.code height) (hf : f.Level height) {d : Decoded} {next : Nat}
    (hfetch : fetch r.code f.pc = .ok (d, next)) (heap : Heap) :
    ∃ n, (∀ target, d.instruction.GoesTo r.code d.start next target → height target = some n) ∧
      (perform r heap d.start d.instruction { f with pc := next }).Ensures RunError.NotUnderflow
        (Effect.Leaves n) := by
  obtain ⟨⟨pops, pushes⟩, hi, hpops, htargets⟩ := h.each _ _ _ (decodes_of_fetch hfetch) _ hf
  rw [start_of_fetch hfetch]
  exact ⟨_, htargets, perform_operands hi (Nat.sub_add_cancel hpops).symm⟩

/-- **From one instruction to the next** the stack has the height that the code was given. -/
theorem step (h : Heights r.code height) (hf : f.Level height) {call : Caller} {f' : Frame}
    {w w' : World} (hstep : m.step call r f w = (.going f', w')) : f'.Level height := by
  obtain ⟨d, next, effect, -, -, hfetch, hperform, -, -⟩ := Machine.step_going hstep
  obtain ⟨n, htargets, heffect⟩ := h.perform_leaves hf hfetch w.heap
  rw [Machine.step_of_effect hfetch hperform] at hstep
  obtain ⟨hframe, hlength⟩ := (heffect.ok hperform).settle hstep
  rw [Frame.Level, hlength]
  exact htargets _ (perform_goesTo hperform hframe)

variable {p q : Point}

theorem effect?_leaves (h : Heights p.routine.code height) (hp : p.frame.Level height)
    {effect : Effect} {w : World} (heffect : p.effect? = some (effect, w)) :
    ∃ n, effect.Leaves n := by
  obtain ⟨d, next, hfetch, hperform, -⟩ := Point.effect?_eq_some_iff.1 heffect
  obtain ⟨n, -, hn⟩ := h.perform_leaves hp hfetch p.world.heap
  exact ⟨n, hn.ok hperform⟩

/-- **At all the points of a run** the stack is as high as the offset says. -/
theorem of_visits (h : Heights p.routine.code height) (hp : p.frame.Level height)
    (hvisits : p.Visits m q) : q.routine = p.routine ∧ q.frame.Level height := by
  induction hvisits with
  | here => exact ⟨rfl, hp⟩
  | next _ hq ih =>
    obtain ⟨hroutine, hlevel⟩ := ih
    obtain ⟨fuel, f, w, -, hstep, rfl⟩ := Point.next?_eq_some_iff.1 hq
    exact ⟨hroutine, step (hroutine ▸ h) hlevel hstep⟩
  | enter _ hq ih =>
    obtain ⟨hroutine, hlevel⟩ := ih
    obtain ⟨_, _, _, _, _, _, -, heffect, -⟩ := Point.callee?_eq_some_iff.1 hq
    obtain ⟨n, hn⟩ := effect?_leaves (hroutine ▸ h) hlevel heffect
    exact hn.elim

/-- At such a point no operand is missing. -/
theorem notUnderflow (h : Heights p.routine.code height) (hp : p.frame.Level height)
    {e : RunError} (hraises : p.Raises m e) : e.NotUnderflow := by
  cases hraises with
  | fetch hfetch => obtain rfl | ⟨_, rfl⟩ := fetch_error hfetch <;> trivial
  | fault hfetch hfault =>
    obtain ⟨n, -, hn⟩ := h.perform_leaves hp hfetch p.world.heap
    exact hn.error hfault
  | missing => trivial
  | host heffect =>
    obtain ⟨n, hn⟩ := effect?_leaves h hp heffect
    exact hn.elim
  | refused _ hrefusal => cases hrefusal <;> trivial

end Heights

namespace Machine

/-- **Stack heights follow the instructions**: if the heights given to code are right instruction by
    instruction, then every run of the code stays where heights are given, whenever it fetches the
    stack has the height given there, and no operand is ever missing. -/
theorem execute_heights (m : Machine) {code : Octets} {height : Nat → Option Nat}
    (h : Heights code height) (fuel : Nat) (className : String) (locals : List Value) (w : World) :
    (∀ pool p, Point.Visits m ⟨fuel, ⟨pool, code⟩, .start locals, w⟩ p → p.frame.Level height) ∧
    let out := m.execute fuel className code locals w
    w.FetchesOnly (Frame.Level height) out.2 ∧
      ∀ offset, out.1 ≠ .error (.error (.stackUnderflow offset)) := by
  have hlevel : ∀ pool p, Point.Visits m ⟨fuel, ⟨pool, code⟩, .start locals, w⟩ p →
      p.routine = ⟨pool, code⟩ ∧ p.frame.Level height :=
    fun pool p hvisits =>
      Heights.of_visits (p := ⟨fuel, ⟨pool, code⟩, .start locals, w⟩) h h.start hvisits
  refine ⟨fun pool p hvisits => (hlevel pool p hvisits).2, ?_⟩
  unfold execute
  cases hc : m.classes.get className with
  | error e =>
    refine ⟨.of_eq rfl, ?_⟩
    rintro offset ⟨⟩
    cases (m.classes.get_refusal className).error hc
  | ok c =>
    constructor
    · refine (Point.run_fetchesOnly m ⟨fuel, ⟨c.pool, code⟩, .start locals, w⟩).imp ?_
      rintro _ ⟨p, hvisits, rfl⟩
      exact (hlevel c.pool p hvisits).2
    · intro offset hrun
      obtain ⟨p, hvisits, hraises⟩ :=
        Point.raised_of_run (p := ⟨fuel, ⟨c.pool, code⟩, .start locals, w⟩) hrun
      obtain ⟨hroutine, hp⟩ := hlevel c.pool p hvisits
      exact Heights.notUnderflow (hroutine ▸ h) hp hraises

def plain : Machine :=
  ⟨⟨[("A", (Assembly.build "A" []).2)]⟩, .empty, .isolateStatic⟩

/-- Counts down from three in a loop at 5, whose first instruction is an operand of the one at 3. -/
def descending : Octets :=
  [0xa7, 0, 4, 0x11, 0x06, 0x04, 0x64, 0x59, 0x9a, 0xff, 0xfd, 0xac]

/-- The heights of its stack; none is given to the instruction at 3. -/
def heightOf (pc : Nat) : Option Nat :=
  [(0, 0), (4, 0), (5, 1), (6, 2), (7, 1), (8, 2), (11, 1)].lookup pc

/-- The loop is entered and repeated with one operand, which it returns. -/
theorem execute_heights_descending :
    Heights descending heightOf ∧
    (plain.execute 20 "A" descending [] .start).1.toOption = some (some (.int 0)) ∧
    (∀ pool p, Point.Visits plain ⟨20, ⟨pool, descending⟩, .start [], .start⟩ p →
      p.frame.Level heightOf) ∧
    let out := plain.execute 20 "A" descending [] .start
    World.start.FetchesOnly (Frame.Level heightOf) out.2 ∧
      ∀ offset, out.1 ≠ .error (.error (.stackUnderflow offset)) :=
  have h : Heights descending heightOf := by decide +kernel
  ⟨h, by decide +kernel, plain.execute_heights h 20 "A" [] .start⟩

end Machine

end Bytecode
