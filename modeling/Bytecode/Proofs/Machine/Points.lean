/-
  The points that a run goes through.

  A `Point` is a frame of a routine about to carry out an instruction, with the world as it is then
  and the fuel that is left.  It has up to two successors: the entry of the method that its
  instruction calls (`callee?`), and the point after the instruction (`next?`), which comes once
  that method has returned.  `Visits` are the points that are reached so, those in the methods that
  are called included; `visited` lists them.

  * `next?_of_callee?`: if the method that is called returns, the next point is in the frame that
    waited for it, with what was returned.
-/
import Bytecode.Proofs.Machine.Contract

namespace Bytecode

/-- A frame of a routine about to carry out an instruction. -/
structure Point where
  fuel : Nat
  routine : Routine
  frame : Frame
  world : World
  deriving DecidableEq, Repr

namespace Machine

/-- How calls are carried out on the fuel that is left. -/
def caller (m : Machine) (fuel : Nat) : Caller :=
  fun callee => m.invokeWith (m.run fuel) callee.className callee.name

/-- The world that a call of a method starts in. -/
def worldOfCall (m : Machine) (receiver : Option Value) (w : World) : World :=
  match m.policy, receiver with
  | .isolateStatic, none => { w with heap := .empty }
  | _, _ => w

/-- The world after a call: the caller's heap comes back if the call had one of its own. -/
def worldAfterCall (m : Machine) (receiver : Option Value) (w w' : World) : World :=
  match m.policy, receiver with
  | .isolateStatic, none => { w' with heap := w.heap }
  | _, _ => w'

theorem callOnHeap_eq (m : Machine) (call : Caller) (callee : MemberRef) (receiver : Option Value)
    (args : List Value) (w : World) :
    m.callOnHeap call callee receiver args w =
      let out := call callee receiver args (m.worldOfCall receiver w)
      (out.1, m.worldAfterCall receiver w out.2) := by
  obtain ⟨classes, natives, policy⟩ := m
  cases policy <;> cases receiver <;> rfl

/-- The first point of a method that is called, unless the call is refused. -/
def firstPoint? (m : Machine) (fuel : Nat) (className method : String) (given : List Value)
    (w : World) : Option Point :=
  match m.classes.get className, m.classes.findCode className method with
  | .ok c, .ok code =>
    if given.length ≤ code.maxLocals then
      some ⟨fuel, (code.entry c given).1, (code.entry c given).2,
        w.note (.entered className method)⟩
    else none
  | _, _ => none

variable {m : Machine} {fuel : Nat} {className method : String} {w : World} {p : Point}

theorem firstPoint?_eq_some_iff {given : List Value} :
    m.firstPoint? fuel className method given w = some p ↔
      ∃ c code, m.classes.get className = .ok c ∧ m.classes.findCode className method = .ok code ∧
        given.length ≤ code.maxLocals ∧ p = ⟨fuel, (code.entry c given).1, (code.entry c given).2,
          w.note (.entered className method)⟩ := by
  unfold firstPoint?
  constructor
  · intro h
    split at h
    · next c code hc hcode =>
      split at h
      · next hlen => exact ⟨c, code, hc, hcode, hlen, (Option.some.inj h).symm⟩
      · cases h
    · cases h
  · rintro ⟨c, code, hc, hcode, hlen, rfl⟩
    simp only [hc, hcode, if_pos hlen]

theorem invokeWith_of_firstPoint? {receiver : Option Value} {args : List Value}
    (h : m.firstPoint? fuel className method (receiver.toList ++ args) w = some p)
    (run : Routine → Frame → World → Result × World) :
    m.invokeWith run className method receiver args w =
      leave className method (run p.routine p.frame p.world) := by
  obtain ⟨c, code, hc, hcode, hlen, rfl⟩ := firstPoint?_eq_some_iff.1 h
  simp only [invokeWith, hc, hcode, if_neg (Nat.not_lt.2 hlen)]
  rfl

theorem fuel_of_firstPoint? {given : List Value}
    (h : m.firstPoint? fuel className method given w = some p) :
    p.fuel = fuel ∧ p.world = w.note (.entered className method) := by
  obtain ⟨c, code, -, -, -, rfl⟩ := firstPoint?_eq_some_iff.1 h
  exact ⟨rfl, rfl⟩

theorem step_of_fault {call : Caller} {r : Routine} {f : Frame} {d : Decoded} {next : Nat}
    {e : RunError} (hfetch : fetch r.code f.pc = .ok (d, next))
    (hperform : perform r w.heap d.start d.instruction { f with pc := next } = .error e) :
    m.step call r f w = (.stopped (.error e), noteFetch d f w) := by
  -- noting the fetch leaves the heap alone
  have hperform' : perform r (noteFetch d f w).heap d.start d.instruction { f with pc := next } =
      .error e := hperform
  simp only [step, hfetch, hperform']

theorem step_of_effect {call : Caller} {r : Routine} {f : Frame} {d : Decoded} {next : Nat}
    {effect : Effect} (hfetch : fetch r.code f.pc = .ok (d, next))
    (hperform : perform r w.heap d.start d.instruction { f with pc := next } = .ok effect) :
    m.step call r f w = m.settle call effect (noteFetch d f w) := by
  have hperform' : perform r (noteFetch d f w).heap d.start d.instruction { f with pc := next } =
      .ok effect := hperform
  simp only [step, hfetch, hperform']

end Machine

namespace Point

/-- The effect of the instruction at a point, with the world in which it is to be settled; nothing
    if the instruction fails. -/
def effect? (p : Point) : Option (Effect × World) :=
  match fetch p.routine.code p.frame.pc with
  | .error _ => none
  | .ok (d, next) =>
    match perform p.routine p.world.heap d.start d.instruction { p.frame with pc := next } with
    | .error _ => none
    | .ok effect => some (effect, Machine.noteFetch d p.frame p.world)

def next? (m : Machine) (p : Point) : Option Point :=
  match p.fuel with
  | 0 => none
  | fuel + 1 =>
    match m.step (m.caller fuel) p.routine p.frame p.world with
    | (.going f, w) => some ⟨fuel, p.routine, f, w⟩
    | _ => none

/-- The first point of the method that the instruction at a point calls. -/
def callee? (m : Machine) (p : Point) : Option Point :=
  match p.fuel, p.effect? with
  | fuel + 1, some (.call callee receiver args _, w) =>
    m.firstPoint? fuel callee.className callee.name (receiver.toList ++ args)
      (m.worldOfCall receiver w)
  | _, _ => none

def run (m : Machine) (p : Point) : Result × World :=
  m.run p.fuel p.routine p.frame p.world

/-- The points that a run from a point goes through, in this method and in those it calls. -/
inductive Visits (m : Machine) (p : Point) : Point → Prop
  | here : Visits m p p
  | next {q q' : Point} (h : Visits m p q) (hq : q.next? m = some q') : Visits m p q'
  | enter {q q' : Point} (h : Visits m p q) (hq : q.callee? m = some q') : Visits m p q'

/-- The points that can come right after a point: the entry of its callee and the next one. -/
def successors (m : Machine) (p : Point) : List Point :=
  (p.callee? m).toList ++ (p.next? m).toList

/-- Lists the points that a run from a point goes through, if it has less than `n` units of fuel. -/
def visited (m : Machine) : Nat → Point → List Point
  | 0, _ => []
  | n + 1, p => p :: (p.successors m).flatMap (visited m n)

/-- The point that is reached by a number of instructions of the same frame. -/
def after? (m : Machine) : Nat → Point → Option Point
  | 0, p => some p
  | n + 1, p => (p.after? m n).bind (·.next? m)

variable {m : Machine} {p q : Point}

theorem Visits.trans {q' : Point} (h : p.Visits m q) (h' : q.Visits m q') : p.Visits m q' := by
  induction h' with
  | here => exact h
  | next _ hq ih => exact ih.next hq
  | enter _ hq ih => exact ih.enter hq

theorem visits_of_mem_successors (h : q ∈ p.successors m) : p.Visits m q := by
  simp only [successors, List.mem_append, Option.mem_toList] at h
  rcases h with hcallee | hnext
  · exact .enter .here hcallee
  · exact .next .here hnext

theorem visits_of_after? {n : Nat} (h : p.after? m n = some q) : p.Visits m q := by
  induction n generalizing q with
  | zero =>
    obtain rfl := Option.some.inj h
    exact .here
  | succ n ih =>
    obtain ⟨q', hq', hq⟩ := Option.bind_eq_some_iff.1 h
    exact (ih hq').next hq

/-- The points after a point are itself and those after the next one. -/
theorem after?_of_next? (h : p.next? m = some q) (n : Nat) :
    p.after? m (n + 1) = q.after? m n := by
  induction n with
  | zero => exact h
  | succ n ih => rw [after?, ih, after?]

theorem effect?_eq_some_iff {effect : Effect} {w : World} :
    p.effect? = some (effect, w) ↔ ∃ d next, fetch p.routine.code p.frame.pc = .ok (d, next) ∧
      perform p.routine p.world.heap d.start d.instruction { p.frame with pc := next } =
        .ok effect ∧
      w = Machine.noteFetch d p.frame p.world := by
  unfold effect?
  constructor
  · intro h
    split at h
    · cases h
    · next d next hfetch =>
      split at h
      · cases h
      · next effect' hperform =>
        obtain ⟨rfl, rfl⟩ := Prod.mk.inj (Option.some.inj h)
        exact ⟨d, next, hfetch, hperform, rfl⟩
  · rintro ⟨d, next, hfetch, hperform, rfl⟩
    simp only [hfetch, hperform]

theorem step_of_effect? {effect : Effect} {w : World} (call : Caller)
    (h : p.effect? = some (effect, w)) :
    m.step call p.routine p.frame p.world = m.settle call effect w := by
  obtain ⟨d, next, hfetch, hperform, rfl⟩ := effect?_eq_some_iff.1 h
  exact Machine.step_of_effect hfetch hperform

theorem next?_eq_some_iff :
    p.next? m = some q ↔ ∃ fuel f w, p.fuel = fuel + 1 ∧
      m.step (m.caller fuel) p.routine p.frame p.world = (.going f, w) ∧
      q = ⟨fuel, p.routine, f, w⟩ := by
  unfold next?
  constructor
  · intro h
    split at h
    · cases h
    · next fuel hfuel =>
      split at h
      · next f w hstep => exact ⟨fuel, f, w, hfuel, hstep, (Option.some.inj h).symm⟩
      · cases h
  · rintro ⟨fuel, f, w, hfuel, hstep, rfl⟩
    simp only [hfuel, hstep]

theorem callee?_eq_some_iff :
    p.callee? m = some q ↔ ∃ fuel callee receiver args f w, p.fuel = fuel + 1 ∧
      p.effect? = some (.call callee receiver args f, w) ∧
      m.firstPoint? fuel callee.className callee.name (receiver.toList ++ args)
        (m.worldOfCall receiver w) = some q := by
  unfold callee?
  constructor
  · intro h
    split at h
    · next fuel callee receiver args f w hfuel heffect =>
      exact ⟨fuel, callee, receiver, args, f, w, hfuel, heffect, h⟩
    · cases h
  · rintro ⟨fuel, callee, receiver, args, f, w, hfuel, heffect, h⟩
    simp only [hfuel, heffect, h]

theorem firstPoint?_of_callee? {callee : MemberRef} {receiver : Option Value} {args : List Value}
    {f : Frame} {w : World} (hq : p.callee? m = some q)
    (heffect : p.effect? = some (.call callee receiver args f, w)) :
    p.fuel = q.fuel + 1 ∧ m.firstPoint? q.fuel callee.className callee.name
      (receiver.toList ++ args) (m.worldOfCall receiver w) = some q := by
  obtain ⟨fuel, callee', receiver', args', f', w', hfuel, heffect', hfirst⟩ :=
    callee?_eq_some_iff.1 hq
  obtain ⟨heq, rfl⟩ := Prod.mk.inj (Option.some.inj (heffect'.symm.trans heffect))
  obtain ⟨rfl, rfl, rfl, rfl⟩ := Effect.call.inj heq
  obtain ⟨rfl, -⟩ := Machine.fuel_of_firstPoint? hfirst
  exact ⟨hfuel, hfirst⟩

theorem fuel_of_mem_successors (h : q ∈ p.successors m) : p.fuel = q.fuel + 1 := by
  simp only [successors, List.mem_append, Option.mem_toList] at h
  rcases h with hcallee | hnext
  · obtain ⟨fuel, _, _, _, _, _, hfuel, -, hfirst⟩ := callee?_eq_some_iff.1 hcallee
    rw [hfuel, (Machine.fuel_of_firstPoint? hfirst).1]
  · obtain ⟨fuel, _, _, hfuel, -, rfl⟩ := next?_eq_some_iff.1 hnext
    exact hfuel

theorem callee_mem_successors (h : p.callee? m = some q) : q ∈ p.successors m :=
  List.mem_append_left _ (Option.mem_toList.2 h)

theorem next_mem_successors (h : p.next? m = some q) : q ∈ p.successors m :=
  List.mem_append_right _ (Option.mem_toList.2 h)

theorem Visits.fuel_le (h : p.Visits m q) : q.fuel ≤ p.fuel := by
  induction h with
  | here => exact Nat.le_refl _
  | next _ hq ih =>
    have := fuel_of_mem_successors (next_mem_successors hq)
    omega
  | enter _ hq ih =>
    have := fuel_of_mem_successors (callee_mem_successors hq)
    omega

/-- What holds of a point if it holds of those that come right after it holds of every point. -/
theorem induction {motive : Point → Prop} (m : Machine)
    (h : ∀ p : Point, (∀ q ∈ p.successors m, motive q) → motive p) (p : Point) : motive p := by
  generalize hfuel : p.fuel = fuel
  induction fuel generalizing p with
  | zero =>
    refine h p fun q hq => ?_
    have := fuel_of_mem_successors hq
    omega
  | succ fuel ih =>
    refine h p fun q hq => ih q ?_
    have := fuel_of_mem_successors hq
    omega

theorem self_mem_visited {n : Nat} (hn : p.fuel < n) : p ∈ visited m n p := by
  obtain ⟨k, rfl⟩ := Nat.exists_eq_succ_of_ne_zero (Nat.ne_of_gt (Nat.zero_lt_of_lt hn))
  exact List.mem_cons_self

theorem mem_visited_of_successor {n : Nat} {q' : Point} (hn : p.fuel < n)
    (hq : q ∈ visited m n p) (hq' : q' ∈ q.successors m) : q' ∈ visited m n p := by
  induction n generalizing p with
  | zero => cases hq
  | succ n ih =>
    rw [visited, List.mem_cons, List.mem_flatMap] at hq ⊢
    right
    rcases hq with rfl | ⟨s, hs, hq⟩
    · have hfuel := fuel_of_mem_successors hq'
      exact ⟨q', hq', self_mem_visited (by omega)⟩
    · have hfuel := fuel_of_mem_successors hs
      exact ⟨s, hs, ih (by omega) hq⟩

theorem Visits.mem_visited {n : Nat} (h : p.Visits m q) (hn : p.fuel < n) : q ∈ visited m n p := by
  induction h with
  | here => exact self_mem_visited hn
  | next _ hq ih => exact mem_visited_of_successor hn ih (next_mem_successors hq)
  | enter _ hq ih => exact mem_visited_of_successor hn ih (callee_mem_successors hq)

theorem run_of_fuel {fuel : Nat} (hfuel : p.fuel = fuel + 1) :
    p.run m = match m.step (m.caller fuel) p.routine p.frame p.world with
      | (.going f, w) => m.run fuel p.routine f w
      | (.done result, w) => (.ok result, w)
      | (.stopped why, w) => (.error why, w) := by
  rw [run, hfuel]
  rfl

/-- Running from a point is running from the next one. -/
theorem run_of_next? (h : p.next? m = some q) : p.run m = q.run m := by
  obtain ⟨fuel, f, w, hfuel, hstep, rfl⟩ := next?_eq_some_iff.1 h
  rw [run_of_fuel hfuel, hstep]
  rfl

/-- A run of a method without arguments is a run from its first point, on an empty heap. -/
theorem runMethod_of_firstPoint? {fuel : Nat} {className method : String} {w : World}
    (h : m.firstPoint? fuel className method [] { w with heap := .empty } = some p) :
    (m.runMethod fuel className method w).1 = (p.run m).1 := by
  have hinvoke : m.invoke fuel className method none [] { w with heap := .empty } =
      Machine.leave className method (m.run fuel p.routine p.frame p.world) :=
    Machine.invokeWith_of_firstPoint? h (m.run fuel)
  obtain ⟨rfl, -⟩ := Machine.fuel_of_firstPoint? h
  have hresult : (m.runMethod p.fuel className method w).1 =
      (m.invoke p.fuel className method none [] { w with heap := .empty }).1 := rfl
  rw [hresult, hinvoke, run]
  rcases m.run p.fuel p.routine p.frame p.world with ⟨_ | _, _⟩ <;> rfl

/-- If the method that is called returns, the frame that waited for it goes on. -/
theorem next?_of_callee? {callee : MemberRef} {receiver : Option Value} {args : List Value}
    {f : Frame} {w w' : World} {result : Option Value} (hq : p.callee? m = some q)
    (heffect : p.effect? = some (.call callee receiver args f, w))
    (hrun : q.run m = (.ok result, w')) :
    p.next? m = some ⟨q.fuel, p.routine, f.pushResult result, m.worldAfterCall receiver w
      (w'.note (.exited callee.className callee.name result))⟩ := by
  obtain ⟨hfuel, hfirst⟩ := firstPoint?_of_callee? hq heffect
  refine next?_eq_some_iff.2 ⟨q.fuel, _, _, hfuel, ?_, rfl⟩
  have hrun' : m.run q.fuel q.routine q.frame q.world = (.ok result, w') := hrun
  have hcall := Machine.invokeWith_of_firstPoint? hfirst (m.run q.fuel)
  rw [hrun'] at hcall
  rw [step_of_effect? _ heffect, Machine.settle, Machine.callOnHeap_eq]
  simp only [Machine.caller, hcall]
  rfl

end Point

namespace Contract.Sound

variable {k : Contract} {m : Machine}

/-- The calls of a machine keep a contract that is sound for it. -/
theorem honours (h : k.Sound m) (fuel : Nat) : k.Honours (m.caller fuel) :=
  fun callee _ _ _ hgiven => h.invokeWith (h.run fuel) callee.className callee.name hgiven

/-- From one point of a frame to the next a sound contract is kept. -/
theorem next? (h : k.Sound m) {p q : Point} (hq : p.next? m = some q)
    (hp : k.Fits p.routine p.frame p.world) :
    k.Evolves p.world q.world ∧ k.Fits q.routine q.frame q.world := by
  obtain ⟨fuel, f, w, -, hstep, rfl⟩ := Point.next?_eq_some_iff.1 hq
  have hcontinues := h.step (h.honours fuel) hp
  rw [hstep] at hcontinues
  exact hcontinues

end Contract.Sound

end Bytecode
