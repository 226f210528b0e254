/-
  Logs are properly nested.

  The log of a call is the line that says that the method is entered, then what its instructions log
  one after the other, then, if the method returns, the line that says that it is left.  An
  instruction logs itself and possibly one more item: that it jumps, calls a host method or leaves
  out a constructor, or the whole log of the method that it calls.  A call that fails logs nothing
  if the method is not entered; else its log is the one of a call that returns up to where it fails,
  which may be within the log of a method that it calls.

  * `Log.Returned`, `Log.Broken`: the logs of the calls that return and of those that do not, once
    they have been entered.
-/
import Bytecode.Proofs.Machine.Fetches

namespace Bytecode

/-- The log of what has happened, with the detail of debugging. -/
def World.log (w : World) : List String :=
  logLines .debug w.events

def Machine.stop? : Result → Option Stop
  | .ok _ => none
  | .error why => some why

/-- Why a run stops after an instruction, if it does. -/
def Progress.stop? : Progress → Option Stop
  | .going _ | .done _ => none
  | .stopped why => some why

/-- In the frame that starts at a point, a method is called, and `q` is its first point. -/
def Point.Calls (m : Machine) (start : Point) (callee : MemberRef) (q : Point) : Prop :=
  ∃ k p receiver args f w, start.after? m k = some p ∧
    p.effect? = some (.call callee receiver args f, w) ∧ p.callee? m = some q

namespace Log

def line (message : String) : String :=
  Level.debug.name ++ " " ++ message

def enter (className method : String) : String :=
  line s!"enter {className}.{method}"

/-- The line for leaving a method, with the value that it returns if it returns one. -/
def exit (className method : String) : Option Value → String
  | none => line s!"exit {className}.{method}"
  | some v => line s!"exit {className}.{method} -> {v.text}"

mutual

/-- What is logged at once in the frame that starts at a point. -/
inductive Item (m : Machine) : Point → List String → Prop
  | instruction {start p : Point} {k next : Nat} {d : Decoded} (hp : start.after? m k = some p)
      (h : fetch p.routine.code p.frame.pc = .ok (d, next)) :
      Item m start [line (Column.alignRight 5 (toString p.frame.pc) ++ ": " ++ d.mnemonic)]
  | jump {start p : Point} {k : Nat} {f : Frame} {w : World} (hp : start.after? m k = some p)
      (h : p.effect? = some (.branch f, w)) : Item m start [line s!"jump to {f.pc}"]
  | native {start p : Point} {k : Nat} {key : NativeKey} {args : List Value} {f : Frame} {w : World}
      (hp : start.after? m k = some p) (h : p.effect? = some (.native key args f, w)) :
      Item m start [line s!"native {key.text}"]
  | skipping {start p : Point} {k : Nat} {callee : MemberRef} {f : Frame} {w : World}
      (hp : start.after? m k = some p) (h : p.effect? = some (.skip callee f, w)) :
      Item m start [line s!"skipping {callee.text}"]
  | call {start q : Point} {callee : MemberRef} {result : Option Value} {lines : List String}
      (hcalls : start.Calls m callee q)
      (h : Returned m q callee.className callee.name result lines) : Item m start lines

/-- The log of a call that returns; the run of the method starts at the point `q`. -/
inductive Returned (m : Machine) : Point → String → String → Option Value → List String → Prop
  | mk {q : Point} (className method : String) {result : Option Value} {w : World}
      {items : List (List String)} (hrun : q.run m = (.ok result, w))
      (hlog : w.log = q.world.log ++ items.flatten) (hitems : ∀ item ∈ items, Item m q item) :
      Returned m q className method result
        (enter className method :: (items.flatten ++ [exit className method result]))

end

/-- The log of a call that is entered and does not return.  It fails by itself, or a method that it
    calls is entered and fails. -/
inductive Broken (m : Machine) : Point → String → String → Stop → List String → Prop
  | here {q : Point} (className method : String) {why : Stop} {w : World}
      {items : List (List String)} (hrun : q.run m = (.error why, w))
      (hlog : w.log = q.world.log ++ items.flatten) (hitems : ∀ item ∈ items, Item m q item) :
      Broken m q className method why (enter className method :: items.flatten)
  | nested {q q' : Point} (className method : String) {callee : MemberRef} {why : Stop} {w : World}
      {items : List (List String)} {last : List String} (hrun : q.run m = (.error why, w))
      (hlog : w.log = q.world.log ++ (items.flatten ++ last))
      (hitems : ∀ item ∈ items, Item m q item) (hcalls : q.Calls m callee q')
      (h : Broken m q' callee.className callee.name why last) :
      Broken m q className method why (enter className method :: (items.flatten ++ last))

end Log

/-! ## Single events -/

namespace World

theorem log_note (w : World) (e : Event) : (w.note e).log = w.log ++ (e.line? .debug).toList := by
  simp only [log, logLines, events, note, List.reverse_cons, List.filterMap_append]
  cases h : e.line? .debug <;> simp [h]

theorem log_entered (w : World) (className method : String) :
    (w.note (.entered className method)).log = w.log ++ [Log.enter className method] :=
  w.log_note _

theorem log_exited (w : World) (className method : String) (result : Option Value) :
    (w.note (.exited className method result)).log =
      w.log ++ [Log.exit className method result] := by
  cases result <;> exact w.log_note _

/-- A fetch is one line; stack and local slots are left to a log of more detail. -/
theorem log_noteFetch (d : Decoded) (f : Frame) (w : World) :
    (Machine.noteFetch d f w).log =
      w.log ++ [Log.line (Column.alignRight 5 (toString d.start) ++ ": " ++ d.mnemonic)] := by
  have hstack : (Event.stack f.stack.reverse).line? .debug = none := rfl
  have hlocals : (Event.locals f.locals).line? .debug = none := rfl
  rw [Machine.noteFetch, log_note, log_note, log_note, hstack, hlocals]
  simp only [Option.toList_none, List.append_nil]
  rfl

theorem log_worldOfCall (m : Machine) (receiver : Option Value) (w : World) :
    (m.worldOfCall receiver w).log = w.log := by
  unfold Machine.worldOfCall
  split <;> rfl

theorem log_worldAfterCall (m : Machine) (receiver : Option Value) (w w' : World) :
    (m.worldAfterCall receiver w w').log = w'.log := by
  unfold Machine.worldAfterCall
  split <;> rfl

end World

/-- The call of a host method is one line, however it ends. -/
theorem Machine.log_callNative (m : Machine) (key : NativeKey) (args : List Value) (w : World) :
    (m.callNative key args w).2.log = w.log ++ [Log.line s!"native {key.text}"] := by
  have hnative : (w.note (.native key)).log = w.log ++ [Log.line s!"native {key.text}"] :=
    w.log_note _
  unfold callNative
  cases m.natives.get? key with
  | none => exact hnative
  | some host =>
    have hcalled : (Event.called key args).line? .debug = none := rfl
    dsimp only
    rw [World.log_note, hcalled, hnative, Option.toList_none, List.append_nil]

/-! ## Calls -/

namespace Machine

/-- Why a call is refused: the code is not found, or the method has too few local slots. -/
def Refuses (m : Machine) (className method : String) (given : List Value) (e : RunError) : Prop :=
  m.classes.findCode className method = .error e ∨
    ∃ code, m.classes.findCode className method = .ok code ∧ code.maxLocals < given.length ∧
      e = .tooFewLocals code.maxLocals given.length

variable {m : Machine} {fuel : Nat} {className method : String} {receiver : Option Value}
  {args : List Value} {w : World}

theorem invokeWith_of_not_entered
    (h : m.firstPoint? fuel className method (receiver.toList ++ args) w = none)
    (run : Routine → Frame → World → Result × World) :
    ∃ e, m.Refuses className method (receiver.toList ++ args) e ∧
      m.invokeWith run className method receiver args w = (.error (.error e), w) := by
  cases hc : m.classes.get className with
  | error e =>
    have hcode : m.classes.findCode className method = .error e := by
      rw [ClassTable.findCode, hc]
      rfl
    exact ⟨e, .inl hcode, by simp only [invokeWith, hc]⟩
  | ok c =>
    cases hcode : m.classes.findCode className method with
    | error e => exact ⟨e, .inl hcode, by simp only [invokeWith, hc, hcode]⟩
    | ok code =>
      have hlen : code.maxLocals < (receiver.toList ++ args).length := by
        refine Nat.lt_of_not_le fun hle => ?_
        rw [firstPoint?_eq_some_iff.2 ⟨c, code, hc, hcode, hle, rfl⟩] at h
        cases h
      exact ⟨_, .inr ⟨code, hcode, hlen, rfl⟩, by simp only [invokeWith, hc, hcode, if_pos hlen]⟩

end Machine

namespace Point

variable {m : Machine} {p q : Point}

theorem Calls.of_next? {callee : MemberRef} {e : Point} (hq : p.next? m = some q)
    (h : q.Calls m callee e) : p.Calls m callee e := by
  obtain ⟨k, p', receiver, args, f, w, hp', heffect, he⟩ := h
  exact ⟨k + 1, p', receiver, args, f, w, (after?_of_next? hq k).trans hp', heffect, he⟩

theorem item_of_next? {lines : List String} (hq : p.next? m = some q) (h : Log.Item m q lines) :
    Log.Item m p lines := by
  cases h with
  | instruction hp h => exact .instruction ((after?_of_next? hq _).trans hp) h
  | jump hp h => exact .jump ((after?_of_next? hq _).trans hp) h
  | native hp h => exact .native ((after?_of_next? hq _).trans hp) h
  | skipping hp h => exact .skipping ((after?_of_next? hq _).trans hp) h
  | call hcalls h => exact .call (hcalls.of_next? hq) h

/-- From the world of a point to another one, items of its frame are logged; if the run stops then
    for the reason `why`, the log of a call that was entered and failed may follow. -/
def Tells (m : Machine) (p : Point) (why : Option Stop) (w : World) : Prop :=
  ∃ (items : List (List String)) (last : List String),
    w.log = p.world.log ++ (items.flatten ++ last) ∧ (∀ item ∈ items, Log.Item m p item) ∧
    (last = [] ∨ ∃ stop callee e, why = some stop ∧ p.Calls m callee e ∧
      Log.Broken m e callee.className callee.name stop last)

namespace Tells

variable {w w' : World} {why : Option Stop}

theorem here (m : Machine) (p : Point) : p.Tells m none p.world :=
  ⟨[], [], (List.append_nil _).symm, by simp, .inl rfl⟩

/-- As long as no call has failed, another item may follow. -/
theorem item {lines : List String} (h : p.Tells m none w) (hitem : Log.Item m p lines)
    (hlog : w'.log = w.log ++ lines) (why : Option Stop) : p.Tells m why w' := by
  obtain ⟨items, last, hitems, heach, rfl | ⟨stop, -, -, hstop, -⟩⟩ := h
  · refine ⟨items ++ [lines], [], ?_, ?_, .inl rfl⟩
    · rw [hlog, hitems, List.flatten_append, List.flatten_singleton]
      simp only [List.append_nil, List.append_assoc]
    · intro item hmem
      rcases List.mem_append.1 hmem with hmem | hmem
      · exact heach item hmem
      · exact List.mem_singleton.1 hmem ▸ hitem
  · cases hstop

/-- A call that is entered and fails ends the run. -/
theorem broken {stop : Stop} {callee : MemberRef} {e : Point} {last : List String}
    (h : p.Tells m none w) (hcalls : p.Calls m callee e)
    (hbroken : Log.Broken m e callee.className callee.name stop last)
    (hlog : w'.log = w.log ++ last) : p.Tells m (some stop) w' := by
  obtain ⟨items, nothing, hitems, heach, rfl | ⟨stop, -, -, hstop, -⟩⟩ := h
  · refine ⟨items, last, ?_, heach, .inr ⟨stop, callee, e, rfl, hcalls, hbroken⟩⟩
    rw [hlog, hitems, List.append_nil, List.append_assoc]
  · cases hstop

theorem of_log_eq (h : p.Tells m none w) (hlog : w'.log = w.log) (why : Option Stop) :
    p.Tells m why w' := by
  obtain ⟨items, last, hitems, heach, rfl | ⟨stop, -, -, hstop, -⟩⟩ := h
  · exact ⟨items, [], hlog.trans hitems, heach, .inl rfl⟩
  · cases hstop

theorem next (h : p.Tells m none q.world) (hq : p.next? m = some q) (h' : q.Tells m why w) :
    p.Tells m why w := by
  obtain ⟨items, last, hlog, hitems, rfl | ⟨stop, -, -, hstop, -⟩⟩ := h
  · obtain ⟨items', last', hlog', hitems', hlast'⟩ := h'
    refine ⟨items ++ items', last', ?_, ?_, hlast'.imp_right ?_⟩
    · rw [hlog', hlog, List.append_nil, List.flatten_append, List.append_assoc, List.append_assoc]
    · intro item hitem
      rcases List.mem_append.1 hitem with hitem | hitem
      · exact hitems item hitem
      · exact item_of_next? hq (hitems' item hitem)
    · rintro ⟨stop, callee, e, hstop, hcalls, hbroken⟩
      exact ⟨stop, callee, e, hstop, hcalls.of_next? hq, hbroken⟩
  · cases hstop

end Tells

/-- The log of a call that is entered, from what its run logs. -/
theorem log_leave {className method : String} {w : World}
    (hrun : q.Tells m (Machine.stop? (q.run m).1) (q.run m).2)
    (hworld : q.world.log = w.log ++ [Log.enter className method]) :
    ∃ lines, (Machine.leave className method (q.run m)).2.log = w.log ++ lines ∧
      (∀ result, (q.run m).1 = .ok result → Log.Returned m q className method result lines) ∧
      ∀ why, (q.run m).1 = .error why → Log.Broken m q className method why lines := by
  obtain ⟨items, last, hlog, hitems, hlast⟩ := hrun
  rcases hout : q.run m with ⟨why | result, w'⟩
  · rw [hout] at hlog hlast
    have hlines : w'.log = w.log ++ (Log.enter className method :: (items.flatten ++ last)) := by
      rw [hlog, hworld, List.append_assoc]
      rfl
    refine ⟨_, hlines, fun _ h => (nomatch h), fun why' h => ?_⟩
    obtain rfl := Except.error.inj h
    rcases hlast with rfl | ⟨stop, callee, e, hstop, hcalls, hbroken⟩
    · rw [List.append_nil] at hlog ⊢
      exact .here className method hout hlog hitems
    · obtain rfl := Option.some.inj hstop
      exact .nested className method hout hlog hitems hcalls hbroken
  · rw [hout] at hlog hlast
    obtain rfl : last = [] := by
      rcases hlast with rfl | ⟨stop, -, -, hstop, -⟩
      · rfl
      · cases hstop
    rw [List.append_nil] at hlog
    refine ⟨Log.enter className method :: (items.flatten ++ [Log.exit className method result]),
      ?_, fun result' h => ?_, fun _ h => (nomatch h)⟩
    · show (w'.note (.exited className method result)).log = _
      rw [World.log_exited, hlog, hworld]
      simp only [List.append_assoc, List.cons_append, List.nil_append]
    · obtain rfl := Except.ok.inj h
      exact .mk className method hout hlog hitems

/-- What a call logs, and how its caller goes on. -/
theorem call_tells {fuel : Nat} {callee : MemberRef} {receiver : Option Value} {args : List Value}
    {f : Frame} {w : World} (hfuel : p.fuel = fuel + 1)
    (heffect : p.effect? = some (.call callee receiver args f, w)) (hbefore : p.Tells m none w)
    (hcallee : ∀ q, p.callee? m = some q → q.Tells m (Machine.stop? (q.run m).1) (q.run m).2) :
    let out := m.settle (m.caller fuel) (.call callee receiver args f) w
    p.Tells m out.1.stop? out.2 := by
  intro out
  have hworld : out.2.log =
      (m.caller fuel callee receiver args (m.worldOfCall receiver w)).2.log := by
    show (Machine.resume f _).2.log = _
    rw [Machine.resume_world, Machine.callOnHeap_eq, World.log_worldAfterCall]
  cases hfirst : m.firstPoint? fuel callee.className callee.name (receiver.toList ++ args)
      (m.worldOfCall receiver w) with
  | none =>
    obtain ⟨e, -, hrefused⟩ := Machine.invokeWith_of_not_entered hfirst (m.run fuel)
    refine hbefore.of_log_eq (hworld.trans ?_) _
    rw [Machine.caller, hrefused, World.log_worldOfCall]
  | some q =>
    have hq := callee?_eq_some_iff.2 ⟨fuel, callee, receiver, args, f, w, hfuel, heffect, hfirst⟩
    have hcalls : p.Calls m callee q := ⟨0, p, receiver, args, f, w, rfl, heffect, hq⟩
    obtain ⟨rfl, hentered⟩ := Machine.fuel_of_firstPoint? hfirst
    have hcaller : m.caller q.fuel callee receiver args (m.worldOfCall receiver w) =
        Machine.leave callee.className callee.name (q.run m) :=
      Machine.invokeWith_of_firstPoint? hfirst (m.run q.fuel)
    have hout : out = Machine.resume f ((Machine.leave callee.className callee.name (q.run m)).1,
        m.worldAfterCall receiver w (Machine.leave callee.className callee.name (q.run m)).2) := by
      rw [← hcaller]
      exact congrArg (Machine.resume f) (Machine.callOnHeap_eq m _ callee receiver args w)
    have henter : q.world.log = w.log ++ [Log.enter callee.className callee.name] := by
      rw [hentered, World.log_entered, World.log_worldOfCall]
    obtain ⟨lines, hlog, hreturned, hbroken⟩ := log_leave (hcallee q hq) henter
    rw [← hcaller, ← hworld] at hlog
    rcases hrun : q.run m with ⟨why | result, w'⟩
    · have hstop : out.1.stop? = some why := by
        rw [hout, hrun]
        rfl
      rw [hstop]
      exact hbefore.broken hcalls (hbroken why (congrArg Prod.fst hrun)) hlog
    · exact hbefore.item (.call hcalls (hreturned result (congrArg Prod.fst hrun))) hlog _

/-- **What an instruction logs**, if the methods that it calls log properly. -/
theorem step_tells {fuel : Nat} (hfuel : p.fuel = fuel + 1)
    (hcallee : ∀ q, p.callee? m = some q → q.Tells m (Machine.stop? (q.run m).1) (q.run m).2) :
    let out := m.step (m.caller fuel) p.routine p.frame p.world
    p.Tells m out.1.stop? out.2 := by
  have hself : p.after? m 0 = some p := rfl
  cases hfetch : fetch p.routine.code p.frame.pc with
  | error e =>
    simp only [Machine.step, hfetch]
    exact (Tells.here m p).of_log_eq rfl _
  | ok decoded =>
    obtain ⟨d, next⟩ := decoded
    have hlog := p.world.log_noteFetch d p.frame
    rw [start_of_fetch hfetch] at hlog
    have hfetched : ∀ why, p.Tells m why (Machine.noteFetch d p.frame p.world) :=
      (Tells.here m p).item (.instruction hself hfetch) hlog
    cases hperform : perform p.routine p.world.heap d.start d.instruction
        { p.frame with pc := next } with
    | error e =>
      rw [Machine.step_of_fault hfetch hperform]
      exact hfetched _
    | ok effect =>
      have heffect := effect?_eq_some_iff.2 ⟨d, next, hfetch, hperform, rfl⟩
      rw [Machine.step_of_effect hfetch hperform]
      cases effect with
      | advance g | update g heap | finish result => exact (hfetched none).of_log_eq rfl _
      | branch g => exact (hfetched none).item (.jump hself heffect) (World.log_note _ _) _
      | skip callee g => exact (hfetched none).item (.skipping hself heffect) (World.log_note _ _) _
      | native key args g =>
        refine (hfetched none).item (.native hself heffect) ?_ _
        rw [Machine.settle, Machine.resume_world, Machine.log_callNative]
      | call callee receiver args g => exact call_tells hfuel heffect (hfetched none) hcallee

/-- **What a run logs**: items of its frame, and the log of a call that failed if the run stops in
    that call. -/
theorem run_tells (m : Machine) (p : Point) :
    p.Tells m (Machine.stop? (p.run m).1) (p.run m).2 := by
  induction p using Point.induction m with
  | h p ih =>
    cases hfuel : p.fuel with
    | zero =>
      rw [run, hfuel]
      exact (Tells.here m p).of_log_eq rfl _
    | succ fuel =>
      have hstep := step_tells (m := m) hfuel fun q hq => ih q (callee_mem_successors hq)
      cases hgoing : m.step (m.caller fuel) p.routine p.frame p.world with
      | mk progress w =>
        rw [hgoing] at hstep
        cases progress with
        | going f =>
          have hnext := next?_eq_some_iff.2 ⟨fuel, f, w, hfuel, hgoing, rfl⟩
          rw [run_of_next? hnext]
          refine Tells.next ?_ hnext (ih _ (next_mem_successors hnext))
          exact hstep
        | done result =>
          rw [run_of_fuel hfuel, hgoing]
          exact hstep
        | stopped why =>
          rw [run_of_fuel hfuel, hgoing]
          exact hstep

end Point

/-- **The log of a call is properly nested.**  A call that returns logs that its method is entered,
    the items of its frame and that the method is left, with what is returned.  One that does not
    return logs nothing, as its code is not found or has too few local slots; or it logs that the
    method is entered, items of its frame and, if a method that it calls was entered and failed, the
    log of this call, and not that the method is left. -/
theorem Machine.invoke_log_nested (m : Machine) (fuel : Nat) (className method : String)
    (receiver : Option Value) (args : List Value) (w : World) :
    let out := m.invoke fuel className method receiver args w
    let first := m.firstPoint? fuel className method (receiver.toList ++ args) w
    ∃ lines, out.2.log = w.log ++ lines ∧
      (∀ result, out.1 = .ok result →
        ∃ q, first = some q ∧ Log.Returned m q className method result lines) ∧
      ∀ why, out.1 = .error why →
        (first = none ∧ lines = [] ∧
          ∃ e, why = .error e ∧ m.Refuses className method (receiver.toList ++ args) e) ∨
        ∃ q, first = some q ∧ Log.Broken m q className method why lines := by
  intro out first
  cases hfirst : first with
  | none =>
    obtain ⟨e, hrefuses, hout⟩ := invokeWith_of_not_entered hfirst (m.run fuel)
    have hstopped : out = (.error (.error e), w) := hout
    rw [hstopped]
    refine ⟨[], (List.append_nil _).symm, fun _ h => (nomatch h), fun why h => ?_⟩
    exact .inl ⟨rfl, rfl, e, (Except.error.inj h).symm, hrefuses⟩
  | some q =>
    have hout := invokeWith_of_firstPoint? hfirst (m.run fuel)
    obtain ⟨rfl, hworld⟩ := fuel_of_firstPoint? hfirst
    have hleft : out = leave className method (q.run m) := hout
    have henter : q.world.log = w.log ++ [Log.enter className method] := by
      rw [hworld, World.log_entered]
    obtain ⟨lines, hlog, hreturned, hbroken⟩ := Point.log_leave (Point.run_tells m q) henter
    have hresult : out.1 = (q.run m).1 := by
      rw [hleft]
      rcases q.run m with ⟨why | result, w'⟩ <;> rfl
    refine ⟨lines, hleft ▸ hlog, fun result h => ?_, fun why h => ?_⟩
    · exact ⟨q, rfl, hreturned result (hresult.symm.trans h)⟩
    · exact .inr ⟨q, rfl, hbroken why (hresult.symm.trans h)⟩

end Bytecode
