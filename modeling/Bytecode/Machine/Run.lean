/-
  Running methods.

  `Machine.step` carries out one instruction, given a way to carry out calls.  `Machine.run` repeats
  it until the method returns or something goes wrong.  Each repetition uses up a unit of fuel, and
  a call runs on what fuel its caller has left, so a run that ends does so within some amount of
  fuel; one that has not ended when the fuel is used up stops as `outOfFuel`, which is neither a
  result nor an error of the program.

  What happened before a stop stays: the heap as it was then, and the events up to it.

  * `HeapPolicy.isolateStatic`: a static call runs on an empty heap of its own, which is gone when
    the call is over; under `shared` it runs on the heap of its caller;
  * `invoke` finds a method and runs it, `execute` runs given code, `runMethod` runs a method
    without arguments on an empty heap.
-/
import Bytecode.Machine.ClassTable
import Bytecode.Machine.Effect
import Bytecode.Machine.Native

namespace Bytecode

/-- The heap that a static call runs on. -/
inductive HeapPolicy where
  | isolateStatic
  | shared
  deriving DecidableEq, Repr

def HeapPolicy.name : HeapPolicy → String
  | .isolateStatic => "IsolateStatic"
  | .shared => "Shared"

/-- What a run is given: classes, host methods and a policy. -/
structure Machine where
  classes : ClassTable
  natives : NativeTable
  policy : HeapPolicy

/-- What a run changes: the heap and the list of events. -/
structure World where
  heap : Heap
  /-- What has happened, the latest event first. -/
  history : List Event
  deriving DecidableEq, Repr

namespace World

def start : World := ⟨.empty, []⟩

def note (w : World) (e : Event) : World :=
  { w with history := e :: w.history }

def events (w : World) : List Event :=
  w.history.reverse

end World

/-- Why a run stopped without a result. -/
inductive Stop where
  | error (cause : RunError)
  | outOfFuel
  deriving DecidableEq, Repr

/-- How a run ends: with the value a method returns, if it returns one, or with a stop. -/
abbrev Result := Except Stop (Option Value)

/-- How things stand after an instruction. -/
inductive Progress where
  | going (frame : Frame)
  | done (result : Option Value)
  | stopped (why : Stop)
  deriving DecidableEq, Repr

/-- How a call is carried out: from the method, the receiver and the arguments. -/
abbrev Caller := MemberRef → Option Value → List Value → World → Result × World

namespace Machine

/-- The events of fetching an instruction. -/
def noteFetch (d : Decoded) (f : Frame) (w : World) : World :=
  ((w.note (.fetched d.start d.mnemonic)).note (.stack f.stack.reverse)).note (.locals f.locals)

/-- A call on the heap that the policy gives it; the caller's heap comes back if it had one of its
    own. -/
def callOnHeap (m : Machine) (call : Caller) (callee : MemberRef) (receiver : Option Value)
    (args : List Value) (w : World) : Result × World :=
  match m.policy, receiver with
  | .isolateStatic, none =>
    let saved := w.heap
    match call callee none args { w with heap := .empty } with
    | (result, w') => (result, { w' with heap := saved })
  | _, _ => call callee receiver args w

def callNative (m : Machine) (key : NativeKey) (args : List Value) (w : World) :
    Result × World :=
  let w := w.note (.native key)
  match m.natives.get? key with
  | none => (.error (.error (.nativeNotFound key)), w)
  | some f => ((f args).mapError .error, w.note (.called key args))

/-- Goes on with a frame once a call is over. -/
def resume (f : Frame) : Result × World → Progress × World
  | (.ok result, w) => (.going (f.pushResult result), w)
  | (.error why, w) => (.stopped why, w)

/-- Does what an effect asks for. -/
def settle (m : Machine) (call : Caller) : Effect → World → Progress × World
  | .advance f, w => (.going f, w)
  | .branch f, w => (.going f, w.note (.jumped f.pc))
  | .update f heap, w => (.going f, { w with heap })
  | .finish result, w => (.done result, w)
  | .native key args f, w => resume f (m.callNative key args w)
  | .skip callee f, w => (.going f, w.note (.skipped callee))
  | .call callee receiver args f, w => resume f (m.callOnHeap call callee receiver args w)

def step (m : Machine) (call : Caller) (r : Routine) (f : Frame) (w : World) : Progress × World :=
  match fetch r.code f.pc with
  | .error e => (.stopped (.error e), w)
  | .ok (d, next) =>
    let w := noteFetch d f w
    match perform r w.heap d.start d.instruction { f with pc := next } with
    | .error e => (.stopped (.error e), w)
    | .ok effect => m.settle call effect w

/-- Finds a method and runs its code with `run`: the receiver, if there is one, is in local slot 0,
    the arguments follow in order, and the other slots are unset. -/
def invokeWith (m : Machine) (run : Routine → Frame → World → Result × World)
    (className method : String) (receiver : Option Value) (args : List Value) (w : World) :
    Result × World :=
  match m.classes.get className, m.classes.findCode className method with
  | .error e, _ => (.error (.error e), w)
  | _, .error e => (.error (.error e), w)
  | .ok c, .ok code =>
    let given := receiver.toList ++ args
    if code.maxLocals < given.length then
      (.error (.error (.tooFewLocals code.maxLocals given.length)), w)
    else
      let locals := given ++ List.replicate (code.maxLocals - given.length) .unset
      match run ⟨c.pool, code.octets⟩ (.start locals) (w.note (.entered className method)) with
      | (.ok result, w') => (.ok result, w'.note (.exited className method result))
      | (.error why, w') => (.error why, w')

/-- Repeats `step` until the method returns or something goes wrong. -/
def run (m : Machine) : Nat → Routine → Frame → World → Result × World
  | 0, _, _, w => (.error .outOfFuel, w)
  | fuel + 1, r, f, w =>
    let call : Caller := fun callee => m.invokeWith (run m fuel) callee.className callee.name
    match m.step call r f w with
    | (.going f', w') => run m fuel r f' w'
    | (.done result, w') => (.ok result, w')
    | (.stopped why, w') => (.error why, w')

/-- Runs a method of a class on the heap of a world. -/
def invoke (m : Machine) (fuel : Nat) (className method : String) (receiver : Option Value)
    (args : List Value) (w : World) : Result × World :=
  m.invokeWith (m.run fuel) className method receiver args w

/-- Runs code as if it belonged to a class. -/
def execute (m : Machine) (fuel : Nat) (className : String) (code : Octets) (locals : List Value)
    (w : World) : Result × World :=
  match m.classes.get className with
  | .error e => (.error (.error e), w)
  | .ok c => m.run fuel ⟨c.pool, code⟩ (.start locals) w

/-- Runs a method without arguments on a heap of its own; the world's heap stays as it is. -/
def runMethod (m : Machine) (fuel : Nat) (className method : String) (w : World) :
    Result × World :=
  let saved := w.heap
  match m.invoke fuel className method none [] { w with heap := .empty } with
  | (result, w') => (result, { w' with heap := saved })

end Machine

end Bytecode
