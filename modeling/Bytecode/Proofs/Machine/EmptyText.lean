/-
  An empty text is the only thing that stops everything.

  Runs of a machine whose classes have no empty texts, and whose host methods do not fail as if they
  had met one, end with a result or with an error that is not fatal:

  * `perform_avoids`: no instruction fails for an empty text;
  * `Machine.run_avoids`: by induction on the fuel, no run does;
  * `Machine.fatal_only_for_empty_text` puts this together with what holds of class files
    (`ClassFile.Legible`) and with the operations that have to be used within range.
-/
import Bytecode.Proofs.ClassFile.Legible
import Bytecode.Proofs.Machine.Range

namespace Bytecode

open Except (Avoids)

/-! ## Instructions -/

theorem Pool.NoEmptyText.not_refuses {pool : Pool} (h : pool.NoEmptyText) :
    ¬ pool.Refuses .emptyText := by
  rintro (hget | hstring | hname | href | hargs)
  · exact pool.get_avoids _ hget
  · exact h.string _ hstring
  · exact h.className _ hname
  · exact h.memberRef _ _ href
  · exact Descriptor.argCount_avoids _ hargs

theorem perform_avoids {r : Routine} (h : r.pool.NoEmptyText) (heap : Heap) (offset : Nat)
    (i : Instruction) (f : Frame) :
    (perform r heap offset i f).Avoids (.format .emptyText) := by
  intro hperform
  cases perform_moves.error hperform with
  | format hrefuses => exact h.not_refuses hrefuses

/-! ## Runs -/

theorem fetch_avoids (code : Octets) (pc : Nat) (cause : FormatError) :
    (fetch code pc).Avoids (.format cause) := by
  intro h
  rcases fetch_error h with he | ⟨_, he⟩ <;> cases he

theorem ClassTable.get_avoids (t : ClassTable) (className : String) {cause : FormatError} :
    (t.get className).Avoids (.format cause) := by
  unfold get
  split
  · exact .ok _
  · exact .error (by simp)

theorem ClassTable.mem_of_get? {t : ClassTable} {name : String} {c : ClassFile}
    (h : t.get? name = some c) : (name, c) ∈ t.classes := by
  obtain ⟨l₁, l₂, hclasses, -⟩ := List.lookup_eq_some_iff.1 h
  rw [hclasses]
  simp

theorem ClassTable.get?_of_get {t : ClassTable} {className : String} {c : ClassFile}
    (h : t.get className = .ok c) : t.get? className = some c := by
  unfold get at h
  split at h
  · rename_i hc
    rw [hc, Except.ok.inj h]
  · cases h

theorem ClassTable.findCode_avoids (t : ClassTable) (className method : String) :
    (t.findCode className method).Avoids (.format .emptyText) := by
  have hget : (t.get className).Avoids (.format .emptyText) := t.get_avoids className
  have hmethod : (t.findMethod className method).Avoids (.format .emptyText) := by
    refine hget.bind fun c _ => ?_
    refine (RunError.ofFormat_avoids (Member.find?_avoids _ _ _)).bind fun found _ => ?_
    cases found with
    | some m => exact .ok m
    | none => exact .error (by simp)
  refine hget.bind fun c _ => hmethod.bind fun m _ => ?_
  refine (RunError.ofFormat_avoids (Attribute.firstCode?_avoids _ _)).bind fun found _ => ?_
  cases found with
  | some code => exact .ok code
  | none => exact .error (by simp)

/-- No class of the machine has an empty text, and no host method fails as if it had met one. -/
structure Machine.NoEmptyText (m : Machine) : Prop where
  classes : ∀ name c, m.classes.get? name = some c → c.pool.NoEmptyText
  natives : ∀ key f args, m.natives.get? key = some f → f args ≠ .error (.format .emptyText)

namespace Machine

variable {m : Machine}

def fatal : Stop :=
  .error (.format .emptyText)

theorem invokeWith_avoids (h : m.NoEmptyText) {run : Routine → Frame → World → Result × World}
    (hrun : ∀ r f w, r.pool.NoEmptyText → (run r f w).1.Avoids fatal) (className method : String)
    (receiver : Option Value) (args : List Value) (w : World) :
    (m.invokeWith run className method receiver args w).1.Avoids fatal := by
  unfold invokeWith
  cases hc : m.classes.get className with
  | error e =>
    exact .error fun he => m.classes.get_avoids className (Stop.error.inj he ▸ hc)
  | ok c =>
    have hpool : c.pool.NoEmptyText := h.classes className c (ClassTable.get?_of_get hc)
    cases hcode : m.classes.findCode className method with
    | error e =>
      exact .error fun he => m.classes.findCode_avoids className method (Stop.error.inj he ▸ hcode)
    | ok code =>
      dsimp only
      split
      · exact .error (by simp [fatal])
      · generalize Frame.start _ = g
        have hout := hrun ⟨c.pool, code.octets⟩ g (w.note (.entered className method)) hpool
        generalize run _ g _ = out at hout ⊢
        obtain ⟨why | result, w'⟩ := out
        · exact hout
        · exact .ok _

theorem resume_avoids (f : Frame) {out : Result × World} (h : out.1.Avoids fatal) :
    (resume f out).1 ≠ .stopped fatal := by
  obtain ⟨why | result, w⟩ := out
  · exact fun he => h (congrArg Except.error (Progress.stopped.inj he))
  · exact fun he => nomatch he

theorem callNative_avoids (h : m.NoEmptyText) (key : NativeKey) (args : List Value) (w : World) :
    (m.callNative key args w).1.Avoids fatal := by
  unfold callNative
  dsimp only
  cases hg : m.natives.get? key with
  | none => exact .error (by simp [fatal])
  | some g => exact Avoids.mapError (fun _ he => Stop.error.inj he) (h.natives key g args hg)

theorem callOnHeap_avoids {call : Caller}
    (hcall : ∀ callee receiver args w, (call callee receiver args w).1.Avoids fatal)
    (callee : MemberRef) (receiver : Option Value) (args : List Value) (w : World) :
    (m.callOnHeap call callee receiver args w).1.Avoids fatal := by
  unfold callOnHeap
  split
  · exact hcall callee none args _
  · exact hcall callee _ args w

theorem step_avoids (h : m.NoEmptyText) {call : Caller}
    (hcall : ∀ callee receiver args w, (call callee receiver args w).1.Avoids fatal) {r : Routine}
    (hr : r.pool.NoEmptyText) (f : Frame) (w : World) :
    (m.step call r f w).1 ≠ .stopped fatal := by
  unfold step
  cases hfetch : fetch r.code f.pc with
  | error e =>
    intro he
    exact fetch_avoids r.code f.pc _ (Stop.error.inj (Progress.stopped.inj he) ▸ hfetch)
  | ok decoded =>
    obtain ⟨d, next⟩ := decoded
    dsimp only
    cases hperform : perform r (noteFetch d f w).heap d.start d.instruction
        { f with pc := next } with
    | error e =>
      intro he
      exact perform_avoids hr _ _ _ _ (Stop.error.inj (Progress.stopped.inj he) ▸ hperform)
    | ok effect =>
      cases effect with
      | advance | branch | update | finish | skip => exact fun he => nomatch he
      | native key args g => exact resume_avoids g (m.callNative_avoids h key args _)
      | call callee receiver args g =>
        exact resume_avoids g (m.callOnHeap_avoids hcall callee receiver args _)

/-- **No run ends for an empty text.** -/
theorem run_avoids (h : m.NoEmptyText) (fuel : Nat) (r : Routine) (f : Frame) (w : World)
    (hr : r.pool.NoEmptyText) : (m.run fuel r f w).1.Avoids fatal := by
  induction fuel generalizing r f w with
  | zero => exact .error (by simp [fatal])
  | succ fuel ih =>
    -- the calls of this instruction run on less fuel
    have hcall : ∀ callee receiver args w,
        (m.caller fuel callee receiver args w).1.Avoids fatal := fun callee receiver args w =>
      invokeWith_avoids h (fun r f w hr => ih r f w hr) callee.className callee.name receiver args w
    have hstep := step_avoids h hcall hr f w
    show (Point.run m ⟨fuel + 1, r, f, w⟩).1.Avoids fatal
    rw [Point.run_of_fuel rfl]
    dsimp only
    generalize m.step (m.caller fuel) r f w = progress at hstep
    obtain ⟨f' | result | why, w'⟩ := progress
    · exact ih r f' w' hr
    · exact .ok _
    · exact .error fun hwhy => hstep (congrArg Progress.stopped hwhy)

theorem invoke_avoids (h : m.NoEmptyText) (fuel : Nat) (className method : String)
    (receiver : Option Value) (args : List Value) (w : World) :
    (m.invoke fuel className method receiver args w).1.Avoids fatal :=
  invokeWith_avoids h (fun r f w hr => run_avoids h fuel r f w hr) className method receiver args w

/-- **Only an empty text stops everything.**  Where no constant is an empty text, nothing that is
    asked about a class is fatal, and no run is, whatever the octets of its code and wherever its
    keys lead: at every point of it the instruction is fetched within range.  Attributes, code and
    descriptors are always read within range, arguments are popped and branches taken within range.
    Text is read out of range exactly where the fatal error stands for it, at an empty constant. -/
theorem fatal_only_for_empty_text (m : Machine) (h : m.NoEmptyText) :
    (∀ c : ClassFile, c.pool.NoEmptyText → c.Legible) ∧
    (∀ fuel className method receiver args w,
      (m.invoke fuel className method receiver args w).1 ≠ .error (.error (.format .emptyText)) ∧
      ∀ start p, m.firstPoint? fuel className method (receiver.toList ++ args) w = some start →
        start.Visits m p → p.frame.pc ≤ p.routine.code.length ∧
          fetch? p.routine.code p.frame.pc = some (fetch p.routine.code p.frame.pc)) ∧
    (∀ info, Code.read?.parse info = some (Code.read.parse info)) ∧
    (∀ code, Decoded.linear? code = some (Decoded.linear code)) ∧
    (∀ descriptor, Descriptor.argCount? descriptor = some (Descriptor.argCount descriptor)) ∧
    (∀ f offset descriptor,
      Frame.popArgs? offset descriptor f = some (Frame.popArgs offset descriptor f)) ∧
    (∀ f code offset distance,
      Frame.jump? code offset distance f = some (Frame.jump code offset distance f)) ∧
    ∀ (pool : Pool) i, (pool.text? i = none ↔ pool.octets i = .ok []) ∧
      (pool.text i = .error .emptyText ↔ pool.octets i = .ok []) := by
  refine ⟨fun c hc => ClassFile.legible_of_noEmptyText hc, ?_, Code.inRange_read.parse,
    Decoded.linear?_eq, Descriptor.argCount?_eq, fun f offset d => f.popArgs?_eq offset d,
    fun f code offset distance => f.jump?_eq code offset distance, ?_⟩
  · intro fuel className method receiver args w
    exact ⟨invoke_avoids h fuel className method receiver args w,
      fun start p hstart hvisits => fetch?_of_visits hstart hvisits⟩
  · intro pool i
    exact ⟨Pool.text?_eq_none_iff, Pool.text_eq_emptyText_iff⟩

/-- A class whose pool has a string without text, a class that is its own name and octets that are
    no text; its method loads the string. -/
def damagedClass : ClassFile :=
  (Assembly.build "D" [.push (.string 99), .push (.classRef 6), .push (.utf8 [0xed, 0xa0, 0x80]),
    .method ⟨9⟩ "main" "()V" ⟨1, 0, [0x00, 0x12, 5, 0xb1]⟩]).2

/-- A machine with this class. -/
def damaged : Machine :=
  ⟨⟨[("D", damagedClass)]⟩, .console, .shared⟩

theorem noEmptyText_damaged : damaged.NoEmptyText where
  classes name c hc := by
    have hmem := ClassTable.mem_of_get? hc
    obtain rfl : c = damagedClass := (Prod.mk.inj (List.mem_singleton.1 hmem)).2
    decide +kernel
  natives key f args hf := by
    have hsilent : f = Native.silent := by
      change NativeTable.console.get? key = some f at hf
      rw [NativeTable.console, NativeTable.get?_register, NativeTable.get?_register] at hf
      split at hf
      · exact (Option.some.inj hf).symm
      · split at hf
        · exact (Option.some.inj hf).symm
        · cases hf
    rw [hsilent]
    exact fun h => nomatch h

/-- The method fails for the key that leads nowhere, and this is not fatal. -/
theorem fatal_only_for_empty_text_damaged :
    damaged.NoEmptyText ∧ damagedClass.Legible ∧
      (damaged.invoke 9 "D" "main" none [] .start).1.toOption = none ∧
      (damaged.invoke 9 "D" "main" none [] .start).1 ≠ .error (.error (.format .emptyText)) :=
  have hall := damaged.fatal_only_for_empty_text noEmptyText_damaged
  ⟨noEmptyText_damaged, hall.1 damagedClass (by decide +kernel), by decide +kernel,
    (hall.2.1 9 "D" "main" none [] .start).1⟩

end Machine

end Bytecode
