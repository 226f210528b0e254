/-
  Fibonacci numbers by recursion.

  `HelloWorld.cls` is a class with a method `main`, which prints some texts and numbers, and a
  method `fibonacci`, which returns 1 for the numbers 0 and 1, and otherwise calls itself twice and
  adds the results.

  * `HelloWorld.returns_step`: if the two calls return, so does the method that makes them, with the
    sum of their results.
-/
import Bytecode.Proofs.Machine.Loading
import Bytecode.Proofs.Machine.Paths
import Mathlib.Data.Nat.Fib.Basic

namespace Bytecode.HelloWorld

open Routine

/-- The code of `main`, which refers to the standard output stream, to two methods that print, to
    two texts, and to the methods that compute the numbers. -/
def mainCode (out printStr printInt hello progress fib add : UInt8) : Octets :=
  [ 0xb2, 0, out, 0x12, hello, 0xb6, 0, printStr,
    0x03, 0x3c,
    -- 10: a loop that prints twice
    0x1b, 0x05, 0xa2, 0x00, 0x11,
    0xb2, 0, out, 0x12, progress, 0xb6, 0, printStr,
    0x84, 1, 1,
    0xa7, 0xff, 0xf0,
    -- 29: the two numbers
    0xb2, 0, out, 0x10, 15, 0xb8, 0, fib,
    0xb6, 0, printInt,
    0xb2, 0, out, 0x04, 0x10, 30, 0xb8, 0, add,
    0xb6, 0, printInt,
    0xb1]

def code (fib : UInt8) : Octets :=
  [ 0x1a, 0x9a, 0x00, 0x05, 0x04, 0xac,
    -- 6: not zero
    0x1a, 0x04, 0xa0, 0x00, 0x05, 0x04, 0xac,
    -- 13: not one either
    0x1a, 0x04, 0x64, 0xb8, 0, fib,
    0x1a, 0x05, 0x64, 0xb8, 0, fib,
    0x60, 0xac]

open Assembly in
/-- Puts the constants and the two methods into a class. -/
def assemble : Assembly Unit := do
  let out ← member .field "java/lang/System" "out" "Ljava/io/PrintStream;"
  let printStr ← member .method "java/io/PrintStream" "println" "(Ljava/lang/String;)V"
  let printInt ← member .method "java/io/PrintStream" "println" "(I)V"
  let hello ← string "hello"
  let progress ← string "progress"
  let fib ← member .method "HelloWorld" "fibonacci" "(I)I"
  let add ← member .method "Arith" "add" "(II)I"
  addMethod ⟨0x0009⟩ "main" "([Ljava/lang/String;)V"
    ⟨3, 2, mainCode (.ofNat out) (.ofNat printStr) (.ofNat printInt) (.ofNat hello)
      (.ofNat progress) (.ofNat fib) (.ofNat add)⟩
  addMethod ⟨0x0009⟩ "fibonacci" "(I)I" ⟨3, 1, code (.ofNat fib)⟩

def cls : ClassFile :=
  (assemble (Assembly.start "HelloWorld")).2.cls

def fibonacci : MemberRef :=
  ⟨"HelloWorld", "fibonacci", "(I)I"⟩

def routine : Routine :=
  ⟨cls.pool, code 27⟩

theorem findCode_eq {t : ClassTable} (h : t.get? "HelloWorld" = some cls) :
    t.findCode "HelloWorld" "fibonacci" = .ok ⟨3, 1, code 27⟩ := by
  have hcongr : t.findCode "HelloWorld" "fibonacci" =
      ClassTable.findCode ⟨[("HelloWorld", cls)]⟩ "HelloWorld" "fibonacci" :=
    ClassTable.findCode_congr h
  rw [hcongr]
  decide +kernel

theorem memberRef_eq :
    routine.pool.memberRef (27 : UInt16).toNat (.member .method) = .ok fibonacci := by
  decide +kernel

/-! ## Paths -/

/-- The argument is compared with zero. -/
theorem path_zero (n : Int32) : ∃ fs, fs.length = 2 ∧
    Path routine (.start [.int n]) fs ⟨if n ≠ 0 then 6 else 4, [], [.int n]⟩ := by
  have h0 : Decodes (code 27) 0 (.loadInt 0) 1 := ⟨_, _, rfl⟩
  have h1 : Decodes (code 27) 1 (.ifNotZero 5) 4 := ⟨_, _, rfl⟩
  have htarget : LeadsTo (code 27) 1 5 6 := by decide
  exact ⟨[_, _], rfl,
    .step (steps_loadInt h0 rfl) <| .step (steps_ifNotZero h1 htarget) <| .here _⟩

/-- If it is not zero, it is compared with one. -/
theorem path_one {n : Int32} (hn : n ≠ 0) : ∃ fs, fs.length = 5 ∧
    Path routine (.start [.int n]) fs ⟨if n ≠ 1 then 13 else 11, [], [.int n]⟩ := by
  have h6 : Decodes (code 27) 6 (.loadInt 0) 7 := ⟨_, _, rfl⟩
  have h7 : Decodes (code 27) 7 (.constInt 1) 8 := ⟨_, _, rfl⟩
  have h8 : Decodes (code 27) 8 (.ifNotEqualInt 5) 11 := ⟨_, _, rfl⟩
  have htarget : LeadsTo (code 27) 8 5 13 := by decide
  obtain ⟨fs, hfs, hpath⟩ := path_zero n
  rw [if_pos hn] at hpath
  refine ⟨fs ++ [_, _, _], by rw [List.length_append, hfs]; rfl, hpath.trans <|
    .step (steps_loadInt h6 rfl) <| .step (steps_constInt h7) <|
    .step (steps_ifNotEqualInt h8 htarget) <| .here _⟩

/-- If it is not one either, the method calls itself with the number before. -/
theorem path_first {n : Int32} (hn : n ≠ 0) (hn' : n ≠ 1) : ∃ fs, fs.length = 8 ∧
    Path routine (.start [.int n]) fs ⟨16, [.int (n - 1)], [.int n]⟩ := by
  have h13 : Decodes (code 27) 13 (.loadInt 0) 14 := ⟨_, _, rfl⟩
  have h14 : Decodes (code 27) 14 (.constInt 1) 15 := ⟨_, _, rfl⟩
  have h15 : Decodes (code 27) 15 .subInt 16 := ⟨_, _, rfl⟩
  obtain ⟨fs, hfs, hpath⟩ := path_one hn
  rw [if_pos hn'] at hpath
  refine ⟨fs ++ [_, _, _], by rw [List.length_append, hfs]; rfl, hpath.trans <|
    .step (steps_loadInt h13 rfl) <| .step (steps_constInt h14) <| .step (steps_subInt h15) <|
    .here _⟩

/-- After the first call it calls itself with the number before that one. -/
theorem path_second (n a : Int32) : ∃ fs, fs.length = 3 ∧
    Path routine ⟨19, [.int a], [.int n]⟩ fs ⟨22, [.int (n - 2), .int a], [.int n]⟩ := by
  have h19 : Decodes (code 27) 19 (.loadInt 0) 20 := ⟨_, _, rfl⟩
  have h20 : Decodes (code 27) 20 (.constInt 2) 21 := ⟨_, _, rfl⟩
  have h21 : Decodes (code 27) 21 .subInt 22 := ⟨_, _, rfl⟩
  exact ⟨[_, _, _], rfl, .step (steps_loadInt h19 rfl) <| .step (steps_constInt h20) <|
    .step (steps_subInt h21) <| .here _⟩

/-- After the second call the results are added. -/
theorem path_sum (n a b : Int32) : ∃ fs, fs.length = 1 ∧
    Path routine ⟨25, [.int b, .int a], [.int n]⟩ fs ⟨26, [.int (a + b)], [.int n]⟩ := by
  have h25 : Decodes (code 27) 25 .addInt 26 := ⟨_, _, rfl⟩
  exact ⟨[_], rfl, .step (steps_addInt h25) <| .here _⟩

theorem does_call {pc : Nat} (hdecodes : Decodes (code 27) pc (.invokeStatic 27) (pc + 3))
    (n : Int32) (stack locals : List Value) :
    routine.Does ⟨pc, .int n :: stack, locals⟩
      (.call fibonacci none [.int n] ⟨pc + 3, stack, locals⟩) := by
  have hcount : Descriptor.argCount fibonacci.descriptor = .ok 1 := by
    simp [fibonacci, Descriptor.argCount, Descriptor.countFrom, Descriptor.isPrimitive]
  have hcall : routine.Does ⟨pc, [Value.int n].reverse ++ stack, locals⟩
      (.call fibonacci none [.int n] ⟨pc + 3, stack, locals⟩) :=
    does_invokeStatic hdecodes memberRef_eq hcount
  exact hcall

/-! ## Calls -/

section Calls

variable {m : Machine} (hcls : m.classes.get? "HelloWorld" = some cls) {fuel : Nat}
include hcls

theorem returns_of_run {n : Int32} {result : Option Value}
    (hrun : ∀ w, ∃ w', w.Alike w' ∧ m.run fuel routine (.start [.int n]) w = (.ok result, w')) :
    m.Returns fuel "HelloWorld" "fibonacci" none [.int n] result := by
  have hget : m.classes.get "HelloWorld" = .ok cls := by simp only [ClassTable.get, hcls]
  have hlen : (none.toList ++ [Value.int n]).length ≤ 1 := by simp
  exact Machine.returns_of_run hget (findCode_eq hcls) hlen hrun

theorem returns_of_path {n : Int32} {result : Option Value} {fs : List Frame} {f : Frame}
    (hpath : Path routine (.start [.int n]) fs f) (hfinish : routine.Does f (.finish result))
    (hfuel : fs.length < fuel) :
    m.Returns fuel "HelloWorld" "fibonacci" none [.int n] result := by
  refine returns_of_run hcls fun w => ?_
  obtain ⟨w', halike, -, hrun⟩ := hpath.run_finish hfinish hfuel m w
  exact ⟨w', halike, hrun⟩

theorem returns_zero (hfuel : 4 ≤ fuel) :
    m.Returns fuel "HelloWorld" "fibonacci" none [.int 0] (some (.int 1)) := by
  have h4 : Decodes (code 27) 4 (.constInt 1) 5 := ⟨_, _, rfl⟩
  have h5 : Decodes (code 27) 5 .returnInt 6 := ⟨_, _, rfl⟩
  obtain ⟨fs, hfs, hpath⟩ := path_zero 0
  refine returns_of_path hcls (hpath.trans (.step (steps_constInt h4) (.here _)))
    (does_returnInt h5) ?_
  rw [List.length_append, hfs]
  exact hfuel

theorem returns_one (hfuel : 7 ≤ fuel) :
    m.Returns fuel "HelloWorld" "fibonacci" none [.int 1] (some (.int 1)) := by
  have h11 : Decodes (code 27) 11 (.constInt 1) 12 := ⟨_, _, rfl⟩
  have h12 : Decodes (code 27) 12 .returnInt 13 := ⟨_, _, rfl⟩
  have hone : (1 : Int32) ≠ 0 := by decide
  obtain ⟨fs, hfs, hpath⟩ := path_one hone
  refine returns_of_path hcls (hpath.trans (.step (steps_constInt h11) (.here _)))
    (does_returnInt h12) ?_
  rw [List.length_append, hfs]
  exact hfuel

/-- **If both calls return, the method returns the sum.**  The first call is made after eight
    instructions, the second one after four more. -/
theorem returns_step {n a b : Int32} (hn : n ≠ 0) (hn' : n ≠ 1) (hfuel : 1 < fuel)
    (hfirst : m.Returns (fuel + 4) "HelloWorld" "fibonacci" none [.int (n - 1)] (some (.int a)))
    (hsecond : m.Returns fuel "HelloWorld" "fibonacci" none [.int (n - 2)] (some (.int b))) :
    m.Returns (fuel + 13) "HelloWorld" "fibonacci" none [.int n] (some (.int (a + b))) := by
  have h16 : Decodes (code 27) 16 (.invokeStatic 27) 19 := ⟨_, _, rfl⟩
  have h22 : Decodes (code 27) 22 (.invokeStatic 27) 25 := ⟨_, _, rfl⟩
  have h26 : Decodes (code 27) 26 .returnInt 27 := ⟨_, _, rfl⟩
  obtain ⟨fs, hfs, hpath⟩ := path_first hn hn'
  obtain ⟨gs, hgs, hpath'⟩ := path_second n a
  obtain ⟨hs, hhs, hpath''⟩ := path_sum n a b
  refine returns_of_run hcls fun w => ?_
  obtain ⟨w₁, halike₁, -, hrun₁⟩ := hpath.run m (fuel + 5) w
  obtain ⟨w₂, halike₂, hrun₂⟩ := Machine.run_of_returns (does_call h16 _ _ _) hfirst w₁
  obtain ⟨w₃, halike₃, -, hrun₃⟩ := hpath'.run m (fuel + 1) w₂
  obtain ⟨w₄, halike₄, hrun₄⟩ := Machine.run_of_returns (does_call h22 _ _ _) hsecond w₃
  obtain ⟨w₅, halike₅, -, hrun₅⟩ := hpath''.run_finish (does_returnInt h26) (hhs ▸ hfuel) m w₄
  rw [hfs] at hrun₁
  rw [hgs] at hrun₃
  exact ⟨w₅, halike₁.trans (halike₂.trans (halike₃.trans (halike₄.trans halike₅))),
    hrun₁.trans (hrun₂.trans (hrun₃.trans (hrun₄.trans hrun₅)))⟩

theorem returns_fibonacci {k : Nat} (hk : k < 0x80000000) (hfuel : 9 * k + 7 ≤ fuel) :
    m.Returns fuel "HelloWorld" "fibonacci" none [.int (Int32.ofNat k)]
      (some (.int (Int32.ofNat (Nat.fib (k + 1))))) := by
  induction k using Nat.twoStepInduction generalizing fuel with
  | zero => exact returns_zero hcls (by omega)
  | one => exact returns_one hcls (by omega)
  | more k ih ih' =>
    -- `k + 2` is neither 0 nor 1 among the numbers of 32 bits, since it is less than half their
    -- range
    have hclamp : (Int32.ofNat (k + 2)).toNatClampNeg = k + 2 :=
      Int32.toNatClampNeg_ofNat_of_lt hk
    have hzero : Int32.ofNat (k + 2) ≠ 0 := by
      intro h
      rw [h] at hclamp
      exact absurd hclamp.symm (Nat.succ_ne_zero (k + 1))
    have hone : Int32.ofNat (k + 2) ≠ 1 := by
      intro h
      rw [h] at hclamp
      exact absurd (Nat.succ.inj hclamp).symm (Nat.succ_ne_zero k)
    have hpred : Int32.ofNat (k + 2) - 1 = Int32.ofNat (k + 1) := by
      rw [Int32.ofNat_add (k + 1) 1]
      exact Int32.add_sub_cancel _ _
    have hpred' : Int32.ofNat (k + 2) - 2 = Int32.ofNat k := by
      rw [Int32.ofNat_add k 2]
      exact Int32.add_sub_cancel _ _
    have hsum : Int32.ofNat (Nat.fib (k + 2 + 1)) =
        Int32.ofNat (Nat.fib (k + 1 + 1)) + Int32.ofNat (Nat.fib (k + 1)) := by
      rw [Nat.add_right_comm, Nat.fib_add_two, Nat.add_comm, Int32.ofNat_add]
    obtain ⟨rest, rfl⟩ : ∃ rest, fuel = rest + 13 := ⟨fuel - 13, by omega⟩
    rw [hsum]
    refine returns_step hcls hzero hone (by omega) ?_ ?_
    · rw [hpred]
      exact ih' (by omega) (by omega)
    · rw [hpred']
      exact ih (by omega) (by omega)

end Calls

/-- **Fibonacci numbers are computed modulo 2³².**  On any machine that has the class, under either
    policy and in any world, a call of `fibonacci` with a number that is not negative ends; it
    returns the Fibonacci number, of which the low 32 bits are kept as a signed number, leaves the
    heap as it was, and calls no host method. -/
theorem invoke_fibonacci (m : Machine) (hcls : m.classes.get? "HelloWorld" = some cls) (n : Int32)
    (hn : 0 ≤ n) (fuel : Nat) (hfuel : 9 * n.toNatClampNeg + 7 ≤ fuel) (w : World) :
    let out := m.invoke fuel "HelloWorld" "fibonacci" none [.int n] w
    out.1 = .ok (some (.int (Int32.ofNat (Nat.fib (n.toNatClampNeg + 1))))) ∧
      out.2.heap = w.heap ∧ out.2.calls = w.calls := by
  obtain ⟨w', halike, hinvoke⟩ := returns_fibonacci hcls n.toNatClampNeg_lt hfuel w
  rw [Int32.ofNat_toNatClampNeg n hn] at hinvoke
  dsimp only
  rw [hinvoke]
  exact ⟨rfl, halike.heap, halike.calls⟩

/-- The 46th number of the sequence no longer fits 32 bits: it wraps to a negative one. -/
theorem invoke_fibonacci_wraps :
    let m : Machine := ⟨⟨[("HelloWorld", cls)]⟩, .console, .isolateStatic⟩
    let out := m.invoke 500 "HelloWorld" "fibonacci" none [.int 46] .start
    out.1 = .ok (some (.int (-1323752223))) ∧ out.2.heap = .empty ∧ out.2.calls = [] := by
  intro m
  exact invoke_fibonacci m rfl 46 (by decide) 500 (by decide) .start

end Bytecode.HelloWorld
