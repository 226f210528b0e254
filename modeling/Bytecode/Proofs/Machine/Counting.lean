/-
  A loop that counts.

  `Counting.cls` is a class `Loop` with one method, `count`.  The method counts up from zero as long
  as a first counter is below its argument, with a second counter beside the first one, and returns
  the second counter, or -1 if the two do not agree.

  One execution of the loop's body moves both counters up by one (`Counting.path_iteration`), and so
  any number of them does, as long as the first counter is below the argument (`path_loop`).
-/
import Bytecode.Proofs.Machine.Loading
import Bytecode.Proofs.Machine.Paths

namespace Bytecode.Counting

open Routine

def code : Octets :=
  [ -- both counters, in the slots 1 and 2, start at zero
    0x03, 0x3c, 0x03, 0x3d,
    -- 4: leave the loop if the first counter has reached the argument
    0x1b, 0x1a, 0xa2, 0x00, 0x0c,
    -- 9: the body
    0x84, 2, 1, 0x84, 1, 1, 0xa7, 0xff, 0xf5,
    -- 18: compare the counters
    0x1b, 0x1c, 0x64, 0x9a, 0x00, 0x05,
    -- 24: they agree
    0x1c, 0xac,
    -- 26: they do not
    0x02, 0xac]

def cls : ClassFile :=
  (Assembly.build "Loop" [.method ⟨0x0009⟩ "count" "(I)I" ⟨2, 3, code⟩]).2

/-- The offsets of one execution of the loop's body, from the comparison on. -/
def iteration : List Nat := [4, 5, 6, 9, 12, 15]

/-- The frame before the comparison, with both counters at `i`. -/
def head (n i : Int32) : Frame :=
  ⟨4, [], [.int n, .int i, .int i]⟩

/-! ## Numbers -/

theorem not_le_ofNat {n : Int32} {i : Nat} (h : i < n.toNatClampNeg) : ¬ n ≤ Int32.ofNat i := by
  have hlt := n.toNatClampNeg_lt
  have hn := n.toNat_toInt
  rw [Int32.le_iff_toInt_le, Int32.toInt_ofNat_of_lt (by omega)]
  omega

theorem le_ofNat (n : Int32) : n ≤ Int32.ofNat n.toNatClampNeg := by
  have hn := n.toNat_toInt
  rw [Int32.le_iff_toInt_le, Int32.toInt_ofNat_of_lt n.toNatClampNeg_lt]
  omega

theorem ofNat_toNatClampNeg_eq_max (n : Int32) : Int32.ofNat n.toNatClampNeg = max n 0 := by
  have hmax : max n 0 = if n ≤ 0 then 0 else n := rfl
  rw [hmax]
  by_cases h : n ≤ 0
  · have hclamp : n.toNatClampNeg = 0 := by
      rw [Int32.le_iff_toInt_le, Int32.toInt_zero] at h
      rw [← n.toNat_toInt]
      omega
    rw [if_pos h, hclamp]
    rfl
  · have hle : 0 ≤ n := by
      rw [Int32.le_iff_toInt_le] at h ⊢
      omega
    rw [if_neg h, Int32.ofNat_toNatClampNeg n hle]

/-! ## Paths -/

variable (pool : Pool)

/-- The counters are set. -/
theorem path_start (n : Int32) : ∃ fs, fs.map Frame.pc = [0, 1, 2, 3] ∧
    Path ⟨pool, code⟩ (.start [.int n, .unset, .unset]) fs (head n 0) := by
  have h0 : Decodes code 0 (.constInt 0) 1 := ⟨_, _, rfl⟩
  have h1 : Decodes code 1 (.storeInt 1) 2 := ⟨_, _, rfl⟩
  have h2 : Decodes code 2 (.constInt 0) 3 := ⟨_, _, rfl⟩
  have h3 : Decodes code 3 (.storeInt 2) 4 := ⟨_, _, rfl⟩
  exact ⟨[_, _, _, _], rfl, .step (steps_constInt h0) <| .step (steps_storeInt h1 (by simp)) <|
    .step (steps_constInt h2) <| .step (steps_storeInt h3 (by simp)) <| .here _⟩

/-- The comparison of the first counter with the argument. -/
theorem path_compare (n i : Int32) : ∃ fs, fs.map Frame.pc = [4, 5, 6] ∧
    Path ⟨pool, code⟩ (head n i) fs
      ⟨if n ≤ i then 18 else 9, [], [.int n, .int i, .int i]⟩ := by
  have h4 : Decodes code 4 (.loadInt 1) 5 := ⟨_, _, rfl⟩
  have h5 : Decodes code 5 (.loadInt 0) 6 := ⟨_, _, rfl⟩
  have h6 : Decodes code 6 (.ifGreaterEqualInt 12) 9 := ⟨_, _, rfl⟩
  have htarget : LeadsTo code 6 12 18 := by decide
  exact ⟨[_, _, _], rfl, .step (steps_loadInt h4 rfl) <| .step (steps_loadInt h5 rfl) <|
    .step (steps_ifGreaterEqualInt h6 htarget) <| .here _⟩

/-- **One execution of the body** moves both counters up by one. -/
theorem path_iteration {n i : Int32} (h : ¬ n ≤ i) : ∃ fs, fs.map Frame.pc = iteration ∧
    Path ⟨pool, code⟩ (head n i) fs (head n (i + 1)) := by
  have h9 : Decodes code 9 (.incInt 2 1) 12 := ⟨_, _, rfl⟩
  have h12 : Decodes code 12 (.incInt 1 1) 15 := ⟨_, _, rfl⟩
  have h15 : Decodes code 15 (.goto (-11)) 18 := ⟨_, _, rfl⟩
  have htarget : LeadsTo code 15 (-11) 4 := by decide
  obtain ⟨fs, hfs, hpath⟩ := path_compare pool n i
  rw [if_neg h] at hpath
  refine ⟨fs ++ [_, _, _], ?_, hpath.trans <| .step (steps_incInt h9 rfl) <|
    .step (steps_incInt h12 rfl) <| .step (steps_goto h15 htarget) <| .here _⟩
  rw [List.map_append, hfs]
  rfl

/-- **The body is executed `j` times** if both counters are so far below the argument. -/
theorem path_loop {n : Int32} {i j : Nat} (h : i + j ≤ n.toNatClampNeg) :
    ∃ fs, fs.map Frame.pc = (List.replicate j iteration).flatten ∧
      Path ⟨pool, code⟩ (head n (.ofNat i)) fs (head n (.ofNat (i + j))) := by
  induction j generalizing i with
  | zero => exact ⟨[], rfl, .here _⟩
  | succ j ih =>
    have hbelow : ¬ n ≤ Int32.ofNat i := not_le_ofNat (by omega)
    obtain ⟨fs, hfs, hpath⟩ := path_iteration pool hbelow
    obtain ⟨gs, hgs, hpath'⟩ := ih (i := i + 1) (by omega)
    rw [Nat.add_right_comm] at hpath'
    refine ⟨fs ++ gs, ?_, hpath.trans ?_⟩
    · rw [List.map_append, hfs, hgs, List.replicate_succ, List.flatten_cons]
    · rwa [Int32.ofNat_add] at hpath'

/-- Behind the loop the counters are found to agree. -/
theorem path_exit {n i : Int32} (h : n ≤ i) :
    ∃ fs, fs.map Frame.pc = [4, 5, 6, 18, 19, 20, 21, 24] ∧
      Path ⟨pool, code⟩ (head n i) fs ⟨25, [.int i], [.int n, .int i, .int i]⟩ := by
  have h18 : Decodes code 18 (.loadInt 1) 19 := ⟨_, _, rfl⟩
  have h19 : Decodes code 19 (.loadInt 2) 20 := ⟨_, _, rfl⟩
  have h20 : Decodes code 20 .subInt 21 := ⟨_, _, rfl⟩
  have h21 : Decodes code 21 (.ifNotZero 5) 24 := ⟨_, _, rfl⟩
  have h24 : Decodes code 24 (.loadInt 2) 25 := ⟨_, _, rfl⟩
  have htarget : LeadsTo code 21 5 26 := by decide
  have hagree : Steps ⟨pool, code⟩ ⟨21, [.int (i - i)], [.int n, .int i, .int i]⟩
      ⟨24, [], [.int n, .int i, .int i]⟩ := by
    have hbranch : Steps ⟨pool, code⟩ _ ⟨_, [], [.int n, .int i, .int i]⟩ :=
      steps_ifNotZero h21 htarget (n := i - i)
    rwa [if_neg (by simp)] at hbranch
  obtain ⟨fs, hfs, hpath⟩ := path_compare pool n i
  rw [if_pos h] at hpath
  refine ⟨fs ++ [_, _, _, _, _], ?_, hpath.trans <| .step (steps_loadInt h18 rfl) <|
    .step (steps_loadInt h19 rfl) <| .step (steps_subInt h20) <| .step hagree <|
    .step (steps_loadInt h24 rfl) <| .here _⟩
  rw [List.map_append, hfs]
  rfl

/-- The whole way through the method: into the loop, `n` times through its body, and out. -/
def offsets (n : Int32) : List Nat :=
  [0, 1, 2, 3] ++ (List.replicate n.toNatClampNeg iteration).flatten ++
    [4, 5, 6, 18, 19, 20, 21, 24, 25]

theorem length_offsets (n : Int32) : (offsets n).length = 6 * n.toNatClampNeg + 13 := by
  have hloop : ∀ k, (List.replicate k iteration).flatten.length = 6 * k := by
    intro k
    induction k with
    | zero => rfl
    | succ k ih =>
      rw [List.replicate_succ, List.flatten_cons, List.length_append, ih]
      simp only [iteration, List.length_cons, List.length_nil]
      omega
  simp only [offsets, List.length_append, hloop, List.length_cons, List.length_nil]
  omega

theorem path_count (n : Int32) : ∃ fs, fs.map Frame.pc ++ [25] = offsets n ∧
    Path ⟨pool, code⟩ (.start [.int n, .unset, .unset]) fs
      ⟨25, [.int (max n 0)], [.int n, .int (max n 0), .int (max n 0)]⟩ := by
  have hwhole : 0 + n.toNatClampNeg ≤ n.toNatClampNeg := by omega
  obtain ⟨fs, hfs, hstart⟩ := path_start pool n
  obtain ⟨gs, hgs, hloop⟩ := path_loop pool hwhole
  obtain ⟨hs, hhs, hexit⟩ := path_exit pool (le_ofNat n)
  rw [Nat.zero_add] at hloop
  rw [ofNat_toNatClampNeg_eq_max] at hloop hexit
  refine ⟨fs ++ (gs ++ hs), ?_, hstart.trans (hloop.trans hexit)⟩
  simp only [List.map_append, hfs, hgs, hhs, offsets, List.append_assoc]
  rfl

/-! ## Calls -/

theorem findCode_eq {t : ClassTable} (h : t.get? "Loop" = some cls) :
    t.findCode "Loop" "count" = .ok ⟨2, 3, code⟩ := by
  have hcongr : t.findCode "Loop" "count" =
      ClassTable.findCode ⟨[("Loop", cls)]⟩ "Loop" "count" := ClassTable.findCode_congr h
  rw [hcongr]
  rfl

/-- **The loop runs as often as it is told.**  On any machine that has the class, and in any world,
    a call of `count` with the number `n` ends; it returns the greater of `n` and 0, leaves the heap
    as it was and calls no host method.  The instructions that are fetched are those before the
    loop, then those of the loop's body as many times as the result says, then those behind it, and
    when the method returns both counters have this value. -/
theorem invoke_count (m : Machine) (hcls : m.classes.get? "Loop" = some cls) (n : Int32)
    (fuel : Nat) (hfuel : 6 * n.toNatClampNeg + 13 ≤ fuel) (w : World) :
    let out := m.invoke fuel "Loop" "count" none [.int n] w
    out.1 = .ok (some (.int (max n 0))) ∧ out.2.heap = w.heap ∧ out.2.calls = w.calls ∧
      ∃ fs, out.2.frames = w.frames ++ fs ∧ fs.map Frame.pc =
        [0, 1, 2, 3] ++ (List.replicate n.toNatClampNeg [4, 5, 6, 9, 12, 15]).flatten ++
          [4, 5, 6, 18, 19, 20, 21, 24, 25] ∧
        fs.getLast? =
          some ⟨25, [.int (max n 0)], [.int n, .int (max n 0), .int (max n 0)]⟩ := by
  have hget : m.classes.get "Loop" = .ok cls := by simp only [ClassTable.get, hcls]
  have hlen : (none.toList ++ [Value.int n]).length ≤ 3 := by simp
  have hreturn : Decodes code 25 .returnInt 26 := ⟨_, _, rfl⟩
  obtain ⟨fs, hfs, hpath⟩ := path_count cls.pool n
  have hlength : fs.length < fuel := by
    have h := congrArg List.length hfs
    rw [length_offsets, List.length_append, List.length_map, List.length_singleton] at h
    omega
  obtain ⟨w', halike, hframes, hinvoke⟩ := Machine.invoke_of_path hget (findCode_eq hcls)
    hlen hpath (does_returnInt hreturn) hlength w
  dsimp only
  rw [hinvoke]
  refine ⟨rfl, halike.heap, halike.calls, _, hframes, ?_, List.getLast?_concat⟩
  rw [List.map_append]
  exact hfs

/-- The largest number is counted up to. -/
theorem invoke_count_maxValue :
    let m : Machine := ⟨⟨[("Loop", cls)]⟩, .empty, .isolateStatic⟩
    let out := m.invoke 0x400000000 "Loop" "count" none [.int Int32.maxValue] .start
    out.1 = .ok (some (.int 2147483647)) ∧ out.2.heap = .empty ∧ out.2.calls = [] ∧
      ∃ fs, out.2.frames = fs ∧ fs.map Frame.pc =
        [0, 1, 2, 3] ++ (List.replicate 2147483647 [4, 5, 6, 9, 12, 15]).flatten ++
          [4, 5, 6, 18, 19, 20, 21, 24, 25] ∧
        fs.getLast? = some ⟨25, [.int 2147483647],
          [.int 2147483647, .int 2147483647, .int 2147483647]⟩ := by
  intro m
  exact invoke_count m rfl Int32.maxValue 0x400000000 (by decide) .start

end Bytecode.Counting
