/-
  Objects come from `new` alone.

  Every `new` that is fetched leaves an event, so the objects of a heap can be counted in the
  history of the run that made them.

  * `Decoded.row_of_read`: an instruction and its mnemonic stand in one row of the table, so what is
    carried out as `new` is told as `new`;
  * `Paced`: of the objects that a heap has got more, there are no more than `new` was fetched since
    then.  This is a sound contract, whatever the machine, and it holds between any two points of a
    run of which one comes before the other (`Point.Visits.paced`), on whichever heaps they are.
-/
import Bytecode.Proofs.Machine.Flow
import Bytecode.Proofs.Machine.Points
import Bytecode.Proofs.Octets.Grammar

namespace Bytecode

/-! ## Instructions -/

/-- An instruction that changes the heap writes a field or is `new`. -/
theorem perform_update {r : Routine} {heap heap' : Heap} {offset : Nat} {i : Instruction}
    {f g : Frame} (h : perform r heap offset i f = .ok (.update g heap')) :
    (∃ id name v, heap.putField id name v = .ok heap') ∨
      (∃ index, i = .new index) ∧ ∃ className, heap' = (heap.alloc className).2 := by
  cases i with
  | putField index =>
    simp only [perform, Except.bind_eq_ok_iff, Except.map_eq_ok_iff] at h
    obtain ⟨ref, -, ⟨v, _⟩, -, ⟨id, _⟩, -, heap'', hput, heq⟩ := h
    obtain ⟨-, rfl⟩ := Effect.update.inj heq
    exact Or.inl ⟨id, _, v, hput⟩
  | new index =>
    simp only [perform, Except.bind_eq_ok_iff, Except.pure_eq_ok_iff] at h
    obtain ⟨className, -, heq⟩ := h
    obtain ⟨-, rfl⟩ := Effect.update.inj heq
    exact Or.inr ⟨⟨index, rfl⟩, className, rfl⟩
  | ifNotZero _ =>
    simp only [perform, Except.bind_eq_ok_iff] at h
    obtain ⟨_, -, h⟩ := h
    obtain ⟨_, h⟩ | h := branchIf_eq_ok h <;> cases h
  | ifNotEqualInt _ | ifGreaterEqualInt _ =>
    simp only [perform, Except.bind_eq_ok_iff] at h
    obtain ⟨_, -, _, -, h⟩ := h
    obtain ⟨_, h⟩ | h := branchIf_eq_ok h <;> cases h
  | invokeSpecial _ =>
    simp only [perform, Except.bind_eq_ok_iff] at h
    obtain ⟨_, -, _, -, _, -, _, -, h⟩ := h
    split at h <;> cases h
  | _ => simp [perform, Except.bind_eq_ok_iff, Except.map_eq_ok_iff, Except.pure_eq_ok_iff] at h

def Form.Makes : Form → Instruction → Prop
  | .fixed j, i => i = j
  | .signed8 f, i => ∃ n, i = f n
  | .signed16 f, i => ∃ n, i = f n
  | .unsigned8 f, i => ∃ n, i = f n
  | .unsigned16 f, i => ∃ n, i = f n
  | .slotAndDelta f, i => ∃ slot delta, i = f slot delta

theorem Form.makes_of_read {form : Form} {i : Instruction} {c c' : Cursor}
    (h : form.read.run c = (.ok i, c')) : form.Makes i := by
  have hmap : ∀ {α : Type} {r : Reader ReadError α} {f : α → Instruction},
      (f <$> r).run c = (.ok i, c') → ∃ n, i = f n := by
    intro α r f hmap
    obtain ⟨n, _, -, hn⟩ := Reader.run_bind_eq_ok.1 hmap
    exact ⟨n, (Except.ok.inj (Prod.mk.inj hn).1).symm⟩
  cases form with
  | fixed j => exact (Except.ok.inj (Prod.mk.inj h).1).symm
  | signed8 f => exact hmap h
  | signed16 f => exact hmap h
  | unsigned8 f => exact hmap h
  | unsigned16 f => exact hmap h
  | slotAndDelta f =>
    obtain ⟨slot, _, -, h⟩ := Reader.run_bind_eq_ok.1 h
    obtain ⟨delta, _, -, h⟩ := Reader.run_bind_eq_ok.1 h
    exact ⟨slot, delta, (Except.ok.inj (Prod.mk.inj h).1).symm⟩

theorem Decoded.row_of_read {d : Decoded} {c c' : Cursor} (h : Decoded.read.run c = (.ok d, c')) :
    ∃ op ∈ Opcode.table, d.tag = op.tag ∧ d.mnemonic = op.mnemonic ∧
      op.form.Makes d.instruction := by
  obtain ⟨start, _, -, h⟩ := Reader.run_bind_eq_ok.1 h
  obtain ⟨tag, _, -, h⟩ := Reader.run_bind_eq_ok.1 h
  split at h
  · cases (Prod.mk.inj h).1
  · next op hop =>
    obtain ⟨i, _, hi, h⟩ := Reader.run_bind_eq_ok.1 h
    obtain rfl := Except.ok.inj (Prod.mk.inj h).1
    have htag : op.tag = tag := by simpa using List.find?_some hop
    exact ⟨op, List.mem_of_find?_eq_some hop, htag.symm, rfl,
      Form.makes_of_read (Reader.run_withError_eq_ok.1 hi)⟩

theorem Opcode.mnemonic_of_new :
    ∀ op ∈ table, ∀ index, op.form.Makes (.new index) → op.mnemonic = "new" := by
  simp [table, Form.Makes]

theorem mnemonic_of_fetch {code : Octets} {pc next : Nat} {d : Decoded} {index : UInt16}
    (h : fetch code pc = .ok (d, next)) (hd : d.instruction = .new index) : d.mnemonic = "new" := by
  unfold fetch at h
  dsimp only at h
  split at h
  · cases h
  · split at h
    · next hread =>
      obtain ⟨rfl, -⟩ := Prod.mk.inj (Except.ok.inj h)
      obtain ⟨op, hop, -, hmnemonic, hmakes⟩ := Decoded.row_of_read hread
      rw [hmnemonic]
      exact Opcode.mnemonic_of_new op hop index (hd ▸ hmakes)
    · cases h
    · cases h

/-! ## Counting -/

/-- The event of fetching a `new`. -/
def Event.isNew : Event → Bool
  | .fetched _ mnemonic => mnemonic = "new"
  | _ => false

def World.made (w : World) : Nat :=
  w.history.countP Event.isNew

/-- There are no more new objects than `new` was fetched. -/
structure Paced (w w' : World) : Prop where
  made : w.made ≤ w'.made
  size : w'.heap.size + w.made ≤ w.heap.size + w'.made

namespace Paced

variable {w w' w'' : World}

theorem refl (w : World) : Paced w w := ⟨Nat.le_refl _, Nat.le_refl _⟩

theorem trans (h : Paced w w') (h' : Paced w' w'') : Paced w w'' := by
  obtain ⟨hmade, hsize⟩ := h
  obtain ⟨hmade', hsize'⟩ := h'
  exact ⟨by omega, by omega⟩

theorem made_note (w : World) (e : Event) :
    (w.note e).made = w.made + if e.isNew then 1 else 0 :=
  List.countP_cons

theorem note (w : World) (e : Event) : Paced w (w.note e) := by
  have hmade := made_note w e
  have hsize : (w.note e).heap.size = w.heap.size := rfl
  exact ⟨by omega, by omega⟩

theorem onHeap {heap : Heap} (h : heap.size ≤ w.heap.size) : Paced w { w with heap } :=
  ⟨Nat.le_refl _, Nat.add_le_add_right h _⟩

theorem worldOfCall (m : Machine) (receiver : Option Value) (w : World) :
    Paced w (m.worldOfCall receiver w) := by
  unfold Machine.worldOfCall
  split
  · exact onHeap (Nat.zero_le _)
  · exact .refl w

theorem worldAfterCall {m : Machine} {receiver : Option Value}
    (h : Paced (m.worldOfCall receiver w) w') : Paced w (m.worldAfterCall receiver w w') := by
  unfold Machine.worldOfCall at h
  unfold Machine.worldAfterCall
  split at h
  · have hmade : w.made ≤ w'.made := h.made
    exact ⟨hmade, Nat.add_le_add_left hmade _⟩
  · exact h

end Paced

/-- The count as a contract; it asks nothing of values and frames. -/
def Contract.pace : Contract where
  Given _ _ := True
  Fits _ _ _ := True
  Evolves := Paced
  Good _ _ := True

namespace Paced

variable {m : Machine} {w w' : World}

theorem continues {r : Routine} {out : Progress × World} (h : Paced w out.2) :
    Contract.pace.Continues r w out := by
  obtain ⟨f | result | why, w'⟩ := out
  · exact ⟨h, trivial⟩
  · exact ⟨h, trivial⟩
  · exact ⟨h, trivial⟩

theorem resume {f : Frame} {out : Result × World} (h : Paced w out.2) :
    Paced w (Machine.resume f out).2 := by
  obtain ⟨why | result, w'⟩ := out
  · exact h
  · exact h

theorem callNative (key : NativeKey) (args : List Value) :
    Paced w (m.callNative key args w).2 := by
  unfold Machine.callNative
  dsimp only
  split
  · exact .note w _
  · exact (note w _).trans (.note _ _)

theorem settle {call : Caller} (hcall : Contract.pace.Honours call) {effect : Effect}
    (h : ∀ f heap, effect ≠ .update f heap) : Paced w (m.settle call effect w).2 := by
  cases effect with
  | advance f => exact .refl w
  | branch f => exact .note w _
  | update f heap => exact absurd rfl (h f heap)
  | finish result => exact .refl w
  | native key args f => exact resume (callNative key args)
  | skip callee f => exact .note w _
  | call callee receiver args f =>
    refine resume ?_
    rw [Machine.callOnHeap_eq]
    exact worldAfterCall (hcall callee receiver args _ trivial).1

theorem made_noteFetch (d : Decoded) (f : Frame) (w : World) :
    (Machine.noteFetch d f w).made = w.made + if d.mnemonic = "new" then 1 else 0 := by
  simp [Machine.noteFetch, made_note, Event.isNew]

theorem noteFetch (d : Decoded) (f : Frame) (w : World) : Paced w (Machine.noteFetch d f w) := by
  have hmade : w.made ≤ (Machine.noteFetch d f w).made := by
    rw [made_noteFetch]
    exact Nat.le_add_right _ _
  exact ⟨hmade, Nat.add_le_add_left hmade _⟩

/-- An object that is made is paid for by the event of its `new`. -/
theorem update {d : Decoded} {f g : Frame} {heap : Heap} {r : Routine} {next : Nat}
    (hfetch : fetch r.code f.pc = .ok (d, next))
    (hperform : perform r w.heap d.start d.instruction { f with pc := next } =
      .ok (.update g heap)) :
    Paced w { Machine.noteFetch d f w with heap } := by
  have hnote := noteFetch d f w
  rcases perform_update hperform with ⟨id, name, v, hput⟩ | ⟨⟨index, hi⟩, className, rfl⟩
  · exact hnote.trans (.onHeap (Nat.le_of_eq (Heap.size_putField hput)))
  · have hmade : (Machine.noteFetch d f w).made = w.made + 1 := by
      rw [made_noteFetch, if_pos (mnemonic_of_fetch hfetch hi)]
    refine ⟨hnote.made, ?_⟩
    show (w.heap.alloc className).2.size + w.made ≤ w.heap.size + (Machine.noteFetch d f w).made
    rw [Heap.size_alloc, hmade]
    omega

theorem step {call : Caller} (hcall : Contract.pace.Honours call) (r : Routine) (f : Frame)
    (w : World) : Paced w (m.step call r f w).2 := by
  unfold Machine.step
  split
  · exact .refl w
  · next d next hfetch =>
    have hnote := noteFetch d f w
    dsimp only
    split
    · exact hnote
    · next effect heffect =>
      by_cases h : ∃ g heap, effect = .update g heap
      · obtain ⟨g, heap, rfl⟩ := h
        exact update hfetch heffect
      · exact hnote.trans (settle hcall fun g heap heq => h ⟨g, heap, heq⟩)

/-- **No run makes an object without a `new`.** -/
theorem sound (m : Machine) : Contract.pace.Sound m where
  refl := .refl
  trans := .trans
  step hcall _ := continues (step hcall _ _ _)
  exhausted _ := trivial
  refuse _ _ := trivial
  enter _ _ _ _ := ⟨.note _ _, trivial⟩
  leave _ := ⟨.note _ _, trivial⟩

end Paced

/-- Between two points of a run no object was made without a `new`, be it in methods that were
    called and have returned. -/
theorem Point.Visits.paced {m : Machine} {p q : Point} (h : p.Visits m q) :
    Paced p.world q.world := by
  induction h with
  | here => exact .refl _
  | next _ hq ih => exact ih.trans ((Paced.sound m).next? hq trivial).1
  | @enter q q' _ hq ih =>
    obtain ⟨fuel, callee, receiver, args, f, w, -, heffect, hfirst⟩ :=
      Point.callee?_eq_some_iff.1 hq
    obtain ⟨-, hworld⟩ := Machine.fuel_of_firstPoint? hfirst
    obtain ⟨d, -, -, -, rfl⟩ := Point.effect?_eq_some_iff.1 heffect
    rw [hworld]
    exact ih.trans (((Paced.noteFetch d q.frame q.world).trans
      (.worldOfCall m receiver _)).trans (.note _ _))

end Bytecode
