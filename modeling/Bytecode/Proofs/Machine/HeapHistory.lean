/-
  A heap answers from its history.

  A history is the list of the operations that were carried out from the empty heap on, those that
  failed included; the latest one comes first.  What the next operation answers can be read off the
  history alone:

  * `allocs` counts the objects that were made, hence it is the size of the heap and the number that
    the next object gets;
  * `LastWrite`, `NoWrite`: the latest write to a field that did not fail, or that there was none;
  * `LastNamed`: the latest operation that gave an object its class;
  * `Answers`: what an operation has to answer after a history.

  The step is `object?_apply`: what an operation does to the object of a number.  By induction on
  the history the heap holds what the history says (`field?_iff_lastWrite`,
  `lastNamed_of_object?`), and so its answers are the right ones (`answers_from_history`).
-/
import Bytecode.Proofs.Machine.Heap

namespace Bytecode.Heap

/-- What can be asked of a heap. -/
inductive Op where
  | alloc (className : String)
  | get (id : Nat)
  | getField (id : Nat) (name : String)
  | putField (id : Nat) (name : String) (v : Value)
  | setClass (id : Nat) (className : String)
  deriving DecidableEq, Repr

/-- What an operation that does not fail gives back. -/
inductive Answer where
  | number (id : Nat)
  | object (o : Object)
  | value (v : Value)
  | done
  deriving DecidableEq, Repr

/-- What a change gives back, with the state that it leaves. -/
def ofChange {σ : Type} (out : Except RunError Unit × σ) : Except RunError Answer × σ :=
  ((fun () => .done) <$> out.1, out.2)

def apply (h : Heap) : Op → Except RunError Answer × Heap
  | .alloc className => (.ok (.number (h.alloc className).1), (h.alloc className).2)
  | .get id => (.object <$> h.get id, h)
  | .getField id name => (.value <$> h.getField id name, h)
  | .putField id name v => ofChange (h.write id name v)
  | .setClass id className => ofChange (h.rename id className)

def after : List Op → Heap
  | [] => .empty
  | op :: past => ((after past).apply op).2

def answer (past : List Op) (op : Op) : Except RunError Answer :=
  ((after past).apply op).1

/-! ## What a history says -/

def Op.isAlloc : Op → Bool
  | .alloc _ => true
  | _ => false

def Op.target? : Op → Option Nat
  | .alloc _ => none
  | .get id | .getField id _ | .putField id _ _ | .setClass id _ => some id

def allocs (past : List Op) : Nat :=
  past.countP Op.isAlloc

/-- The value of the latest write to a field that did not fail: the object had been made before. -/
def LastWrite (past : List Op) (id : Nat) (name : String) (v : Value) : Prop :=
  ∃ later earlier, past = later ++ .putField id name v :: earlier ∧ id < allocs earlier ∧
    ∀ w, .putField id name w ∉ later

/-- All writes to a field failed, if there were any: the object had not been made yet. -/
def NoWrite (past : List Op) (id : Nat) (name : String) : Prop :=
  ∀ later v earlier, past = later ++ .putField id name v :: earlier → allocs earlier ≤ id

/-- The class that an object was made of, or the one that it was given last. -/
def LastNamed (past : List Op) (id : Nat) (className : String) : Prop :=
  ∃ later op earlier, past = later ++ op :: earlier ∧
    (op = .alloc className ∧ allocs earlier = id ∨
      op = .setClass id className ∧ id < allocs earlier) ∧
    ∀ c, .setClass id c ∉ later

/-- What an operation has to answer after a history. -/
inductive Answers (past : List Op) : Op → Except RunError Answer → Prop
  | alloc (className : String) : Answers past (.alloc className) (.ok (.number (allocs past)))
  /-- An object that has not been made is missed, whatever is asked of it. -/
  | missed {op : Op} {id : Nat} (hop : op.target? = some id) (h : allocs past ≤ id) :
      Answers past op (.error (.noSuchObject id))
  | get {id : Nat} {o : Object} (h : id < allocs past) (hname : LastNamed past id o.className)
      (hfields : ∀ name v, o.field? name = some v ↔ LastWrite past id name v) :
      Answers past (.get id) (.ok (.object o))
  | getField {id : Nat} {name : String} {v : Value} (h : id < allocs past)
      (hv : LastWrite past id name v) : Answers past (.getField id name) (.ok (.value v))
  | notSet {id : Nat} {name : String} (h : id < allocs past) (hnone : NoWrite past id name) :
      Answers past (.getField id name) (.error (.fieldNotSet id name))
  | putField {id : Nat} (name : String) (v : Value) (h : id < allocs past) :
      Answers past (.putField id name v) (.ok .done)
  | setClass {id : Nat} (className : String) (h : id < allocs past) :
      Answers past (.setClass id className) (.ok .done)

variable {h : Heap} {past : List Op} {op : Op} {id : Nat} {name className : String} {v : Value}

theorem allocs_cons (op : Op) (past : List Op) :
    allocs (op :: past) = allocs past + if op.isAlloc then 1 else 0 :=
  List.countP_cons

theorem allocs_le_of_split {later earlier : List Op} (h : past = later ++ op :: earlier) :
    allocs earlier ≤ allocs past := by
  have hsublist : earlier.Sublist past :=
    h ▸ (List.sublist_cons_self op earlier).trans (List.sublist_append_right later _)
  exact hsublist.countP_le

theorem LastWrite.lt (h : LastWrite past id name v) : id < allocs past := by
  obtain ⟨later, earlier, hpast, hlt, -⟩ := h
  exact Nat.lt_of_lt_of_le hlt (allocs_le_of_split hpast)

/-- The latest write of a longer history is its latest operation, or the latest write before. -/
theorem lastWrite_cons_iff : LastWrite (op :: past) id name v ↔
    op = .putField id name v ∧ id < allocs past ∨
      (∀ w, op ≠ .putField id name w) ∧ LastWrite past id name v := by
  constructor
  · rintro ⟨later, earlier, heq, hlt, hlater⟩
    cases later with
    | nil =>
      obtain ⟨rfl, rfl⟩ := List.cons.inj heq
      exact .inl ⟨rfl, hlt⟩
    | cons op' later =>
      obtain ⟨rfl, rfl⟩ := List.cons.inj heq
      refine .inr ⟨fun w hop => hlater w (hop ▸ List.mem_cons_self), later, earlier, rfl, hlt, ?_⟩
      exact fun w hw => hlater w (List.mem_cons_of_mem _ hw)
  · rintro (⟨rfl, hlt⟩ | ⟨hop, later, earlier, rfl, hlt, hlater⟩)
    · exact ⟨[], past, rfl, hlt, fun w => List.not_mem_nil⟩
    · refine ⟨op :: later, earlier, rfl, hlt, fun w hw => ?_⟩
      rcases List.mem_cons.1 hw with heq | hw
      · exact hop w heq.symm
      · exact hlater w hw

theorem noWrite_of_not_lastWrite (h : ∀ v, ¬ LastWrite past id name v) : NoWrite past id name := by
  induction past with
  | nil =>
    intro later v earlier heq
    simp at heq
  | cons op past ih =>
    have hpast : ∀ v, ¬ LastWrite past id name v := by
      intro v hv
      by_cases hop : ∃ w, op = .putField id name w
      · obtain ⟨w, rfl⟩ := hop
        exact h w (lastWrite_cons_iff.2 (.inl ⟨rfl, hv.lt⟩))
      · exact h v (lastWrite_cons_iff.2 (.inr ⟨fun w hw => hop ⟨w, hw⟩, hv⟩))
    intro later v earlier heq
    cases later with
    | nil =>
      obtain ⟨rfl, rfl⟩ := List.cons.inj heq
      exact Nat.le_of_not_lt fun hlt => h v (lastWrite_cons_iff.2 (.inl ⟨rfl, hlt⟩))
    | cons op' later => exact ih hpast later v earlier (List.cons.inj heq).2

theorem LastNamed.cons (h : LastNamed past id className) (hop : ∀ c, op ≠ .setClass id c) :
    LastNamed (op :: past) id className := by
  obtain ⟨later, op', earlier, rfl, hnamed, hlater⟩ := h
  refine ⟨op :: later, op', earlier, rfl, hnamed, fun c hc => ?_⟩
  rcases List.mem_cons.1 hc with heq | hc
  · exact hop c heq.symm
  · exact hlater c hc

/-! ## What an operation does -/

theorem get_of_object? {o : Object} (ho : h.objects[id]? = some o) : h.get id = .ok o := by
  rw [get, ho]

theorem get_of_size_le (hsize : h.size ≤ id) : h.get id = .error (.noSuchObject id) := by
  rw [get, size_le_iff.1 hsize]

theorem modify_of_object? {o : Object} (ho : h.objects[id]? = some o) (f : Object → Object) :
    h.modify id f = (.ok (), ⟨h.objects.setIfInBounds id (f o)⟩) := by
  rw [modify, ho]

theorem modify_of_size_le (hsize : h.size ≤ id) (f : Object → Object) :
    h.modify id f = (.error (.noSuchObject id), h) := by
  rw [modify, size_le_iff.1 hsize]

/-- A change shows in the object that it is about and in no other, and makes no objects. -/
theorem objects_modify (h : Heap) (i id : Nat) (f : Object → Object) :
    (h.modify i f).2.size = h.size ∧
      (h.modify i f).2.objects[id]? =
        if i = id then (h.objects[id]?).map f else h.objects[id]? := by
  by_cases hsize : h.size ≤ i
  · rw [modify_of_size_le hsize]
    refine ⟨rfl, ?_⟩
    split
    · next hi =>
      subst hi
      rw [size_le_iff.1 hsize]
      rfl
    · rfl
  · have hlt : i < h.objects.size := Nat.lt_of_not_le hsize
    rw [modify_of_object? (Array.getElem?_eq_getElem hlt)]
    refine ⟨Array.size_setIfInBounds, ?_⟩
    rw [Array.getElem?_setIfInBounds]
    split
    · next hi =>
      subst hi
      rw [Array.getElem?_eq_getElem hlt, Option.map_some]
    · rfl

/-- What an operation makes of the object of a number. -/
def Op.edit (id : Nat) : Op → Object → Object
  | .putField i name v => if i = id then (·.setField name v) else fun o => o
  | .setClass i className => if i = id then ({ · with className }) else fun o => o
  | .alloc _ | .get _ | .getField _ _ => fun o => o

theorem size_apply (h : Heap) (op : Op) :
    (h.apply op).2.size = h.size + if op.isAlloc then 1 else 0 := by
  cases op with
  | alloc className => exact size_alloc h className
  | get id | getField id name => rfl
  | putField id name v => exact (objects_modify h id id _).1
  | setClass id className => exact (objects_modify h id id _).1

/-- **What an operation does to the object of a number**: it makes it, or it edits it. -/
theorem object?_apply (h : Heap) (op : Op) (id : Nat) :
    (∃ className, op = .alloc className ∧ id = h.size ∧
      (h.apply op).2.objects[id]? = some ⟨className, []⟩) ∨
    (h.apply op).2.objects[id]? = (h.objects[id]?).map (op.edit id) := by
  have hid : ∀ o : Option Object, o.map (fun o => o) = o := fun o => Option.map_id_apply
  cases op with
  | alloc className =>
    have hpush : (h.apply (.alloc className)).2.objects[id]? =
        if id = h.size then some ⟨className, []⟩ else h.objects[id]? := Array.getElem?_push
    by_cases hsize : id = h.size
    · exact .inl ⟨className, rfl, hsize, by rw [hpush, if_pos hsize]⟩
    · exact .inr (by rw [hpush, if_neg hsize]; exact (hid _).symm)
  | get i | getField i name => exact .inr (hid _).symm
  | putField i name v =>
    refine .inr ((objects_modify h i id _).2.trans ?_)
    by_cases hi : i = id
    · simp only [Op.edit, if_pos hi]
    · simp only [Op.edit, if_neg hi, hid]
  | setClass i className =>
    refine .inr ((objects_modify h i id _).2.trans ?_)
    by_cases hi : i = id
    · simp only [Op.edit, if_pos hi]
    · simp only [Op.edit, if_neg hi, hid]

/-- An operation that fails leaves the heap as it was. -/
theorem heap_of_apply_error {e : RunError} (he : (h.apply op).1 = .error e) :
    (h.apply op).2 = h := by
  have hmodify : ∀ {id : Nat} {f : Object → Object}, (ofChange (h.modify id f)).1 = .error e →
      (ofChange (h.modify id f)).2 = h := by
    intro id f hanswer
    unfold modify at hanswer ⊢
    split at hanswer
    · cases hanswer
    · rfl
  cases op with
  | alloc className => cases he
  | get id | getField id name => rfl
  | putField id name v => exact hmodify he
  | setClass id className => exact hmodify he

/-! ## What the heap holds -/

theorem size_after (past : List Op) : (after past).size = allocs past := by
  induction past with
  | nil => rfl
  | cons op past ih => rw [after, size_apply, ih, allocs_cons]

theorem lt_allocs_of_object? {o : Object} (ho : (after past).objects[id]? = some o) :
    id < allocs past := by
  rw [← size_after]
  exact (Array.getElem?_eq_some_iff.1 ho).1

/-- An object has the class that its history says. -/
theorem lastNamed_of_object? {o : Object} (ho : (after past).objects[id]? = some o) :
    LastNamed past id o.className := by
  induction past generalizing o with
  | nil => simp [after, empty] at ho
  | cons op past ih =>
    rw [after] at ho
    rcases object?_apply (after past) op id with ⟨className, rfl, hid, hmade⟩ | hedited
    · rw [hmade] at ho
      obtain rfl := Option.some.inj ho
      rw [size_after] at hid
      exact ⟨[], .alloc className, past, rfl, .inl ⟨rfl, hid.symm⟩, fun _ => List.not_mem_nil⟩
    · rw [hedited] at ho
      obtain ⟨o', ho', rfl⟩ := Option.map_eq_some_iff.1 ho
      by_cases hop : ∃ c, op = .setClass id c
      · obtain ⟨c, rfl⟩ := hop
        have hlt := lt_allocs_of_object? ho'
        refine ⟨[], .setClass id c, past, rfl, .inr ⟨?_, hlt⟩, fun _ => List.not_mem_nil⟩
        simp [Op.edit]
      · -- nothing else gives an object a class
        have hclass : (op.edit id o').className = o'.className := by
          cases op with
          | alloc | get | getField => rfl
          | putField i name v =>
            by_cases hi : i = id
            · simp only [Op.edit, if_pos hi, Object.setField]
            · simp only [Op.edit, if_neg hi]
          | setClass i c =>
            have hne : i ≠ id := fun heq => hop ⟨c, by rw [heq]⟩
            simp only [Op.edit, if_neg hne]
        rw [hclass]
        exact (ih ho').cons fun c hc => hop ⟨c, hc⟩

/-- The value that an operation leaves in a field of the object of a number. -/
theorem field?_edit (op : Op) (id : Nat) (o : Object) (name : String) :
    (∃ w, op = .putField id name w ∧ (op.edit id o).field? name = some w) ∨
      (∀ w, op ≠ .putField id name w) ∧ (op.edit id o).field? name = o.field? name := by
  cases op with
  | alloc | get | getField => exact .inr ⟨by simp, rfl⟩
  | setClass i c =>
    refine .inr ⟨by simp, ?_⟩
    by_cases hi : i = id
    · simp only [Op.edit, if_pos hi, Object.field?]
    · simp only [Op.edit, if_neg hi]
  | putField i name' w =>
    by_cases hi : i = id
    · subst hi
      have hfield : (Op.edit i (.putField i name' w) o).field? name =
          if name = name' then some w else o.field? name := by
        simp only [Op.edit, if_true, Object.field?_setField]
      by_cases hname : name = name'
      · subst hname
        exact .inl ⟨w, rfl, by rw [hfield, if_pos rfl]⟩
      · refine .inr ⟨fun w' heq => hname ?_, by rw [hfield, if_neg hname]⟩
        exact (Op.putField.inj heq).2.1.symm
    · refine .inr ⟨fun w' heq => hi (Op.putField.inj heq).1, ?_⟩
      simp only [Op.edit, if_neg hi]

/-- **A field holds what was last written to it.** -/
theorem field?_iff_lastWrite {o : Object} (ho : (after past).objects[id]? = some o) :
    o.field? name = some v ↔ LastWrite past id name v := by
  induction past generalizing o with
  | nil => simp [after, empty] at ho
  | cons op past ih =>
    rw [after] at ho
    rcases object?_apply (after past) op id with ⟨className, rfl, hid, hmade⟩ | hedited
    · -- a new object has no fields, and nothing was written to it before it was made
      rw [hmade] at ho
      obtain rfl := Option.some.inj ho
      rw [size_after] at hid
      have hnone : ¬ LastWrite (.alloc className :: past) id name v := by
        intro hlast
        rcases lastWrite_cons_iff.1 hlast with ⟨heq, -⟩ | ⟨-, hlast⟩
        · cases heq
        · exact absurd hlast.lt (Nat.not_lt.2 (Nat.le_of_eq hid.symm))
      simp [Object.field?, hnone]
    · rw [hedited] at ho
      obtain ⟨o', ho', rfl⟩ := Option.map_eq_some_iff.1 ho
      rw [lastWrite_cons_iff]
      rcases field?_edit op id o' name with ⟨w, rfl, hfield⟩ | ⟨hop, hfield⟩
      · have hlt := lt_allocs_of_object? ho'
        rw [hfield]
        constructor
        · intro heq
          rw [Option.some.inj heq]
          exact .inl ⟨rfl, hlt⟩
        · rintro (⟨heq, -⟩ | ⟨hne, -⟩)
          · rw [(Op.putField.inj heq).2.2]
          · exact absurd rfl (hne w)
      · rw [hfield, ih ho']
        constructor
        · intro hlast
          exact .inr ⟨hop, hlast⟩
        · rintro (⟨heq, -⟩ | ⟨-, hlast⟩)
          · exact absurd heq (hop v)
          · exact hlast

theorem getField_of_object? {o : Object} (ho : h.objects[id]? = some o) (name : String) :
    h.getField id name = match o.field? name with
      | some v => .ok v
      | none => .error (.fieldNotSet id name) := by
  rw [getField, get_of_object? ho]
  rfl

/-- What an operation on a missing object answers. -/
theorem apply_of_missed (hop : op.target? = some id) (hsize : h.size ≤ id) :
    (h.apply op).1 = .error (.noSuchObject id) := by
  cases op with
  | alloc className => cases hop
  | get i | getField i name =>
    obtain rfl := Option.some.inj hop
    simp [apply, getField, get_of_size_le hsize, bind, Except.bind, Functor.map, Except.map]
  | putField i name v =>
    obtain rfl := Option.some.inj hop
    rw [apply, write, modify_of_size_le hsize]
    rfl
  | setClass i className =>
    obtain rfl := Option.some.inj hop
    rw [apply, rename, modify_of_size_le hsize]
    rfl

theorem answers_of_object? {o : Object} (hop : op.target? = some id)
    (ho : (after past).objects[id]? = some o) : Answers past op (answer past op) := by
  have hlt := lt_allocs_of_object? ho
  unfold answer
  cases op with
  | alloc className => cases hop
  | get i =>
    obtain rfl := Option.some.inj hop
    rw [apply, get_of_object? ho]
    exact .get hlt (lastNamed_of_object? ho) fun name v => field?_iff_lastWrite ho
  | getField i name =>
    obtain rfl := Option.some.inj hop
    rw [apply, getField_of_object? ho]
    cases hv : o.field? name with
    | some v => exact .getField hlt ((field?_iff_lastWrite ho).1 hv)
    | none =>
      refine .notSet hlt (noWrite_of_not_lastWrite fun v hlast => ?_)
      rw [(field?_iff_lastWrite ho).2 hlast] at hv
      cases hv
  | putField i name v =>
    obtain rfl := Option.some.inj hop
    rw [apply, write, modify_of_object? ho]
    exact .putField name v hlt
  | setClass i className =>
    obtain rfl := Option.some.inj hop
    rw [apply, rename, modify_of_object? ho]
    exact .setClass className hlt

/-- **The heap answers from its history.**  It has as many objects as were made, and the next one
    gets that number.  What an operation answers follows from the history alone, and one that fails
    leaves the heap as it was.  No object can be changed that was not made. -/
theorem answers_from_history (past : List Op) :
    (after past).size = allocs past ∧
    (∀ op, Answers past op (answer past op) ∧
      ∀ e, answer past op = .error e → after (op :: past) = after past) ∧
    ∀ id f, ((after past).update id f).Ensures
      (fun e => e = .noSuchObject id ∧ allocs past ≤ id) (fun _ => id < allocs past) := by
  refine ⟨size_after past, fun op => ⟨?_, fun e he => heap_of_apply_error he⟩, fun id f => ?_⟩
  · cases hop : op.target? with
    | none =>
      cases op with
      | alloc className =>
        have hnumber : answer past (.alloc className) = .ok (.number (after past).size) := rfl
        rw [hnumber, size_after]
        exact .alloc className
      | _ => cases hop
    | some id =>
      cases ho : (after past).objects[id]? with
      | some o => exact answers_of_object? hop ho
      | none =>
        have hsize := size_le_iff.2 ho
        rw [answer, apply_of_missed hop hsize]
        exact .missed hop (size_after past ▸ hsize)
  · cases ho : (after past).objects[id]? with
    | some o =>
      rw [update, modify_of_object? ho]
      exact lt_allocs_of_object? ho
    | none =>
      have hsize := size_le_iff.2 ho
      rw [update, modify_of_size_le hsize]
      exact ⟨rfl, size_after past ▸ hsize⟩

/-- A write that comes before its object is made is the latest one to the field, and yet the field
    is not set: the write failed. -/
theorem latest_write_may_fail :
    ¬ ∀ (past : List Op) (id : Nat) (name : String) (v : Value), id < allocs past →
      (∃ later earlier, past = later ++ .putField id name v :: earlier ∧
        ∀ w, .putField id name w ∉ later) →
      answer past (.getField id name) = .ok (.value v) := by
  intro hall
  have hvalue := hall [.alloc "A", .putField 0 "x" (.int 5)] 0 "x" (.int 5) (by decide)
    ⟨[.alloc "A"], [], rfl, by simp⟩
  have hnotSet : answer [.alloc "A", .putField 0 "x" (.int 5)] (.getField 0 "x") =
      .error (.fieldNotSet 0 "x") := rfl
  rw [hnotSet] at hvalue
  cases hvalue

end Bytecode.Heap
