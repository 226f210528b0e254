/-
  Tables of classes, from the classes that were put in.

  `ClassTable.offer` puts a class into a table unless it is refused, and `offerAll` does so with one
  class after the other, whatever became of those before.

  * `insert_eq_ok_iff`, `insert_eq_error_iff`: when a class is taken, and why it is refused.
-/
import Mathlib.Data.List.Nodup
import Bytecode.Proofs.Machine.Lookup

namespace Bytecode

namespace ClassTable

variable {t t' : ClassTable} {c : ClassFile}

theorem mem_names {name : String} : name ∈ t.names ↔ ∃ c, t.get? name = some c := by
  unfold names get?
  rw [List.mem_mergeSort, ← Option.isSome_iff_exists, List.lookup_isSome_iff, List.mem_map]
  refine exists_congr fun p => and_congr_right fun _ => ?_
  rw [beq_iff_eq, eq_comm]

/-! ## One class -/

theorem insert_of_unnamed {cause : FormatError} (h : c.name = .error cause) :
    t.insert c = .error (.format cause) := by
  rw [insert, offer, h]
  rfl

theorem insert_of_named {name : String} (h : c.name = .ok name) :
    t.insert c = if (t.get? name).isSome = true then .error (.duplicateClass name)
      else .ok (⟨t.classes ++ [(name, c)]⟩, .loaded name c.version c.methods.length) := by
  rw [insert, offer, h]
  by_cases htaken : (t.get? name).isSome = true <;>
    simp [htaken, RunError.ofFormat, Except.mapError]

theorem insert_eq_ok_iff {event : Event} :
    t.insert c = .ok (t', event) ↔ ∃ name, c.name = .ok name ∧ t.get? name = none ∧
      t' = ⟨t.classes ++ [(name, c)]⟩ ∧ event = .loaded name c.version c.methods.length := by
  cases hname : c.name with
  | error cause => simp [insert_of_unnamed hname]
  | ok name =>
    rw [insert_of_named hname]
    cases hget : t.get? name with
    | none => simp [hget, eq_comm]
    | some other => simp [hget]

theorem insert_eq_error_iff {e : RunError} :
    t.insert c = .error e ↔ (∃ cause, c.name = .error cause ∧ e = .format cause) ∨
      ∃ name, c.name = .ok name ∧ t.get? name ≠ none ∧ e = .duplicateClass name := by
  cases hname : c.name with
  | error cause => simp [insert_of_unnamed hname, eq_comm]
  | ok name =>
    rw [insert_of_named hname]
    cases hget : t.get? name with
    | none => simp [hget]
    | some other => simp [hget, eq_comm]

theorem offer_of_error {e : RunError} (h : t.insert c = .error e) :
    t.offer c = (.error e, t) := by
  rcases insert_eq_error_iff.1 h with ⟨cause, hname, rfl⟩ | ⟨name, hname, htaken, rfl⟩
  · rw [offer, hname]
    rfl
  · rw [offer, hname]
    exact if_pos (Option.isSome_iff_ne_none.2 htaken)

theorem offer_of_ok {event : Event} (h : t.insert c = .ok (t', event)) :
    t.offer c = (.ok event, t') := by
  obtain ⟨name, hname, hnone, rfl, rfl⟩ := insert_eq_ok_iff.1 h
  rw [offer, hname]
  exact if_neg (by simp [hnone])

/-- A class is taken exactly if its name resolves and is free. -/
theorem offer_isOk_iff :
    (t.offer c).1.isOk = true ↔ ∃ name, c.name = .ok name ∧ t.get? name = none := by
  cases h : t.insert c with
  | error e =>
    rw [offer_of_error h]
    simp only [Except.isOk, Except.toBool, Bool.false_eq_true, false_iff]
    rintro ⟨name, hname, hnone⟩
    obtain ⟨_, _, hok, -⟩ := insert_new hname hnone
    rw [hok] at h
    cases h
  | ok out =>
    obtain ⟨t', event⟩ := out
    rw [offer_of_ok h]
    obtain ⟨name, hname, hnone, -⟩ := insert_eq_ok_iff.1 h
    exact ⟨fun _ => ⟨name, hname, hnone⟩, fun _ => rfl⟩

/-- What a name leads to after a class was offered: to what it led before, or else to this class if
    it has the name. -/
theorem get?_offer (t : ClassTable) (c : ClassFile) (name : String) :
    (t.offer c).2.get? name =
      (t.get? name).or (if c.name.toOption = some name then some c else none) := by
  simp only [Except.toOption_eq_some_iff]
  cases h : t.insert c with
  | error e =>
    rw [offer_of_error h]
    rcases insert_eq_error_iff.1 h with ⟨cause, hname, -⟩ | ⟨name', hname, htaken, -⟩
    · simp [hname]
    · by_cases heq : name' = name
      · subst heq
        obtain ⟨other, hother⟩ := Option.ne_none_iff_exists'.1 htaken
        simp [hother]
      · simp [hname, heq]
  | ok out =>
    obtain ⟨t', event⟩ := out
    rw [offer_of_ok h]
    obtain ⟨name', hname, hnone, rfl, -⟩ := insert_eq_ok_iff.1 h
    show (t.classes ++ [(name', c)]).lookup name = _
    rw [List.lookup_append]
    congr 1
    by_cases heq : name' = name
    · simp [hname, heq]
    · simp [hname, heq, List.lookup_cons, beq_false_of_ne (Ne.symm heq)]

theorem size_offer (t : ClassTable) (c : ClassFile) :
    (t.offer c).2.size = t.size + if (t.offer c).1.isOk then 1 else 0 := by
  cases h : t.insert c with
  | error e =>
    rw [offer_of_error h]
    rfl
  | ok out =>
    obtain ⟨t', event⟩ := out
    rw [offer_of_ok h]
    obtain ⟨name, -, -, rfl, -⟩ := insert_eq_ok_iff.1 h
    exact List.length_append

/-! ## One class after the other -/

/-- Offers classes one after the other; the answers, and the table in the end. -/
def offerAll (t : ClassTable) : List ClassFile → List (Except RunError Event) × ClassTable
  | [] => ([], t)
  | c :: cs =>
    let (answer, t') := t.offer c
    let (answers, t'') := t'.offerAll cs
    (answer :: answers, t'')

theorem offerAll_cons (t : ClassTable) (c : ClassFile) (cs : List ClassFile) :
    t.offerAll (c :: cs) =
      ((t.offer c).1 :: ((t.offer c).2.offerAll cs).1, ((t.offer c).2.offerAll cs).2) :=
  rfl

theorem offerAll_append (t : ClassTable) (cs cs' : List ClassFile) :
    (t.offerAll (cs ++ cs')).2 = ((t.offerAll cs).2.offerAll cs').2 := by
  induction cs generalizing t with
  | nil => rfl
  | cons c cs ih => simp only [List.cons_append, offerAll_cons, ih]

/-- **Each name leads to the first class that has it.** -/
theorem get?_offerAll (t : ClassTable) (cs : List ClassFile) (name : String) :
    (t.offerAll cs).2.get? name =
      (t.get? name).or (cs.find? fun c => c.name.toOption = some name) := by
  induction cs generalizing t with
  | nil => simp [offerAll]
  | cons c cs ih =>
    rw [offerAll_cons, ih, get?_offer, Option.or_assoc, List.find?_cons]
    by_cases hname : c.name.toOption = some name
    · simp [hname]
    · simp [hname]

theorem size_offerAll (t : ClassTable) (cs : List ClassFile) :
    (t.offerAll cs).2.size = t.size + (t.offerAll cs).1.countP Except.isOk := by
  induction cs generalizing t with
  | nil => rfl
  | cons c cs ih =>
    rw [offerAll_cons, ih, size_offer, List.countP_cons]
    omega

/-- All classes of a list are taken. -/
def Accepts (t : ClassTable) (cs : List ClassFile) : Prop :=
  ∀ answer ∈ (t.offerAll cs).1, answer.isOk = true

theorem accepts_nil (t : ClassTable) : t.Accepts [] :=
  fun _ h => absurd h List.not_mem_nil

theorem accepts_cons {cs : List ClassFile} :
    t.Accepts (c :: cs) ↔ (t.offer c).1.isOk = true ∧ (t.offer c).2.Accepts cs :=
  List.forall_mem_cons

/-- Classes are all taken exactly if all their names resolve, are free and are different. -/
theorem accepts_iff {cs : List ClassFile} :
    t.Accepts cs ↔ (∀ c ∈ cs, ∃ name, c.name = .ok name ∧ t.get? name = none) ∧
      (cs.map ClassFile.name).Nodup := by
  induction cs generalizing t with
  | nil => simp [accepts_nil]
  | cons c cs ih =>
    rw [accepts_cons, offer_isOk_iff, ih, List.forall_mem_cons, List.map_cons, List.nodup_cons]
    rw [and_assoc, and_congr_right_iff]
    rintro ⟨name, hname, -⟩
    -- the name of the first class is no longer free for the others
    have hfree : ∀ c' ∈ cs, (∃ name', c'.name = .ok name' ∧ (t.offer c).2.get? name' = none) ↔
        (∃ name', c'.name = .ok name' ∧ t.get? name' = none) ∧ c'.name ≠ c.name := by
      intro c' _
      simp only [get?_offer, Option.or_eq_none_iff, hname, Except.toOption]
      constructor
      · rintro ⟨name', hname', hnone, hother⟩
        refine ⟨⟨name', hname', hnone⟩, fun heq => ?_⟩
        simp [Except.ok.inj (hname'.symm.trans heq)] at hother
      · rintro ⟨⟨name', hname', hnone⟩, hne⟩
        refine ⟨name', hname', hnone, if_neg fun heq => hne ?_⟩
        rw [hname', Option.some.inj heq]
    have hmem : c.name ∉ cs.map ClassFile.name ↔ ∀ c' ∈ cs, c'.name ≠ c.name := by simp
    rw [forall₂_congr hfree, hmem, forall₂_and, and_assoc]

/-! ## All or nothing -/

theorem insertAll_cons (t : ClassTable) (c : ClassFile) (cs : List ClassFile) :
    (t.insertAll (c :: cs)).1 = t.insert c >>= fun out => (out.1.insertAll cs).1 := by
  rw [insertAll]
  cases t.insert c <;> rfl

/-- If all classes are taken, putting them in gives the table that offering them gives. -/
theorem insertAll_eq_ok_iff {cs : List ClassFile} :
    (t.insertAll cs).1 = .ok t' ↔ t.Accepts cs ∧ t' = (t.offerAll cs).2 := by
  induction cs generalizing t with
  | nil => simp [insertAll, accepts_nil, offerAll, eq_comm]
  | cons c cs ih =>
    rw [insertAll_cons, accepts_cons, offerAll_cons]
    cases h : t.insert c with
    | error e => simp [offer_of_error h, bind, Except.bind, Except.isOk, Except.toBool]
    | ok out =>
      obtain ⟨t₁, event⟩ := out
      simpa [offer_of_ok h, bind, Except.bind, Except.isOk, Except.toBool] using ih

/-- Otherwise the error is that of the first class that is refused. -/
theorem insertAll_eq_error_iff {cs : List ClassFile} {e : RunError} :
    (t.insertAll cs).1 = .error e ↔ ∃ before c after, cs = before ++ c :: after ∧
      t.Accepts before ∧ (t.offerAll before).2.insert c = .error e := by
  induction cs generalizing t with
  | nil => simp [insertAll]
  | cons c cs ih =>
    rw [insertAll_cons]
    cases h : t.insert c with
    | error e' =>
      -- nothing can have been taken before this class
      constructor
      · intro he
        obtain rfl := Except.error.inj he
        exact ⟨[], c, cs, rfl, t.accepts_nil, h⟩
      · rintro ⟨before, c', after, hcs, haccepts, hinsert⟩
        cases before with
        | nil =>
          obtain ⟨rfl, -⟩ := List.cons.inj hcs
          rw [offerAll, h] at hinsert
          rw [← Except.error.inj hinsert]
          rfl
        | cons c₁ before =>
          obtain ⟨rfl, -⟩ := List.cons.inj hcs
          rw [accepts_cons, offer_of_error h] at haccepts
          cases haccepts.1
    | ok out =>
      obtain ⟨t₁, event⟩ := out
      have hoffer := offer_of_ok h
      show (t₁.insertAll cs).1 = .error e ↔ _
      rw [ih]
      constructor
      · rintro ⟨before, c', after, rfl, haccepts, hinsert⟩
        refine ⟨c :: before, c', after, rfl, accepts_cons.2 ?_, ?_⟩
        · rw [hoffer]
          exact ⟨rfl, haccepts⟩
        · rw [offerAll_cons, hoffer]
          exact hinsert
      · rintro ⟨before, c', after, hcs, haccepts, hinsert⟩
        cases before with
        | nil =>
          obtain ⟨rfl, -⟩ := List.cons.inj hcs
          rw [offerAll, h] at hinsert
          cases hinsert
        | cons c₁ before =>
          obtain ⟨rfl, rfl⟩ := List.cons.inj hcs
          rw [accepts_cons, hoffer] at haccepts
          rw [offerAll_cons, hoffer] at hinsert
          exact ⟨before, c', after, rfl, haccepts.2, hinsert⟩

theorem ofClasses_isOk_iff {cs : List ClassFile} :
    (∃ t, (ofClasses cs).1 = .ok t) ↔
      (∀ c ∈ cs, ∃ name, c.name = .ok name) ∧ (cs.map ClassFile.name).Nodup := by
  have haccepts : empty.Accepts cs ↔
      (∀ c ∈ cs, ∃ name, c.name = .ok name) ∧ (cs.map ClassFile.name).Nodup := by
    rw [accepts_iff]
    simp [get?, empty]
  simp only [ofClasses, insertAll_eq_ok_iff, haccepts, exists_and_left, exists_eq, and_true]

theorem get?_eq_some_iff_of_ofClasses {cs : List ClassFile} (h : (ofClasses cs).1 = .ok t)
    {name : String} : t.get? name = some c ↔ c ∈ cs ∧ c.name = .ok name := by
  have hnodup := (ofClasses_isOk_iff.1 ⟨t, h⟩).2
  obtain ⟨-, rfl⟩ := insertAll_eq_ok_iff.1 h
  rw [get?_offerAll]
  show cs.find? _ = _ ↔ _
  constructor
  · intro hfind
    have hname : c.name.toOption = some name := by simpa using List.find?_some hfind
    exact ⟨List.mem_of_find?_eq_some hfind, Except.toOption_eq_some_iff.1 hname⟩
  · rintro ⟨hmem, hname⟩
    cases hfind : cs.find? fun c => c.name.toOption = some name with
    | none =>
      have hnone := List.find?_eq_none.1 hfind c hmem
      simp [hname, Except.toOption] at hnone
    | some c' =>
      have hname' : c'.name.toOption = some name := by simpa using List.find?_some hfind
      rw [Except.toOption_eq_some_iff, ← hname] at hname'
      rw [List.inj_on_of_nodup_map hnodup (List.mem_of_find?_eq_some hfind) hmem hname']

theorem findMethod_congr {name method : String} (h : t'.get? name = t.get? name) :
    t'.findMethod name method = t.findMethod name method := by
  simp only [findMethod, get_congr h]

/-- **A name belongs to the first class that has it.**  Let classes be offered to an empty table one
    after the other, whatever becomes of each.  Then a name leads to the first of them that has this
    name; another class is taken exactly if its name resolves and leads nowhere yet, and one that is
    refused leaves the table as it is; and the table has as many classes as were taken.

    Putting the same classes in at once succeeds exactly if all their names resolve and no two are
    the same, and gives this table; otherwise it fails as the first class that would be refused.
    If it succeeds, it succeeds in every other order, and what is found by names is the same. -/
theorem first_wins (cs : List ClassFile) :
    let t := (empty.offerAll cs).2
    (∀ name, t.get? name = cs.find? fun c => c.name.toOption = some name) ∧
    (∀ c, (∃ out, t.insert c = .ok out) ↔ ∃ name, c.name = .ok name ∧ t.get? name = none) ∧
    (∀ c e, t.insert c = .error e →
      t.offer c = (.error e, t) ∧ (empty.offerAll (cs ++ [c])).2 = t) ∧
    t.size = (empty.offerAll cs).1.countP Except.isOk ∧
    ((∃ t', (ofClasses cs).1 = .ok t') ↔
      (∀ c ∈ cs, ∃ name, c.name = .ok name) ∧ (cs.map ClassFile.name).Nodup) ∧
    (∀ t', (ofClasses cs).1 = .ok t' → t' = t) ∧
    (∀ e, (ofClasses cs).1 = .error e ↔ ∃ before c after, cs = before ++ c :: after ∧
      empty.Accepts before ∧ (empty.offerAll before).2.insert c = .error e) ∧
    ∀ cs', cs.Perm cs' → (∃ t', (ofClasses cs).1 = .ok t') →
      ∃ t', (ofClasses cs').1 = .ok t' ∧ ∀ name, t'.get name = t.get name ∧
        ∀ method, t'.findMethod name method = t.findMethod name method ∧
          t'.findCode name method = t.findCode name method := by
  intro t
  have hsize : t.size = empty.size + _ := size_offerAll empty cs
  refine ⟨fun name => get?_offerAll empty cs name, fun c => ?_, fun c e he => ?_,
    hsize.trans (Nat.zero_add _), ofClasses_isOk_iff, fun t' h => (insertAll_eq_ok_iff.1 h).2,
    fun e => insertAll_eq_error_iff, fun cs' hperm hok => ?_⟩
  · constructor
    · rintro ⟨out, hout⟩
      obtain ⟨name, hname, hnone, -⟩ := insert_eq_ok_iff.1 hout
      exact ⟨name, hname, hnone⟩
    · rintro ⟨name, hname, hnone⟩
      exact ⟨_, insert_eq_ok_iff.2 ⟨name, hname, hnone, rfl, rfl⟩⟩
  · refine ⟨offer_of_error he, ?_⟩
    rw [offerAll_append, offerAll_cons, offer_of_error he]
    rfl
  · have hok' : ∃ t', (ofClasses cs').1 = .ok t' := by
      rw [ofClasses_isOk_iff] at hok ⊢
      obtain ⟨hnames, hnodup⟩ := hok
      exact ⟨fun c hc => hnames c (hperm.mem_iff.2 hc), (hperm.map _).nodup_iff.1 hnodup⟩
    obtain ⟨t₁, ht₁⟩ := hok
    obtain ⟨t', ht'⟩ := hok'
    have ht : (ofClasses cs).1 = .ok t := by rw [ht₁, (insertAll_eq_ok_iff.1 ht₁).2]
    have hget : ∀ name, t'.get? name = t.get? name := by
      intro name
      refine Option.ext fun c => ?_
      rw [get?_eq_some_iff_of_ofClasses ht', get?_eq_some_iff_of_ofClasses ht, hperm.mem_iff]
    exact ⟨t', ht', fun name => ⟨get_congr (hget name), fun method =>
      ⟨findMethod_congr (hget name), findCode_congr (hget name)⟩⟩⟩

/-- Two classes of one name, one without a name and one of another name. -/
theorem first_wins_mixed :
    let a := (Assembly.build "A" []).2
    let a' := (Assembly.build "A" [.integer 7]).2
    let b := (Assembly.build "B" [.method ⟨9⟩ "run" "()V" ⟨0, 0, [0xb1]⟩]).2
    let cs := [a, { a with thisClass := 0 }, a', b]
    let t := (empty.offerAll cs).2
    t.get? "A" = some a ∧ t.get? "B" = some b ∧ t.size = 2 ∧ (¬ ∃ out, t.insert a' = .ok out) ∧
      (ofClasses cs).1 = .error (.format (.invalidIndex 0)) ∧
      ∃ t', (ofClasses [b, a]).1 = .ok t' ∧ t'.findCode "B" "run" = .ok ⟨0, 0, [0xb1]⟩ := by
  intro a a' b cs t
  obtain ⟨hget, hinsert, -, hsize, -, -, herror, -⟩ := first_wins cs
  obtain ⟨-, -, -, -, hok, -, -, horder⟩ := first_wins [a, b]
  have ha : a.name = .ok "A" := Assembly.name_build (by decide) _
  have ha' : a'.name = .ok "A" := Assembly.name_build (by decide) _
  have hb : b.name = .ok "B" := Assembly.name_build (by decide) _
  have hfirst : t.get? "A" = some a := (hget "A").trans (by decide +kernel)
  have hcode : (empty.offerAll [a, b]).2.findCode "B" "run" = .ok ⟨0, 0, [0xb1]⟩ :=
    Except.toOption_eq_some_iff.1 (by decide +kernel)
  refine ⟨hfirst, (hget "B").trans (by decide +kernel), hsize.trans (by decide +kernel), ?_,
    (herror _).2 ⟨[a], _, [a', b], rfl, ?_, insert_of_unnamed rfl⟩, ?_⟩
  · rw [hinsert]
    rintro ⟨name, hname, hnone⟩
    obtain rfl := Except.ok.inj (ha'.symm.trans hname)
    rw [hfirst] at hnone
    cases hnone
  · exact accepts_iff.2 ⟨by simp [ha, get?, empty], by simp⟩
  · obtain ⟨t', ht', hsame⟩ := horder [b, a] (.swap b a []) (hok.2 (by simp [ha, hb]))
    exact ⟨t', ht', ((hsame "B").2 "run").2.trans hcode⟩

end ClassTable

end Bytecode
