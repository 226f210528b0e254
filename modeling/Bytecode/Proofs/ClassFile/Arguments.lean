/-
  The grammar of argument lists.

  A descriptor has arguments if it is `(`, a list of units, `)` and anything at all.  Each unit is a
  primitive letter, a class unit, or an array: one or more `[` before a class unit or before any
  other character.  The scan that counts them keeps no more than the `Place` it stands at.

  * `Completes place u`: the characters `u` complete the unit that a scan at `place` is in; from
    between two units they are a whole unit (`completes_between_iff`).
-/
import Bytecode.ClassFile.Descriptor

namespace Bytecode.Descriptor

/-! ## The grammar -/

/-- The letters of the primitive types, as the grammar lists them. -/
def primitives : List Char :=
  ['B', 'C', 'D', 'F', 'I', 'J', 'S', 'Z']

/-- A character of a class name: it ends neither the name nor the arguments. -/
def IsNameChar (c : Char) : Prop :=
  c ≠ ';' ∧ c ≠ ')'

instance (c : Char) : Decidable (IsNameChar c) :=
  inferInstanceAs (Decidable (c ≠ ';' ∧ c ≠ ')'))

/-- `L`, a name and `;`. -/
inductive ClassUnit : List Char → Prop
  | mk (name : List Char) (h : ∀ c ∈ name, IsNameChar c) : ClassUnit ('L' :: (name ++ [';']))

/-- The characters of one argument. -/
inductive ArgUnit : List Char → Prop
  | primitive {c : Char} (h : c ∈ primitives) : ArgUnit [c]
  | object {u : List Char} (h : ClassUnit u) : ArgUnit u
  | objects {u : List Char} (k : Nat) (h : ClassUnit u) :
      ArgUnit (List.replicate (k + 1) '[' ++ u)
  /-- What an array holds is not looked at, if it is no array and no object. -/
  | values {c : Char} (k : Nat) (h : c ≠ '[' ∧ c ≠ 'L' ∧ c ≠ ')') :
      ArgUnit (List.replicate (k + 1) '[' ++ [c])

/-- A descriptor with these units: what follows the `)` is left open. -/
def HasUnits (descriptor : String) (units : List (List Char)) : Prop :=
  (∀ u ∈ units, ArgUnit u) ∧ ∃ rest, descriptor.toList = '(' :: (units.flatten ++ ')' :: rest)

/-! ## The rest of a unit -/

/-- The characters complete the unit that a scan is in. -/
inductive Completes : Place → List Char → Prop
  | primitive {c : Char} (h : c ∈ primitives) : Completes .between [c]
  | element {c : Char} (h : c ≠ '[' ∧ c ≠ 'L' ∧ c ≠ ')') : Completes .element [c]
  | array {place : Place} {u : List Char} (hplace : place ≠ .name) (h : Completes .element u) :
      Completes place ('[' :: u)
  | object {place : Place} {u : List Char} (hplace : place ≠ .name) (h : Completes .name u) :
      Completes place ('L' :: u)
  | letter {c : Char} {u : List Char} (hc : IsNameChar c) (h : Completes .name u) :
      Completes .name (c :: u)
  | semicolon : Completes .name [';']

theorem completes_name_iff {u : List Char} :
    Completes .name u ↔ ∃ name, (∀ c ∈ name, IsNameChar c) ∧ u = name ++ [';'] := by
  constructor
  · intro h
    generalize hplace : Place.name = place at h
    induction h with
    | primitive | element => cases hplace
    | array hne | object hne => exact absurd hplace.symm hne
    | @letter c u hc _ ih =>
      obtain ⟨name, hname, rfl⟩ := ih rfl
      exact ⟨c :: name, List.forall_mem_cons.2 ⟨hc, hname⟩, rfl⟩
    | semicolon => exact ⟨[], by simp, rfl⟩
  · rintro ⟨name, hname, rfl⟩
    induction name with
    | nil => exact .semicolon
    | cons c name ih =>
      obtain ⟨hc, hname⟩ := List.forall_mem_cons.1 hname
      exact .letter hc (ih hname)

theorem completes_of_classUnit {place : Place} {u : List Char} (hplace : place ≠ .name)
    (h : ClassUnit u) : Completes place u := by
  obtain ⟨name, hname⟩ := h
  exact .object hplace (completes_name_iff.2 ⟨name, hname, rfl⟩)

theorem classUnit_of_completes {u : List Char} (h : Completes .name u) : ClassUnit ('L' :: u) := by
  obtain ⟨name, hname, rfl⟩ := completes_name_iff.1 h
  exact .mk name hname

/-- What completes an array: further dimensions, then what it holds. -/
theorem completes_element_iff {u : List Char} :
    Completes .element u ↔ ∃ k held, u = List.replicate k '[' ++ held ∧
      (ClassUnit held ∨ ∃ c, (c ≠ '[' ∧ c ≠ 'L' ∧ c ≠ ')') ∧ held = [c]) := by
  constructor
  · intro h
    generalize hplace : Place.element = place at h
    induction h with
    | primitive | letter | semicolon => cases hplace
    | @element c hc => exact ⟨0, [c], rfl, .inr ⟨c, hc, rfl⟩⟩
    | array _ _ ih =>
      obtain ⟨k, held, rfl, hheld⟩ := ih rfl
      exact ⟨k + 1, held, rfl, hheld⟩
    | @object _ u _ h => exact ⟨0, 'L' :: u, rfl, .inl (classUnit_of_completes h)⟩
  · rintro ⟨k, held, rfl, hheld⟩
    induction k with
    | zero =>
      rcases hheld with hheld | ⟨c, hc, rfl⟩
      · exact completes_of_classUnit (by simp) hheld
      · exact .element hc
    | succ k ih => exact .array (by simp) ih

theorem completes_between_iff {u : List Char} : Completes .between u ↔ ArgUnit u := by
  constructor
  · intro h
    cases h with
    | primitive hc => exact .primitive hc
    | array _ h =>
      obtain ⟨k, held, rfl, hheld | ⟨c, hc, rfl⟩⟩ := completes_element_iff.1 h
      · exact .objects k hheld
      · exact .values k hc
    | object _ h => exact .object (classUnit_of_completes h)
  · intro h
    cases h with
    | primitive hc => exact .primitive hc
    | object h => exact completes_of_classUnit (by simp) h
    | @objects u k h =>
      exact .array (by simp) (completes_element_iff.2 ⟨k, u, rfl, .inl h⟩)
    | @values c k hc =>
      exact .array (by simp) (completes_element_iff.2 ⟨k, [c], rfl, .inr ⟨c, hc, rfl⟩⟩)

/-! ## The scan -/

theorem isPrimitive_iff {c : Char} : isPrimitive c = true ↔ c ∈ primitives :=
  List.contains_iff_mem

/-- A primitive letter starts no other unit and ends nothing. -/
theorem ne_of_mem_primitives {c : Char} (h : c ∈ primitives) : c ≠ ')' ∧ c ≠ '[' ∧ c ≠ 'L' := by
  refine ⟨?_, ?_, ?_⟩ <;> rintro rfl <;> exact absurd h (by decide)

/-- A scan goes over the rest of a unit and counts it. -/
theorem countFrom_append {place : Place} {u : List Char} (h : Completes place u) (n : Nat)
    (cs : List Char) : countFrom place n (u ++ cs) = countFrom .between (n + 1) cs := by
  induction h with
  | @primitive c hc =>
    obtain ⟨hclose, harray, hobject⟩ := ne_of_mem_primitives hc
    simp only [List.cons_append, List.nil_append, countFrom, if_neg hclose, if_neg harray,
      if_neg hobject, if_pos (isPrimitive_iff.2 hc)]
  | @element c hc =>
    obtain ⟨harray, hobject, hclose⟩ := hc
    simp only [List.cons_append, List.nil_append, countFrom, if_neg hclose, if_neg harray,
      if_neg hobject]
  | @array place u hplace _ ih =>
    cases place with
    | name => exact absurd rfl hplace
    | between | element => simpa [countFrom] using ih
  | @object place u hplace _ ih =>
    cases place with
    | name => exact absurd rfl hplace
    | between | element => simpa [countFrom] using ih
  | @letter c u hc _ ih =>
    simpa only [List.cons_append, countFrom, if_neg hc.1, if_neg hc.2] using ih
  | semicolon => simp [countFrom]

/-- A scan that ends with a number is at the `)`, or goes over the rest of a unit first. -/
theorem countFrom_cases {place : Place} {n m : Nat} {cs : List Char}
    (h : countFrom place n cs = some m) :
    (place = .between ∧ m = n ∧ ∃ rest, cs = ')' :: rest) ∨
      ∃ u cs', Completes place u ∧ cs = u ++ cs' ∧ cs'.length < cs.length ∧
        countFrom .between (n + 1) cs' = some m := by
  induction cs generalizing place with
  | nil => cases h
  | cons c cs ih =>
    -- within a unit, the character belongs to it and the scan stays within it
    have hgo : ∀ {next : Place}, next ≠ .between → countFrom next n cs = some m →
        (∀ u, Completes next u → Completes place (c :: u)) →
        ∃ u cs', Completes place u ∧ c :: cs = u ++ cs' ∧ cs'.length < (c :: cs).length ∧
          countFrom .between (n + 1) cs' = some m := by
      intro next hnext hcount hcompletes
      rcases ih hcount with ⟨hbetween, -⟩ | ⟨u, cs', hu, rfl, hlen, hrest⟩
      · exact absurd hbetween hnext
      · exact ⟨c :: u, cs', hcompletes u hu, rfl, Nat.lt_succ_of_lt hlen, hrest⟩
    -- at the end of a unit, the character is all that was missing
    have hend : Completes place [c] → countFrom .between (n + 1) cs = some m →
        ∃ u cs', Completes place u ∧ c :: cs = u ++ cs' ∧ cs'.length < (c :: cs).length ∧
          countFrom .between (n + 1) cs' = some m :=
      fun hc hcount => ⟨[c], cs, hc, rfl, Nat.lt_succ_self _, hcount⟩
    rw [countFrom.eq_def] at h
    dsimp only at h
    split at h
    · next hclose =>
      split at h
      · next hplace => exact .inl ⟨hplace, (Option.some.inj h).symm, cs, by rw [hclose]⟩
      · cases h
    · next hclose =>
      right
      cases place with
      | between =>
        dsimp only at h
        split at h
        · next hc => exact hgo (by simp) h fun u hu => hc ▸ .array (by simp) hu
        · split at h
          · next hc => exact hgo (by simp) h fun u hu => hc ▸ .object (by simp) hu
          · split at h
            · next hc => exact hend (.primitive (isPrimitive_iff.1 hc)) h
            · cases h
      | element =>
        dsimp only at h
        split at h
        · next hc => exact hgo (by simp) h fun u hu => hc ▸ .array (by simp) hu
        · next harray =>
          split at h
          · next hc => exact hgo (by simp) h fun u hu => hc ▸ .object (by simp) hu
          · next hobject => exact hend (.element ⟨harray, hobject, hclose⟩) h
      | name =>
        dsimp only at h
        split at h
        · next hc => exact hend (hc ▸ .semicolon) h
        · next hsemicolon => exact hgo (by simp) h fun u hu => .letter ⟨hsemicolon, hclose⟩ hu

/-- **A scan from between two units counts units**, up to the `)` after them. -/
theorem countFrom_eq_some_iff {n m : Nat} {cs : List Char} :
    countFrom .between n cs = some m ↔ ∃ (units : List (List Char)) (rest : List Char),
      (∀ u ∈ units, ArgUnit u) ∧ cs = units.flatten ++ ')' :: rest ∧ m = n + units.length := by
  constructor
  · intro h
    generalize hlen : cs.length = len
    induction len using Nat.strongRecOn generalizing cs n with
    | ind len ih =>
      rcases countFrom_cases h with ⟨-, rfl, rest, rfl⟩ | ⟨u, cs', hu, rfl, hless, hrest⟩
      · exact ⟨[], rest, by simp, rfl, rfl⟩
      · obtain ⟨units, rest, hunits, rfl, rfl⟩ := ih _ (hlen ▸ hless) hrest rfl
        refine ⟨u :: units, rest, ?_, ?_, ?_⟩
        · exact List.forall_mem_cons.2 ⟨completes_between_iff.1 hu, hunits⟩
        · rw [List.flatten_cons, List.append_assoc]
        · rw [List.length_cons, Nat.add_assoc, Nat.add_comm 1]
  · rintro ⟨units, rest, hunits, rfl, rfl⟩
    induction units generalizing n with
    | nil => simp [countFrom]
    | cons u units ih =>
      obtain ⟨hu, hunits⟩ := List.forall_mem_cons.1 hunits
      rw [List.flatten_cons, List.append_assoc, countFrom_append (completes_between_iff.2 hu),
        ih hunits, List.length_cons, Nat.add_assoc, Nat.add_comm 1]

theorem argCount_eq_ok_iff {descriptor : String} {n : Nat} :
    argCount descriptor = .ok n ↔ ∃ units, HasUnits descriptor units ∧ units.length = n := by
  unfold argCount HasUnits
  split
  · next cs hcs =>
    have hcount : countFrom .between 0 cs = some n ↔ ∃ units : List (List Char),
        ((∀ u ∈ units, ArgUnit u) ∧ ∃ rest, '(' :: cs = '(' :: (units.flatten ++ ')' :: rest)) ∧
          units.length = n := by
      rw [countFrom_eq_some_iff]
      constructor
      · rintro ⟨units, rest, hunits, rfl, rfl⟩
        exact ⟨units, ⟨hunits, rest, rfl⟩, (Nat.zero_add _).symm⟩
      · rintro ⟨units, ⟨hunits, rest, heq⟩, rfl⟩
        exact ⟨units, rest, hunits, (List.cons.inj heq).2, (Nat.zero_add _).symm⟩
    rw [hcs, ← hcount]
    cases countFrom .between 0 cs <;> simp
  · next hopen =>
    constructor
    · intro h
      cases h
    · rintro ⟨units, ⟨-, rest, heq⟩, -⟩
      exact absurd heq (hopen _)

/-- A descriptor that is refused is named in full. -/
theorem argCount_cases (descriptor : String) :
    (∃ n, argCount descriptor = .ok n) ∨
      argCount descriptor = .error (.badDescriptor descriptor) := by
  unfold argCount
  split
  · cases countFrom .between 0 _ with
    | none => exact .inr rfl
    | some n => exact .inl ⟨n, rfl⟩
  · exact .inr rfl

/-! ## The types of methods -/

/-- The types of fields and arguments. -/
inductive FieldType where
  | primitive (letter : { c : Char // c ∈ primitives })
  | object (name : List { c : Char // IsNameChar c })
  | array (held : FieldType)

/-- A type as it is written in a descriptor. -/
def FieldType.written : FieldType → List Char
  | primitive letter => [letter.1]
  | object name => 'L' :: (name.map (·.1) ++ [';'])
  | array held => '[' :: held.written

/-- The descriptor of a method with arguments of these types; one that returns nothing has the
    result `V`. -/
def methodDescriptor (args : List FieldType) (result : Option FieldType) : String :=
  String.ofList ('(' :: ((args.map FieldType.written).flatten ++
    ')' :: (result.map FieldType.written).getD ['V']))

theorem FieldType.completes_written (t : FieldType) {place : Place} (hplace : place ≠ .name) :
    Completes place t.written := by
  induction t generalizing place with
  | primitive letter =>
    obtain ⟨c, hc⟩ := letter
    obtain ⟨hclose, harray, hobject⟩ := ne_of_mem_primitives hc
    cases place with
    | name => exact absurd rfl hplace
    | between => exact .primitive hc
    | element => exact .element ⟨harray, hobject, hclose⟩
  | object name =>
    refine .object hplace (completes_name_iff.2 ⟨_, fun c hc => ?_, rfl⟩)
    obtain ⟨c', -, rfl⟩ := List.mem_map.1 hc
    exact c'.2
  | array held ih => exact .array hplace (ih (by simp))

theorem hasUnits_methodDescriptor (args : List FieldType) (result : Option FieldType) :
    HasUnits (methodDescriptor args result) (args.map FieldType.written) := by
  refine ⟨fun u hu => ?_, _, String.toList_ofList⟩
  obtain ⟨t, -, rfl⟩ := List.mem_map.1 hu
  exact completes_between_iff.1 (t.completes_written (by simp))

/-- **The arguments of a descriptor are counted exactly if the grammar derives it.**  The number is
    that of its units; any other descriptor is refused, and the error has all of it.  So a method
    type has as many argument slots as it has arguments. -/
theorem argCount_iff_grammar (descriptor : String) :
    (∀ n, argCount descriptor = .ok n ↔
      ∃ units, HasUnits descriptor units ∧ units.length = n) ∧
    (∀ e, argCount descriptor = .error e ↔
      (¬ ∃ units, HasUnits descriptor units) ∧ e = .badDescriptor descriptor) ∧
    ∀ args result, argCount (methodDescriptor args result) = .ok args.length := by
  refine ⟨fun n => argCount_eq_ok_iff, fun e => ?_, fun args result => ?_⟩
  · rcases argCount_cases descriptor with ⟨n, hn⟩ | hbad
    · obtain ⟨units, hunits, -⟩ := argCount_eq_ok_iff.1 hn
      rw [hn]
      exact ⟨fun h => (nomatch h), fun h => absurd ⟨units, hunits⟩ h.1⟩
    · have hnone : ¬ ∃ units, HasUnits descriptor units := by
        rintro ⟨units, hunits⟩
        have hok := argCount_eq_ok_iff.2 ⟨units, hunits, rfl⟩
        rw [hbad] at hok
        cases hok
      rw [hbad, Except.error.injEq]
      exact ⟨fun h => ⟨hnone, h.symm⟩, fun h => h.2.symm⟩
  · exact argCount_eq_ok_iff.2 ⟨_, hasUnits_methodDescriptor args result, List.length_map _⟩

/-- The arguments end at the first `)`, so no class name has one. -/
example : argCount "(ILa/b;[[J)V" = .ok 3 ∧
    argCount "(La)b;)V" = .error (.badDescriptor "(La)b;)V") :=
  ⟨rfl, rfl⟩

end Bytecode.Descriptor
