/-
  What runs do not depend on.

  A method is found by its name, and its code by the names of its attributes; the constants that the
  code refers to are in the pool of its class.  Nothing else in a class file is ever looked at when
  code runs: not the version, not access flags, not the names of the class and of its superclass,
  not the fields, not the attributes of the class, not the descriptors of its methods.

  * `ClassTable.Alike`: two tables have classes under the same names, of the same bodies.  In such
    tables the same code is found (`Alike.findCode_eq`), so calls are carried out alike
    (`Machine.invokeWith_eq`), and hence all runs are the same (`Machine.run_eq`).
-/
import Bytecode.ClassFile.Assembly
import Bytecode.Machine.Run
import Bytecode.Proofs.Outcome

namespace Bytecode

/-- What is looked at in a method when it is called: the key of its name, and its attributes. -/
def Member.body (m : Member) : Nat × List Attribute :=
  (m.name, m.attributes)

/-- Two class files have the same constants, and their methods are the same up to access flags and
    descriptors. -/
structure ClassFile.SameBodies (c c' : ClassFile) : Prop where
  pool : c'.pool = c.pool
  methods : c'.methods.map Member.body = c.methods.map Member.body

/-- Two tables have classes under the same names, and classes under one name have the same
    bodies. -/
structure ClassTable.Alike (t t' : ClassTable) : Prop where
  names : ∀ name, (t'.get? name).isSome = (t.get? name).isSome
  classes : ∀ name c c', t.get? name = some c → t'.get? name = some c' → c.SameBodies c'

/-- A class file with other data wherever its bodies leave room for it. -/
def ClassFile.overwritten (c : ClassFile) : ClassFile :=
  { c with
    version := ⟨1, 2⟩, access := ⟨0xffff⟩, thisClass := 77, superClass := 99
    fields := [⟨⟨0⟩, 55, 66, []⟩], attributes := [⟨0, [1, 2, 3]⟩]
    methods := c.methods.map fun m => { m with access := ⟨0⟩, descriptor := 4242 } }

theorem ClassFile.sameBodies_overwritten (c : ClassFile) : c.SameBodies c.overwritten :=
  ⟨rfl, by simp [overwritten, Member.body, Function.comp_def]⟩

/-! ## Lookups -/

theorem Member.code?_congr {m m' : Member} (h : m'.body = m.body) (pool : Pool) :
    m'.code? pool = m.code? pool :=
  congrArg (Attribute.firstCode? pool) (Prod.mk.inj h).2

theorem Member.find?_congr (pool : Pool) (name : Octets) {ms ms' : List Member}
    (h : ms'.map Member.body = ms.map Member.body) :
    Option.map Member.body <$> Member.find? pool name ms' =
      Option.map Member.body <$> Member.find? pool name ms := by
  induction ms generalizing ms' with
  | nil => rw [List.map_eq_nil_iff.1 h]
  | cons m ms ih =>
    obtain ⟨m', rest, rfl, hm, hrest⟩ := List.map_eq_cons_iff.1 h
    have hname : m'.name = m.name := (Prod.mk.inj hm).1
    unfold find?
    rw [hname]
    cases pool.octets m.name with
    | error e => rfl
    | ok octets =>
      by_cases hoctets : octets = name
      · simp [hoctets, bind, Except.bind, pure, Except.pure, Functor.map, Except.map, hm]
      · simpa [hoctets, bind, Except.bind] using ih hrest

theorem ClassFile.SameBodies.findMethod?_eq {c c' : ClassFile} (h : c.SameBodies c')
    (method : String) :
    Option.map Member.body <$> c'.findMethod? method =
      Option.map Member.body <$> c.findMethod? method := by
  unfold ClassFile.findMethod?
  rw [h.pool]
  exact Member.find?_congr _ _ h.methods

namespace ClassTable

variable {t t' : ClassTable} {name : String}

theorem Alike.get_cases (h : t.Alike t') (name : String) :
    (t.get name = .error (.classNotFound name) ∧ t'.get name = .error (.classNotFound name)) ∨
      ∃ c c', t.get name = .ok c ∧ t'.get name = .ok c' ∧ c.SameBodies c' := by
  have hnames := h.names name
  unfold get
  cases hc : t.get? name with
  | none =>
    rw [hc, Option.isSome_none, Option.isSome_eq_false_iff, Option.isNone_iff_eq_none] at hnames
    rw [hnames]
    exact .inl ⟨rfl, rfl⟩
  | some c =>
    rw [hc, Option.isSome_some, Option.isSome_iff_exists] at hnames
    obtain ⟨c', hc'⟩ := hnames
    rw [hc']
    exact .inr ⟨c, c', rfl, rfl, h.classes name c c' hc hc'⟩

/-- In tables that are alike the same code is found. -/
theorem Alike.findCode_eq (h : t.Alike t') (name method : String) :
    t'.findCode name method = t.findCode name method := by
  unfold findCode findMethod
  rcases h.get_cases name with ⟨hget, hget'⟩ | ⟨c, c', hget, hget', hsame⟩
  · rw [hget, hget']
  · rw [hget, hget']
    simp only [bind, Except.bind, hsame.pool]
    -- Both searches end with the same error, or both without a method, or with methods of the
    -- same body.
    have hfind := hsame.findMethod?_eq method
    cases hm : c.findMethod? method with
    | error e => cases hm' : c'.findMethod? method <;> simp_all [Functor.map, Except.map]
    | ok found =>
      cases hm' : c'.findMethod? method with
      | error e => simp [hm, hm', Functor.map, Except.map] at hfind
      | ok found' =>
        have hbody : found'.map Member.body = found.map Member.body := by
          simpa [hm, hm', Functor.map, Except.map] using hfind
        cases found <;> cases found' <;> simp only [Option.map_none, Option.map_some,
          reduceCtorEq, Option.some.injEq] at hbody
        · rfl
        · simp only [RunError.ofFormat, Except.mapError_ok, Member.code?_congr hbody]

/-- The table with every class replaced, under the name it has. -/
def mapClasses (t : ClassTable) (f : ClassFile → ClassFile) : ClassTable :=
  ⟨t.classes.map fun p => (p.1, f p.2)⟩

theorem get?_mapClasses (t : ClassTable) (f : ClassFile → ClassFile) (name : String) :
    (t.mapClasses f).get? name = (t.get? name).map f := by
  unfold get? mapClasses
  induction t.classes with
  | nil => rfl
  | cons p ps ih =>
    rw [List.map_cons, List.lookup_cons, List.lookup_cons, ih]
    cases name == p.1 <;> rfl

/-- Replacing classes by classes with the same bodies gives a table that is alike. -/
theorem alike_mapClasses (t : ClassTable) {f : ClassFile → ClassFile}
    (hf : ∀ c : ClassFile, c.SameBodies (f c)) : t.Alike (t.mapClasses f) where
  names name := by rw [get?_mapClasses, Option.isSome_map]
  classes name c c' hc hc' := by
    rw [get?_mapClasses, hc, Option.map_some, Option.some.injEq] at hc'
    exact hc' ▸ hf c

end ClassTable

namespace Machine

variable {m : Machine} {t : ClassTable}

theorem invokeWith_eq (h : m.classes.Alike t)
    (run : Routine → Frame → World → Result × World) :
    { m with classes := t }.invokeWith run = m.invokeWith run := by
  funext className method receiver args w
  unfold invokeWith
  dsimp only
  rw [h.findCode_eq]
  rcases h.get_cases className with ⟨hget, hget'⟩ | ⟨c, c', hget, hget', hsame⟩
  · rw [hget, hget']
  · rw [hget, hget']
    cases m.classes.findCode className method with
    | error e => rfl
    | ok code => simp only [hsame.pool]

/-- Runs of a routine are the same: a routine has its pool with it, and looks at classes in calls
    only. -/
theorem run_eq (h : m.classes.Alike t) (fuel : Nat) :
    { m with classes := t }.run fuel = m.run fuel := by
  induction fuel with
  | zero => rfl
  | succ fuel ih =>
    funext r f w
    unfold run
    rw [ih, invokeWith_eq h]
    rfl

/-- The version, the access flags, the names of the class and its superclass, the fields and the
    attributes of a class, and the access flags and descriptors of its methods, have no part in what
    a call does: it has the same outcome, and leaves the same world, with the same objects and the
    same calls of natives. -/
theorem invoke_eq_of_alike (m : Machine) (t : ClassTable) (h : m.classes.Alike t) (fuel : Nat)
    (className method : String) (receiver : Option Value) (args : List Value) (w : World) :
    { m with classes := t }.invoke fuel className method receiver args w =
      m.invoke fuel className method receiver args w := by
  unfold invoke
  rw [run_eq h, invokeWith_eq h]

/-- A class that calls a method of another one, which prints a number and then fails. -/
def calling : Machine :=
  let caller := (Assembly.build "A" [.member .method "B" "say" "()V",
    .method ⟨9⟩ "main" "()V" ⟨1, 0, [0xb8, 0, 10, 0xb1]⟩]).2
  let callee := (Assembly.build "B" [.member .field "java/lang/System" "out" "L;",
    .member .method "P" "println" "(I)V",
    .method ⟨9⟩ "say" "()V" ⟨2, 0, [0xb2, 0, 10, 0x05, 0xb6, 0, 16, 0x57, 0xb1]⟩]).2
  ⟨⟨[("A", caller), ("B", callee)]⟩, .console, .isolateStatic⟩

/-- The number is printed, and the failure is the same, when all that has no part is overwritten. -/
theorem invoke_eq_of_alike_overwritten :
    calling.classes.Alike (calling.classes.mapClasses ClassFile.overwritten) ∧
      calling.classes.mapClasses ClassFile.overwritten ≠ calling.classes ∧
      (calling.invoke 9 "A" "main" none [] .start).2.events.filterMap Event.call? =
        [(NativeTable.consoleKey "println", [.int 2])] ∧
      (calling.invoke 9 "A" "main" none [] .start).1.toOption = none ∧
      { calling with classes := calling.classes.mapClasses ClassFile.overwritten }.invoke
          9 "A" "main" none [] .start = calling.invoke 9 "A" "main" none [] .start :=
  have halike := calling.classes.alike_mapClasses ClassFile.sameBodies_overwritten
  ⟨halike, by decide +kernel, by decide +kernel, by decide +kernel,
    calling.invoke_eq_of_alike _ halike 9 "A" "main" none [] .start⟩

end Machine

end Bytecode
