/-
  Keys that an assembly gives out keep their meaning.

  The pool of a class under construction only grows at its end, by constants that it does not have
  yet (`Pool.Grows`); so its constants are all different, and a key leads to the same constant ever
  after.  A `Symbol` is what a request asks for by texts or by a number.  `Pool.Holds key s` says
  that the key leads to the symbol `s`, through the constants in between.

  * `Assembly.intern_cases`: the keys that were given out answer as a search of the pool would;
  * `Holds.symbol_unique`, `Holds.key_unique`: a key leads to one symbol, and one key to a symbol;
  * `Holds.resolves`: the texts of a symbol, if none is empty, are what the key resolves to.
-/
import Bytecode.ClassFile.Assembly
import Bytecode.ClassFile.Pool
import Bytecode.Proofs.Text.ModifiedUtf8

namespace Bytecode

/-! ## Pools that grow -/

/-- The keys that a constant refers to satisfy `R`, each with the kind that the constant under it
    has to be of.  The first number of an `invokeDynamic` is no key of the pool. -/
def Constant.Refers (R : Nat → ConstantKind → Prop) : Constant → Prop
  | .utf8 _ | .integer _ => True
  | .classRef i | .string i | .methodType i => R i .utf8
  | .member _ i j => R i .classRef ∧ R j .nameAndType
  | .nameAndType i j => R i .utf8 ∧ R j .utf8
  | .methodHandle _ i => ∃ kind, R i (.member kind)
  | .invokeDynamic _ j => R j .nameAndType

namespace Pool

def kind? (pool : Pool) (key : Nat) : Option ConstantKind :=
  (pool.get? key).map Constant.kind

/-- A constant refers to constants of the pool alone, each of the kind it has to be of. -/
def Links (pool : Pool) (c : Constant) : Prop :=
  c.Refers (fun key kind => pool.kind? key = some kind) ∧ c.kind ≠ .invokeDynamic

/-- One pool became another by adding constants at its end, each of which was new and allowed. -/
inductive Grows (Allowed : Pool → Constant → Prop) (pool : Pool) : Pool → Prop
  | refl : Grows Allowed pool pool
  | add {pool' : Pool} {c : Constant} (h : Grows Allowed pool pool') (hnew : c ∉ pool'.constants)
      (hc : Allowed pool' c) : Grows Allowed pool ⟨pool'.constants ++ [c]⟩

variable {Allowed Allowed' : Pool → Constant → Prop} {pool pool' pool'' : Pool} {key key' : Nat}
  {c : Constant}

theorem lt_count_of_get? (h : pool.get? key = some c) : key < pool.count := by
  cases key with
  | zero => cases h
  | succ i =>
    have hi : i < pool.constants.length := (List.getElem?_eq_some_iff.1 h).1
    exact Nat.succ_lt_succ hi

theorem get?_concat (pool : Pool) (c : Constant) (key : Nat) :
    (⟨pool.constants ++ [c]⟩ : Pool).get? key =
      if key = pool.count then some c else pool.get? key := by
  cases key with
  | zero => exact (if_neg (Nat.zero_ne_add_one pool.constants.length)).symm
  | succ i =>
    simp only [get?, count, Nat.add_right_cancel_iff]
    by_cases hi : i = pool.constants.length
    · rw [if_pos hi, hi, List.getElem?_concat_length]
    · rw [if_neg hi]
      by_cases hlt : i < pool.constants.length
      · exact List.getElem?_append_left hlt
      · rw [List.getElem?_eq_none (by simp; omega), List.getElem?_eq_none (by omega)]

theorem get?_unique (hnodup : pool.constants.Nodup) (h : pool.get? key = some c)
    (h' : pool.get? key' = some c) : key = key' := by
  cases key with
  | zero => cases h
  | succ i =>
    cases key' with
    | zero => cases h'
    | succ j =>
      have hi : i < pool.constants.length := (List.getElem?_eq_some_iff.1 h).1
      have heq : pool.constants[i]? = pool.constants[j]? := h.trans h'.symm
      rw [(List.getElem?_inj hi hnodup).1 heq]

theorem Grows.mono (h : pool.Grows Allowed pool')
    (himp : ∀ p c, Allowed p c → Allowed' p c) : pool.Grows Allowed' pool' := by
  induction h with
  | refl => exact .refl
  | add _ hnew hc ih => exact ih.add hnew (himp _ _ hc)

theorem Grows.trans (h : pool.Grows Allowed pool') (h' : pool'.Grows Allowed pool'') :
    pool.Grows Allowed pool'' := by
  induction h' with
  | refl => exact h
  | add _ hnew hc ih => exact ih.add hnew hc

/-- What a key leads to, it leads to ever after. -/
theorem Grows.get? (h : pool.Grows Allowed pool') (hkey : pool.get? key = some c) :
    pool'.get? key = some c := by
  induction h with
  | refl => exact hkey
  | add _ _ _ ih => rw [get?_concat, if_neg (Nat.ne_of_lt (lt_count_of_get? ih)), ih]

theorem Grows.kind? (h : pool.Grows Allowed pool') {kind : ConstantKind}
    (hkey : pool.kind? key = some kind) : pool'.kind? key = some kind := by
  obtain ⟨c, hc, rfl⟩ := Option.map_eq_some_iff.1 hkey
  rw [Pool.kind?, h.get? hc, Option.map_some]

theorem Grows.nodup (h : pool.Grows Allowed pool') (hnodup : pool.constants.Nodup) :
    pool'.constants.Nodup := by
  induction h with
  | refl => exact hnodup
  | add _ hnew _ ih =>
    refine List.nodup_append.2 ⟨ih, by simp, fun a ha b hb => ?_⟩
    rintro rfl
    exact hnew (List.mem_singleton.1 hb ▸ ha)

end Pool

/-! ## Symbols -/

/-- What a request for a key asks for. -/
inductive Symbol where
  | utf8 (text : String)
  | integer (n : Int32)
  | classRef (name : String)
  | string (text : String)
  | nameAndType (name descriptor : String)
  | member (kind : MemberKind) (owner name descriptor : String)
  deriving DecidableEq, Repr

namespace Symbol

def kind : Symbol → ConstantKind
  | utf8 _ => .utf8
  | integer _ => .integer
  | classRef _ => .classRef
  | string _ => .string
  | nameAndType _ _ => .nameAndType
  | member kind _ _ _ => .member kind

def texts : Symbol → List String
  | integer _ => []
  | utf8 text | classRef text | string text => [text]
  | nameAndType name descriptor => [name, descriptor]
  | member _ owner name descriptor => [owner, name, descriptor]

def Resolves (pool : Pool) (key : Nat) : Symbol → Prop
  | utf8 text => pool.text key = .ok text
  | integer n => pool.integer key = .ok n
  | classRef name => pool.className key = .ok name
  | string text => pool.string key = .ok text
  | nameAndType name descriptor => pool.nameAndType key = .ok (name, descriptor)
  | member kind owner name descriptor =>
    pool.memberRef key (.member kind) = .ok ⟨owner, name, descriptor⟩

def request : Symbol → Assembly Nat
  | utf8 text => Assembly.utf8 text
  | integer n => Assembly.integer n
  | classRef name => Assembly.classRef name
  | string text => Assembly.string text
  | nameAndType name descriptor => Assembly.nameAndType name descriptor
  | member kind owner name descriptor => Assembly.member kind owner name descriptor

end Symbol

namespace Pool

/-- The key leads to the symbol: to its constant, whose keys lead to its parts. -/
inductive Holds (pool : Pool) : Nat → Symbol → Prop
  | utf8 {key : Nat} {text : String}
      (h : pool.get? key = some (.utf8 (ModifiedUtf8.encode text))) : Holds pool key (.utf8 text)
  | integer {key : Nat} {n : Int32} (h : pool.get? key = some (.integer n)) :
      Holds pool key (.integer n)
  | classRef {key i : Nat} {name : String} (hname : Holds pool i (.utf8 name))
      (h : pool.get? key = some (.classRef i)) : Holds pool key (.classRef name)
  | string {key i : Nat} {text : String} (htext : Holds pool i (.utf8 text))
      (h : pool.get? key = some (.string i)) : Holds pool key (.string text)
  | nameAndType {key i j : Nat} {name descriptor : String} (hname : Holds pool i (.utf8 name))
      (hdesc : Holds pool j (.utf8 descriptor)) (h : pool.get? key = some (.nameAndType i j)) :
      Holds pool key (.nameAndType name descriptor)
  | member {key i j : Nat} {kind : MemberKind} {owner name descriptor : String}
      (howner : Holds pool i (.classRef owner)) (hnt : Holds pool j (.nameAndType name descriptor))
      (h : pool.get? key = some (.member kind i j)) :
      Holds pool key (.member kind owner name descriptor)

namespace Holds

variable {Allowed : Pool → Constant → Prop} {pool pool' : Pool} {key key' : Nat} {s s' : Symbol}

theorem mono (h : pool.Holds key s) (hgrows : pool.Grows Allowed pool') : pool'.Holds key s := by
  induction h with
  | utf8 h => exact .utf8 (hgrows.get? h)
  | integer h => exact .integer (hgrows.get? h)
  | classRef _ h ih => exact .classRef ih (hgrows.get? h)
  | string _ h ih => exact .string ih (hgrows.get? h)
  | nameAndType _ _ h ihname ihdesc => exact .nameAndType ihname ihdesc (hgrows.get? h)
  | member _ _ h ihowner ihnt => exact .member ihowner ihnt (hgrows.get? h)

theorem kind?_eq (h : pool.Holds key s) : pool.kind? key = some s.kind := by
  cases h <;> exact congrArg (Option.map Constant.kind) ‹_›

theorem symbol_unique (h : pool.Holds key s) (h' : pool.Holds key s') : s = s' := by
  induction h generalizing s' with
  | utf8 h =>
    cases h' with
    | utf8 h' =>
      have hencode := Constant.utf8.inj (Option.some.inj (h.symm.trans h'))
      rw [ModifiedUtf8.encode_injective hencode]
    | _ => simp_all
  | integer h =>
    cases h' with
    | integer h' => rw [Constant.integer.inj (Option.some.inj (h.symm.trans h'))]
    | _ => simp_all
  | classRef _ h ih =>
    cases h' with
    | classRef hname h' =>
      cases Option.some.inj (h.symm.trans h')
      rw [Symbol.utf8.inj (ih hname)]
    | _ => simp_all
  | string _ h ih =>
    cases h' with
    | string htext h' =>
      cases Option.some.inj (h.symm.trans h')
      rw [Symbol.utf8.inj (ih htext)]
    | _ => simp_all
  | nameAndType _ _ h ihname ihdesc =>
    cases h' with
    | nameAndType hname hdesc h' =>
      cases Option.some.inj (h.symm.trans h')
      rw [Symbol.utf8.inj (ihname hname), Symbol.utf8.inj (ihdesc hdesc)]
    | _ => simp_all
  | member _ _ h ihowner ihnt =>
    cases h' with
    | member howner hnt h' =>
      cases Option.some.inj (h.symm.trans h')
      obtain ⟨rfl, rfl⟩ := Symbol.nameAndType.inj (ihnt hnt)
      rw [Symbol.classRef.inj (ihowner howner)]
    | _ => simp_all

theorem key_unique (hnodup : pool.constants.Nodup) (h : pool.Holds key s)
    (h' : pool.Holds key' s) : key = key' := by
  induction h generalizing key' with
  | utf8 h =>
    cases h' with
    | utf8 h' => exact get?_unique hnodup h h'
  | integer h =>
    cases h' with
    | integer h' => exact get?_unique hnodup h h'
  | classRef _ h ih =>
    cases h' with
    | classRef hname h' =>
      obtain rfl := ih hname
      exact get?_unique hnodup h h'
  | string _ h ih =>
    cases h' with
    | string htext h' =>
      obtain rfl := ih htext
      exact get?_unique hnodup h h'
  | nameAndType _ _ h ihname ihdesc =>
    cases h' with
    | nameAndType hname hdesc h' =>
      obtain rfl := ihname hname
      obtain rfl := ihdesc hdesc
      exact get?_unique hnodup h h'
  | member _ _ h ihowner ihnt =>
    cases h' with
    | member howner hnt h' =>
      obtain rfl := ihowner howner
      obtain rfl := ihnt hnt
      exact get?_unique hnodup h h'

theorem text_eq {text : String} (h : pool.Holds key (.utf8 text)) (hne : text ≠ "") :
    pool.text key = .ok text := by
  cases h with
  | utf8 h =>
    have hencode : ModifiedUtf8.encode text ≠ [] := mt ModifiedUtf8.encode_eq_nil_iff.1 hne
    have hdecode := ModifiedUtf8.decode_of_encode hencode rfl
    simp [Pool.text, Pool.octets, Pool.get, h, hdecode, bind, Except.bind, Except.mapError]

theorem className_eq {name : String} (h : pool.Holds key (.classRef name)) (hne : name ≠ "") :
    pool.className key = .ok name := by
  cases h with
  | classRef hname h =>
    simp [Pool.className, Pool.get, h, hname.text_eq hne, bind, Except.bind]

theorem nameAndType_eq {name descriptor : String}
    (h : pool.Holds key (.nameAndType name descriptor)) (hname : name ≠ "")
    (hdesc : descriptor ≠ "") :
    pool.nameAndType key = .ok (name, descriptor) := by
  cases h with
  | nameAndType hn hd h =>
    simp [Pool.nameAndType, Pool.get, h, hn.text_eq hname, hd.text_eq hdesc, bind, Except.bind,
      pure, Except.pure]

theorem resolves (h : pool.Holds key s) (htexts : ∀ t ∈ s.texts, t ≠ "") :
    s.Resolves pool key := by
  cases h with
  | utf8 h => exact text_eq (.utf8 h) (htexts _ List.mem_cons_self)
  | integer h => simp [Symbol.Resolves, Pool.integer, Pool.get, h, bind, Except.bind]
  | classRef hname h => exact className_eq (.classRef hname h) (htexts _ List.mem_cons_self)
  | string htext h =>
    have htext := htext.text_eq (htexts _ List.mem_cons_self)
    simp [Symbol.Resolves, Pool.string, Pool.get, h, htext, bind, Except.bind]
  | nameAndType hname hdesc h =>
    exact nameAndType_eq (.nameAndType hname hdesc h) (htexts _ (by simp [Symbol.texts]))
      (htexts _ (by simp [Symbol.texts]))
  | member howner hnt h =>
    have howner := howner.className_eq (htexts _ List.mem_cons_self)
    have hnt := hnt.nameAndType_eq (htexts _ (by simp [Symbol.texts]))
      (htexts _ (by simp [Symbol.texts]))
    simp [Symbol.Resolves, Pool.memberRef, Pool.get, h, howner, hnt, bind, Except.bind, pure,
      Except.pure]

end Holds

end Pool

/-! ## Requests -/

namespace Assembly

/-- A class under construction became another by adding to its pool constants that link to it. -/
structure Extends (cls cls' : ClassFile) : Prop where
  grows : cls.pool.Grows Pool.Links cls'.pool
  rest : cls' = { cls with pool := cls'.pool }

variable {cls cls' cls'' : ClassFile}

theorem Extends.refl (cls : ClassFile) : Extends cls cls :=
  ⟨.refl, rfl⟩

theorem Extends.trans (h : Extends cls cls') (h' : Extends cls' cls'') : Extends cls cls'' :=
  ⟨h.grows.trans h'.grows, by rw [h'.rest, h.rest]⟩

/-- The keys that were given out answer as a search through the constants does: a constant is there
    and nothing changes, or it is added under the next key. -/
theorem intern_cases (c : Constant) (d : Draft) :
    (∃ key, d.cls.pool.get? key = some c ∧ intern c d = (key, d)) ∨
      c ∉ d.cls.pool.constants ∧ (intern c d).1 = d.cls.pool.count ∧
        (intern c d).2.cls = { d.cls with pool := ⟨d.cls.pool.constants ++ [c]⟩ } := by
  have hsearch := d.interned_eq c
  unfold intern
  split
  · next key hkey =>
    rw [hkey] at hsearch
    obtain ⟨i, hi, rfl⟩ := Option.map_eq_some_iff.1 hsearch.symm
    obtain ⟨hlt, hc, -⟩ := List.findIdx?_eq_some_iff_getElem.1 hi
    refine .inl ⟨i + 1, ?_, rfl⟩
    show d.cls.pool.constants[i]? = some c
    rw [List.getElem?_eq_getElem hlt, eq_of_beq hc]
  · next hnone =>
    rw [hnone] at hsearch
    have hnew := List.idxOf?_eq_none_iff.1 (Option.map_eq_none_iff.1 hsearch.symm)
    exact .inr ⟨hnew, rfl, rfl⟩

theorem get?_intern (c : Constant) (d : Draft) :
    (intern c d).2.cls.pool.get? (intern c d).1 = some c := by
  rcases intern_cases c d with ⟨key, hkey, heq⟩ | ⟨-, hkey, hcls⟩
  · rw [heq]
    exact hkey
  · rw [hkey, hcls, Pool.get?_concat, if_pos rfl]

theorem grows_intern {Allowed : Pool → Constant → Prop} {c : Constant} {d : Draft}
    (hc : Allowed d.cls.pool c) : d.cls.pool.Grows Allowed (intern c d).2.cls.pool := by
  rcases intern_cases c d with ⟨key, -, heq⟩ | ⟨hnew, -, hcls⟩
  · rw [heq]
    exact .refl
  · rw [hcls]
    exact Pool.Grows.refl.add hnew hc

theorem rest_intern (c : Constant) (d : Draft) :
    (intern c d).2.cls = { d.cls with pool := (intern c d).2.cls.pool } := by
  rcases intern_cases c d with ⟨key, -, heq⟩ | ⟨-, -, hcls⟩
  · rw [heq]
  · rw [hcls]

theorem extends_intern {c : Constant} {d : Draft} (hc : d.cls.pool.Links c) :
    Extends d.cls (intern c d).2.cls :=
  ⟨grows_intern hc, rest_intern c d⟩

/-- The computation answers with a key that leads to the symbol, and does nothing but extend the
    class. -/
def Interns (x : Assembly Nat) (s : Symbol) : Prop :=
  ∀ d, Extends d.cls (x d).2.cls ∧ (x d).2.cls.pool.Holds (x d).1 s

theorem interns_utf8 (text : String) : Interns (utf8 text) (.utf8 text) :=
  fun _ => ⟨extends_intern ⟨trivial, nofun⟩, .utf8 (get?_intern _ _)⟩

theorem Interns.one {x : Assembly Nat} {s t : Symbol} {make : Nat → Constant} (hx : Interns x s)
    (hlinks : ∀ {pool : Pool} {i}, pool.Holds i s → pool.Links (make i))
    (hholds : ∀ {pool : Pool} {key i}, pool.Holds i s → pool.get? key = some (make i) →
      pool.Holds key t) :
    Interns (do let i ← x; intern (make i)) t := by
  intro d
  obtain ⟨hext, hs⟩ := hx d
  have hext' := extends_intern (hlinks hs)
  exact ⟨hext.trans hext', hholds (hs.mono hext'.grows) (get?_intern _ _)⟩

theorem Interns.two {x y : Assembly Nat} {s t u : Symbol} {make : Nat → Nat → Constant}
    (hx : Interns x s) (hy : Interns y t)
    (hlinks : ∀ {pool : Pool} {i j}, pool.Holds i s → pool.Holds j t → pool.Links (make i j))
    (hholds : ∀ {pool : Pool} {key i j}, pool.Holds i s → pool.Holds j t →
      pool.get? key = some (make i j) → pool.Holds key u) :
    Interns (do let i ← x; let j ← y; intern (make i j)) u := by
  intro d
  obtain ⟨hextx, hs⟩ := hx d
  obtain ⟨hexty, ht⟩ := hy (x d).2
  -- the first symbol is still there after the second was asked for
  have hs := hs.mono hexty.grows
  have hext := extends_intern (hlinks hs ht)
  exact ⟨(hextx.trans hexty).trans hext,
    hholds (hs.mono hext.grows) (ht.mono hext.grows) (get?_intern _ _)⟩

theorem interns_classRef (name : String) : Interns (classRef name) (.classRef name) :=
  (interns_utf8 name).one (fun h => ⟨h.kind?_eq, nofun⟩) .classRef

theorem interns_nameAndType (name descriptor : String) :
    Interns (nameAndType name descriptor) (.nameAndType name descriptor) :=
  (interns_utf8 name).two (interns_utf8 descriptor)
    (fun hn hd => ⟨⟨hn.kind?_eq, hd.kind?_eq⟩, nofun⟩) .nameAndType

/-- **A request for a symbol answers with a key that leads to it.** -/
theorem interns_request (s : Symbol) : Interns s.request s := by
  cases s with
  | utf8 text => exact interns_utf8 text
  | integer n => exact fun _ => ⟨extends_intern ⟨trivial, nofun⟩, .integer (get?_intern _ _)⟩
  | classRef name => exact interns_classRef name
  | string text => exact (interns_utf8 text).one (fun h => ⟨h.kind?_eq, nofun⟩) .string
  | nameAndType name descriptor => exact interns_nameAndType name descriptor
  | member kind owner name descriptor =>
    exact (interns_classRef owner).two (interns_nameAndType name descriptor)
      (fun ho hnt => ⟨⟨ho.kind?_eq, hnt.kind?_eq⟩, nofun⟩) .member

/-- A member has these flags, and keys that lead to this name and this descriptor. -/
structure Names (pool : Pool) (access : AccessFlags) (name descriptor : String) (m : Member) :
    Prop where
  access : m.access = access
  name : pool.Holds m.name (.utf8 name)
  descriptor : pool.Holds m.descriptor (.utf8 descriptor)

theorem makeMember_spec (access : AccessFlags) (name descriptor : String)
    (attributes : List Attribute) (d : Draft) :
    let out := makeMember access name descriptor attributes d
    Extends d.cls out.2.cls ∧ Names out.2.cls.pool access name descriptor out.1 ∧
      out.1.attributes = attributes := by
  obtain ⟨hextn, hn⟩ := interns_utf8 name d
  obtain ⟨hextd, hd⟩ := interns_utf8 descriptor (utf8 name d).2
  exact ⟨hextn.trans hextd, ⟨rfl, hn.mono hextd.grows, hd⟩, rfl⟩

theorem nameClass_spec (name : String) (d : Draft) :
    ∃ cls' this super,
      (nameClass name d).2.cls = { cls' with thisClass := this, superClass := super } ∧
      Extends d.cls cls' ∧ cls'.pool.Holds this (.classRef name) ∧
      cls'.pool.Holds super (.classRef rootClass) := by
  obtain ⟨hext, hthis⟩ := interns_classRef name d
  obtain ⟨hext', hsuper⟩ := interns_classRef rootClass (classRef name d).2
  refine ⟨(classRef rootClass (classRef name d).2).2.cls, (classRef name d).1,
    (classRef rootClass (classRef name d).2).1, ?_, hext.trans hext', hthis.mono hext'.grows,
    hsuper⟩
  unfold nameClass
  generalize classRef name = x, classRef rootClass = y
  rfl

/-- The class that an assembly starts with has its two names and nothing else. -/
theorem start_spec (name : String) :
    ∃ pool this super, (start name).cls = ⟨⟨52, 0⟩, pool, ⟨0x0021⟩, this, super, [], [], []⟩ ∧
      (⟨[]⟩ : Pool).Grows Pool.Links pool ∧ pool.Holds this (.classRef name) ∧
      pool.Holds super (.classRef rootClass) := by
  obtain ⟨cls', this, super, heq, hext, hthis, hsuper⟩ := nameClass_spec name .empty
  refine ⟨cls'.pool, this, super, ?_, hext.grows, hthis, hsuper⟩
  rw [start, heq, hext.rest]
  rfl

/-! ## Lists of requests -/

/-- The symbol that a request asks for, if it asks for one. -/
def Edit.symbol? : Edit → Option Symbol
  | .utf8 text => some (.utf8 text)
  | .integer n => some (.integer n)
  | .classRef name => some (.classRef name)
  | .string text => some (.string text)
  | .nameAndType name descriptor => some (.nameAndType name descriptor)
  | .member kind owner name descriptor => some (.member kind owner name descriptor)
  | _ => none

theorem Edit.apply_of_symbol? {e : Edit} {s : Symbol} (h : e.symbol? = some s) (d : Draft) :
    e.apply d = (some (s.request d).1, (s.request d).2) := by
  have heq : e.apply = some <$> s.request := by cases e <;> cases h <;> rfl
  rw [heq]
  -- what the request does is of no concern here
  generalize s.request = x
  rfl

/-- What a request makes of a class: it adds to the pool, and at most one member or attribute. -/
inductive Edit.Does (cls : ClassFile) : Edit → ClassFile → Prop
  | push {c : Constant} {cls' : ClassFile} (h : cls.pool.Grows (fun _ _ => True) cls'.pool)
      (hrest : cls' = { cls with pool := cls'.pool }) : Does cls (.push c) cls'
  | symbol {e : Edit} {s : Symbol} {cls' : ClassFile} (hs : e.symbol? = some s)
      (h : Extends cls cls') : Does cls e cls'
  | field {access : AccessFlags} {name descriptor : String} {cls' : ClassFile} {m : Member}
      (h : Extends cls cls') (hm : Names cls'.pool access name descriptor m)
      (hattrs : m.attributes = []) :
      Does cls (.field access name descriptor) { cls' with fields := cls'.fields ++ [m] }
  | method {access : AccessFlags} {name descriptor : String} {code : Code} {cls' : ClassFile}
      {m : Member} {key : Nat} (h : Extends cls cls')
      (hm : Names cls'.pool access name descriptor m) (hkey : cls'.pool.Holds key (.utf8 "Code"))
      (hattrs : m.attributes = [⟨key, code.info⟩]) :
      Does cls (.method access name descriptor code) { cls' with methods := cls'.methods ++ [m] }
  | bodiless {access : AccessFlags} {name descriptor : String} {cls' : ClassFile} {m : Member}
      (h : Extends cls cls') (hm : Names cls'.pool access name descriptor m)
      (hattrs : m.attributes = []) :
      Does cls (.bodiless access name descriptor) { cls' with methods := cls'.methods ++ [m] }
  | ofClass {name : String} {info : Octets} {cls' : ClassFile} {key : Nat} (h : Extends cls cls')
      (hkey : cls'.pool.Holds key (.utf8 name)) :
      Does cls (.attribute name info)
        { cls' with attributes := cls'.attributes ++ [⟨key, info⟩] }

theorem Edit.does_apply (e : Edit) (d : Draft) : e.Does d.cls (e.apply d).2.cls := by
  cases hs : e.symbol? with
  | some s =>
    rw [e.apply_of_symbol? hs]
    exact .symbol hs (interns_request s d).1
  | none =>
    match e with
    | .push c => exact .push (grows_intern trivial) (rest_intern c d)
    | .field access name descriptor =>
      obtain ⟨hext, hm, hattrs⟩ := makeMember_spec access name descriptor [] d
      exact .field hext hm hattrs
    | .method access name descriptor code =>
      obtain ⟨hext, hkey⟩ := interns_utf8 "Code" d
      obtain ⟨hext', hm, hattrs⟩ := makeMember_spec access name descriptor
        [⟨(Assembly.utf8 "Code" d).1, code.info⟩] (Assembly.utf8 "Code" d).2
      exact .method (hext.trans hext') hm (hkey.mono hext'.grows) hattrs
    | .bodiless access name descriptor =>
      obtain ⟨hext, hm, hattrs⟩ := makeMember_spec access name descriptor [] d
      exact .bodiless hext hm hattrs
    | .attribute name info =>
      obtain ⟨hext, hkey⟩ := interns_utf8 name d
      exact .ofClass hext hkey

theorem Edit.Does.grows {e : Edit} (h : e.Does cls cls') :
    cls.pool.Grows (fun _ _ => True) cls'.pool := by
  have hlinks : ∀ {pool}, cls.pool.Grows Pool.Links pool → cls.pool.Grows (fun _ _ => True) pool :=
    fun h => h.mono fun _ _ _ => trivial
  cases h with
  | push h _ => exact h
  | symbol _ h => exact hlinks h.grows
  | field h _ _ => exact hlinks h.grows
  | method h _ _ _ => exact hlinks h.grows
  | bodiless h _ _ => exact hlinks h.grows
  | ofClass h _ => exact hlinks h.grows

theorem mapM_apply_cons (e : Edit) (edits : List Edit) (d : Draft) :
    ((e :: edits).mapM Edit.apply) d =
      ((e.apply d).1 :: ((edits.mapM Edit.apply) (e.apply d).2).1,
        ((edits.mapM Edit.apply) (e.apply d).2).2) := by
  rw [List.mapM_cons]
  rfl

/-- What every request keeps, a list of requests keeps. -/
theorem mapM_apply_keeps {P : ClassFile → Prop} {edits : List Edit}
    (hstep : ∀ e ∈ edits, ∀ d, P d.cls → P (e.apply d).2.cls) {d : Draft} (h : P d.cls) :
    P ((edits.mapM Edit.apply) d).2.cls := by
  induction edits generalizing d with
  | nil => exact h
  | cons e edits ih =>
    rw [mapM_apply_cons]
    obtain ⟨he, hrest⟩ := List.forall_mem_cons.1 hstep
    exact ih hrest (he d h)

theorem grows_mapM_apply (edits : List Edit) (d : Draft) :
    d.cls.pool.Grows (fun _ _ => True) ((edits.mapM Edit.apply) d).2.cls.pool :=
  mapM_apply_keeps (P := fun cls' => d.cls.pool.Grows (fun _ _ => True) cls'.pool)
    (fun e _ _ h => h.trans (e.does_apply _).grows) .refl

/-- Each answer was given at its time, and since then the pool has only grown. -/
theorem exists_of_mem_zip {edits : List Edit} {e : Edit} {answer : Option Nat} {d : Draft}
    (h : (e, answer) ∈ edits.zip ((edits.mapM Edit.apply) d).1) :
    ∃ before, answer = (e.apply before).1 ∧
      (e.apply before).2.cls.pool.Grows (fun _ _ => True)
        ((edits.mapM Edit.apply) d).2.cls.pool := by
  induction edits generalizing d with
  | nil => simp at h
  | cons e' edits ih =>
    rw [mapM_apply_cons] at h ⊢
    rw [List.zip_cons_cons] at h
    rcases List.mem_cons.1 h with heq | h
    · -- the first request was answered in `d`, the others have come since
      obtain ⟨rfl, rfl⟩ := Prod.mk.inj heq
      exact ⟨d, rfl, grows_mapM_apply edits _⟩
    · exact ih h

theorem length_mapM_apply (edits : List Edit) (d : Draft) :
    ((edits.mapM Edit.apply) d).1.length = edits.length := by
  induction edits generalizing d with
  | nil => rfl
  | cons e edits ih => rw [mapM_apply_cons, List.length_cons, List.length_cons, ih]

theorem holds_of_mem_zip {edits : List Edit} {e : Edit} {answer : Option Nat} {s : Symbol}
    {d : Draft}
    (h : (e, answer) ∈ edits.zip ((edits.mapM Edit.apply) d).1) (hs : e.symbol? = some s) :
    ∃ key, answer = some key ∧ ((edits.mapM Edit.apply) d).2.cls.pool.Holds key s := by
  obtain ⟨before, rfl, hgrows⟩ := exists_of_mem_zip h
  rw [e.apply_of_symbol? hs] at hgrows ⊢
  exact ⟨_, rfl, (interns_request s before).2.mono hgrows⟩

theorem get?_of_mem_zip {edits : List Edit} {c : Constant} {answer : Option Nat} {d : Draft}
    (h : (Edit.push c, answer) ∈ edits.zip ((edits.mapM Edit.apply) d).1) :
    ∃ key, answer = some key ∧ ((edits.mapM Edit.apply) d).2.cls.pool.get? key = some c := by
  obtain ⟨before, rfl, hgrows⟩ := exists_of_mem_zip h
  exact ⟨_, rfl, hgrows.get? (get?_intern c before)⟩

theorem nodup_build (name : String) (edits : List Edit) :
    (build name edits).2.pool.constants.Nodup := by
  refine (grows_mapM_apply edits (start name)).nodup ?_
  obtain ⟨pool, this, super, heq, hgrows, -, -⟩ := start_spec name
  rw [heq]
  exact hgrows.nodup List.nodup_nil

/-- **Keys keep their meaning.**  Whatever is asked of an assembly, constants pushed as they are
    included: there is an answer to every request, and in the class that is built no two constants
    are equal; the key that a request for a symbol was answered with resolves to that symbol if
    none of its texts is empty; and two such requests, or two pushes, were answered with the same
    key exactly if they asked for the same. -/
theorem build_symbols (name : String) (edits : List Edit) :
    let answers := (build name edits).1
    let pool := (build name edits).2.pool
    answers.length = edits.length ∧ pool.constants.Nodup ∧
    (∀ e answer s, (e, answer) ∈ edits.zip answers → e.symbol? = some s →
      ∃ key, answer = some key ∧ ((∀ t ∈ s.texts, t ≠ "") → s.Resolves pool key)) ∧
    (∀ e answer s e' answer' s', (e, answer) ∈ edits.zip answers → e.symbol? = some s →
      (e', answer') ∈ edits.zip answers → e'.symbol? = some s' → (answer = answer' ↔ s = s')) ∧
    ∀ c answer c' answer', (.push c, answer) ∈ edits.zip answers →
      (.push c', answer') ∈ edits.zip answers → (answer = answer' ↔ c = c') := by
  have hnodup := nodup_build name edits
  refine ⟨length_mapM_apply edits _, hnodup, ?_, ?_, ?_⟩
  · intro e answer s h hs
    obtain ⟨key, rfl, hkey⟩ := holds_of_mem_zip h hs
    exact ⟨key, rfl, hkey.resolves⟩
  · intro e answer s e' answer' s' h hs h' hs'
    obtain ⟨key, rfl, hkey⟩ := holds_of_mem_zip h hs
    obtain ⟨key', rfl, hkey'⟩ := holds_of_mem_zip h' hs'
    constructor
    · intro heq
      obtain rfl := Option.some.inj heq
      exact hkey.symbol_unique hkey'
    · rintro rfl
      rw [hkey.key_unique hnodup hkey']
  · intro c answer c' answer' h h'
    obtain ⟨key, rfl, hkey⟩ := get?_of_mem_zip h
    obtain ⟨key', rfl, hkey'⟩ := get?_of_mem_zip h'
    constructor
    · intro heq
      obtain rfl := Option.some.inj heq
      exact Option.some.inj (hkey.symm.trans hkey')
    · rintro rfl
      rw [Pool.get?_unique hnodup hkey hkey']

/-- A reference to a class is pushed before the text that it refers to is there; the requests that
    follow make it the class of a method. -/
theorem build_symbols_dangling_push :
    let edits : List Edit := [.push (.classRef 6), .member .method "B" "run" "()V",
      .member .method "B" "run" "()V", .classRef "B"]
    let built := build "A" edits
    built.1 = [some 5, some 10, some 10, some 5] ∧
      built.2.pool.memberRef 10 (.member .method) = .ok ⟨"B", "run", "()V"⟩ := by
  intro edits built
  have hanswers : built.1 = [some 5, some 10, some 10, some 5] := by decide +kernel
  obtain ⟨-, -, hresolves, -⟩ := build_symbols "A" edits
  have hmem : (Edit.member .method "B" "run" "()V", some 10) ∈ edits.zip built.1 := by
    simp [hanswers, edits]
  obtain ⟨key, hkey, hmember⟩ := hresolves _ _ (.member .method "B" "run" "()V") hmem rfl
  obtain rfl := Option.some.inj hkey
  exact ⟨hanswers, hmember (by simp [Symbol.texts])⟩

end Assembly

end Bytecode
