/-
  Methods looked up by name.

  Names are stored in modified UTF-8 and looked for in standard UTF-8.  The two agree on plain
  texts, and only on these: what is written for a text holds neither a zero nor an octet from 0xf0
  on, while the standard form of any other text holds one.

  * `ModifiedUtf8.encode_eq_utf8_iff`: the two forms are the same octets exactly if the texts are
    the same and plain;
  * `Member.find?_cons`: so a method is the one looked for if it has the name looked for, and this
    is plain; `ClassFile.findMethod?_of_texts` follows, by induction on the methods;
  * `Assembly.find?_of_answers`: of the methods asked for under a name the first one is found.
-/
import Mathlib.Data.List.Forall2
import Bytecode.Proofs.ClassFile.Bodies

namespace Bytecode

/-! ## Two forms of UTF-8 -/

namespace ModifiedUtf8

theorem isPlainChar_iff {c : Char} :
    isPlainChar c = true ↔ 0 < c.toNat ∧ c.toNat < 0x10000 := by
  simp only [isPlainChar, Bool.and_eq_true, decide_eq_true_eq]
  omega

theorem encode_of_plain {text : String} (h : isPlain text = true) : encode text = utf8 text := by
  have hchars := List.all_eq_true.1 h
  unfold encode utf8
  generalize text.toList = cs at hchars
  induction cs with
  | nil => rfl
  | cons c cs ih =>
    obtain ⟨hc, hcs⟩ := List.forall_mem_cons.1 hchars
    rw [isPlainChar_iff] at hc
    rw [List.flatMap_cons, List.flatMap_cons, ih hcs, encodeChar, if_neg (by omega),
      if_pos (by omega)]

/-- What is written for a character holds no zero and no octet from 0xf0 on. -/
theorem octet_of_encodeChar {c : Char} {b : UInt8} (h : b ∈ encodeChar c) :
    0 < b.toNat ∧ b.toNat < 0xf0 := by
  have htrail : ∀ {u : UInt8}, isTrail u = true → 0 < u.toNat ∧ u.toNat < 0xf0 := by
    intro u hu
    rw [isTrail_iff] at hu
    omega
  by_cases h₁ : 0 < c.toNat ∧ c.toNat < 0x80
  · rw [encodeChar_of_one h₁.1 h₁.2, List.mem_singleton] at h
    have hb := toNat_ofNat_octet (n := c.toNat) (by omega)
    rw [h]
    omega
  by_cases h₂ : c.toNat < 0x800
  · obtain ⟨b₁, b₂, hc, hb, hb', hb₂, -⟩ := exists_two_octets (c := c) (by omega) h₂
    simp only [hc, List.mem_cons, List.not_mem_nil, or_false] at h
    rcases h with rfl | rfl
    · omega
    · exact htrail hb₂
  by_cases h₃ : c.toNat < 0x10000
  · obtain ⟨b₁, b₂, b₃, hc, hb, hb', -, hb₂, hb₃, -⟩ :=
      exists_three_octets (c := c) (by omega) h₃
    simp only [hc, List.mem_cons, List.not_mem_nil, or_false] at h
    rcases h with rfl | rfl | rfl
    · omega
    · exact htrail hb₂
    · exact htrail hb₃
  · obtain ⟨b₂, b₃, b₅, b₆, hc, hb₂, hb₃, hb₅, hb₆, -⟩ := exists_pair_octets (c := c) (by omega)
    rw [isHigh_iff] at hb₂
    rw [isLow_iff] at hb₅
    have hed : (0xed : UInt8).toNat = 0xed := rfl
    simp only [hc, List.mem_cons, List.not_mem_nil, or_false] at h
    rcases h with rfl | rfl | rfl | rfl | rfl | rfl
    · omega
    · omega
    · exact htrail hb₃
    · omega
    · omega
    · exact htrail hb₆

/-- The standard form of any other character starts with such an octet. -/
theorem exists_octet_of_not_plain {c : Char} (h : isPlainChar c = false) :
    ∃ b ∈ String.utf8EncodeChar c, b.toNat = 0 ∨ 0xf0 ≤ b.toNat := by
  have hval : c.val.toNat = c.toNat := rfl
  have hrange : c.toNat = 0 ∨ 0x10000 ≤ c.toNat := by
    by_contra hplain
    rw [isPlainChar_iff.2 (by omega)] at h
    cases h
  unfold String.utf8EncodeChar
  rcases hrange with hzero | hhigh
  · refine ⟨0, ?_, .inl rfl⟩
    rw [hval, hzero]
    exact List.mem_cons_self
  · have hlead := toNat_ofNat_octet (n := c.toNat / 262144 % 8 + 240) (by omega)
    refine ⟨UInt8.ofNat (c.toNat / 262144 % 8 + 240), ?_, .inr (by omega)⟩
    rw [hval, if_neg (by omega), if_neg (by omega), if_neg (by omega)]
    exact List.mem_cons_self

theorem encode_ne_utf8 {text name : String} (h : isPlain name = false) :
    encode text ≠ utf8 name := by
  intro heq
  obtain ⟨c, hc, hplain⟩ := List.all_eq_false.1 h
  obtain ⟨b, hb, hoctet⟩ := exists_octet_of_not_plain (Bool.eq_false_iff.2 hplain)
  have hmem : b ∈ encode text := heq ▸ List.mem_flatMap.2 ⟨c, hc, hb⟩
  obtain ⟨c', -, hb'⟩ := List.mem_flatMap.1 hmem
  have := octet_of_encodeChar hb'
  omega

/-- **A stored name is a name looked for**, octet by octet, exactly if the two are the same text and
    this is plain. -/
theorem encode_eq_utf8_iff {text name : String} :
    encode text = utf8 name ↔ isPlain name = true ∧ text = name := by
  cases hplain : isPlain name with
  | false => simp [encode_ne_utf8 hplain]
  | true =>
    rw [← encode_of_plain hplain]
    exact ⟨fun h => ⟨rfl, encode_injective h⟩, fun h => h.2 ▸ rfl⟩

end ModifiedUtf8

open ModifiedUtf8 (isPlain)

/-! ## The first method of a name -/

theorem Pool.octets_of_text {pool : Pool} {key : Nat} {text : String}
    (h : pool.text key = .ok text) : pool.octets key = .ok (ModifiedUtf8.encode text) := by
  obtain ⟨bs, hbs, hdecode⟩ := Except.bind_eq_ok_iff.1 h
  rw [hbs, (ModifiedUtf8.encode_of_decode (Except.mapError_eq_ok_iff.1 hdecode)).2]

theorem Member.find?_cons {pool : Pool} {m : Member} {ms : List Member} {text : String}
    (h : pool.octets m.name = .ok (ModifiedUtf8.encode text)) (name : String) :
    Member.find? pool (utf8 name) (m :: ms) =
      if isPlain name = true ∧ text = name then .ok (some m)
      else Member.find? pool (utf8 name) ms := by
  rw [Member.find?, h]
  simp only [bind, Except.bind, ModifiedUtf8.encode_eq_utf8_iff]
  rfl

theorem ClassFile.findMethod?_of_texts {c : ClassFile}
    (h : ∀ m ∈ c.methods, ∃ text, c.pool.text m.name = .ok text) (name : String) :
    c.findMethod? name = .ok (if isPlain name = true
      then c.methods.find? fun m => (c.pool.text m.name).toOption = some name else none) := by
  unfold findMethod?
  generalize c.methods = ms at h
  induction ms with
  | nil => simp [Member.find?]
  | cons m ms ih =>
    obtain ⟨⟨text, htext⟩, hms⟩ := List.forall_mem_cons.1 h
    rw [Member.find?_cons (Pool.octets_of_text htext), ih hms, List.find?_cons, htext]
    by_cases hplain : isPlain name = true
    · by_cases hname : text = name
      · simp [hplain, hname, Except.toOption]
      · simp [hplain, hname, Except.toOption]
    · simp [hplain]

/-! ## Methods of assembled classes -/

namespace Assembly

/-- The method that a request asks for: its name and its code, if it is to have any. -/
def Edit.method? : Edit → Option (String × Option Code)
  | .method _ name _ code => some (name, some code)
  | .bodiless _ name _ => some (name, none)
  | _ => none

/-- The methods that are asked for, in order. -/
def methodsOf (edits : List Edit) : List (String × Option Code) :=
  edits.filterMap Edit.method?

/-- A method of a class is as it was asked for: it has this name, and the attributes that go with
    this code. -/
inductive Answers (pool : Pool) : String × Option Code → Member → Prop
  | code {name : String} {code : Code} {m : Member} {key : Nat}
      (hname : pool.Holds m.name (.utf8 name)) (hkey : pool.Holds key (.utf8 "Code"))
      (hattrs : m.attributes = [⟨key, code.info⟩]) : Answers pool (name, some code) m
  | bodiless {name : String} {m : Member} (hname : pool.Holds m.name (.utf8 name))
      (hattrs : m.attributes = []) : Answers pool (name, none) m

namespace Answers

variable {pool pool' : Pool} {asked : String × Option Code} {m : Member}

theorem mono {Allowed : Pool → Constant → Prop} (h : Answers pool asked m)
    (hgrows : pool.Grows Allowed pool') : Answers pool' asked m := by
  cases h with
  | code hname hkey hattrs => exact .code (hname.mono hgrows) (hkey.mono hgrows) hattrs
  | bodiless hname hattrs => exact .bodiless (hname.mono hgrows) hattrs

theorem name (h : Answers pool asked m) : pool.Holds m.name (.utf8 asked.1) := by
  cases h with
  | code hname _ _ => exact hname
  | bodiless hname _ => exact hname

theorem code?_eq (h : Answers pool asked m) (hfits : ∀ code ∈ asked.2, code.Fits) :
    m.code? pool = .ok asked.2 := by
  cases h with
  | @code _ code _ _ _ hkey hattrs =>
    obtain ⟨hstack, hlocals, hoctets⟩ := hfits code rfl
    have hwrapped : code.wrapped = code := by
      unfold Code.wrapped
      rw [Nat.mod_eq_of_lt hstack, Nat.mod_eq_of_lt hlocals]
    rw [Member.code?_of_holds hkey hattrs hoctets, hwrapped]
  | bodiless _ hattrs =>
    rw [Member.code?, hattrs, Attribute.firstCode?]

end Answers

variable {cls cls' : ClassFile}

theorem Extends.methods (h : Extends cls cls') : cls'.methods = cls.methods := by
  rw [h.rest]

theorem Extends.thisClass (h : Extends cls cls') : cls'.thisClass = cls.thisClass := by
  rw [h.rest]

/-- A request adds the method that it asks for, and no other. -/
theorem Edit.Does.methods {e : Edit} (h : e.Does cls cls') :
    ∃ ms, cls'.methods = cls.methods ++ ms ∧
      List.Forall₂ (Answers cls'.pool) e.method?.toList ms := by
  have hnone : cls'.methods = cls.methods → e.method? = none → ∃ ms,
      cls'.methods = cls.methods ++ ms ∧
        List.Forall₂ (Answers cls'.pool) e.method?.toList ms := by
    intro hmethods hmethod
    rw [hmethods, hmethod]
    exact ⟨[], (List.append_nil _).symm, .nil⟩
  cases h with
  | push _ hrest => exact hnone (by rw [hrest]) rfl
  | symbol hs h =>
    refine hnone h.methods ?_
    cases e with
    | method _ _ _ _ | bodiless _ _ _ => cases hs
    | _ => rfl
  | field h _ _ => exact hnone h.methods rfl
  | ofClass h _ => exact hnone h.methods rfl
  | @method _ _ _ _ _ m _ h hm hkey hattrs =>
    exact ⟨[m], congrArg (· ++ [m]) h.methods, .cons (.code hm.name hkey hattrs) .nil⟩
  | @bodiless _ _ _ _ m h hm hattrs =>
    exact ⟨[m], congrArg (· ++ [m]) h.methods, .cons (.bodiless hm.name hattrs) .nil⟩

theorem Edit.Does.thisClass {e : Edit} (h : e.Does cls cls') :
    cls'.thisClass = cls.thisClass := by
  cases h with
  | push _ hrest => rw [hrest]
  | symbol _ h => exact h.thisClass
  | field h _ _ => exact h.thisClass
  | method h _ _ _ => exact h.thisClass
  | bodiless h _ _ => exact h.thisClass
  | ofClass h _ => exact h.thisClass

/-- By induction on the requests, the methods that they add are those they ask for. -/
theorem methods_mapM_apply (edits : List Edit) (d : Draft) :
    let cls' := ((edits.mapM Edit.apply) d).2.cls
    ∃ ms, cls'.methods = d.cls.methods ++ ms ∧
      List.Forall₂ (Answers cls'.pool) (methodsOf edits) ms := by
  induction edits generalizing d with
  | nil => exact ⟨[], (List.append_nil _).symm, .nil⟩
  | cons e edits ih =>
    rw [mapM_apply_cons]
    obtain ⟨ms, hms, hanswers⟩ := (e.does_apply d).methods
    obtain ⟨ms', hms', hanswers'⟩ := ih (e.apply d).2
    refine ⟨ms ++ ms', by rw [hms', hms, List.append_assoc], ?_⟩
    -- the methods added first are still as they were asked for
    have hkept := hanswers.imp fun _ _ h => h.mono (grows_mapM_apply edits (e.apply d).2)
    have hasked : methodsOf (e :: edits) = e.method?.toList ++ methodsOf edits := by
      unfold methodsOf
      cases h : e.method? with
      | none => rw [List.filterMap_cons_none h, Option.toList_none, List.nil_append]
      | some asked => rw [List.filterMap_cons_some h, Option.toList_some, List.singleton_append]
    rw [hasked]
    exact List.rel_append hkept hanswers'

/-- **The methods of an assembled class are those that were asked for**, in the same order. -/
theorem methods_build (name : String) (edits : List Edit) :
    let cls := (build name edits).2
    List.Forall₂ (Answers cls.pool) (methodsOf edits) cls.methods := by
  obtain ⟨ms, hms, hanswers⟩ := methods_mapM_apply edits (start name)
  obtain ⟨pool, this, super, hstart, -⟩ := start_spec name
  rw [hstart, List.nil_append] at hms
  have hmethods : (build name edits).2.methods = ms := hms
  rwa [← hmethods] at hanswers

theorem find?_of_answers {pool : Pool} {asked : List (String × Option Code)} {ms : List Member}
    (h : List.Forall₂ (Answers pool) asked ms) {name : String} (hplain : isPlain name = true) :
    (asked.lookup name = none → Member.find? pool (Bytecode.utf8 name) ms = .ok none) ∧
    ∀ body, asked.lookup name = some body →
      ∃ m, Member.find? pool (Bytecode.utf8 name) ms = .ok (some m) ∧
        Answers pool (name, body) m := by
  induction h with
  | nil => exact ⟨fun _ => rfl, by simp⟩
  | @cons request m asked ms hm _ ih =>
    obtain ⟨text, body⟩ := request
    rw [Member.find?_cons hm.name.octets_eq, List.lookup_cons]
    by_cases hname : text = name
    · subst hname
      refine ⟨by simp, fun body' hbody => ⟨m, by simp [hplain], ?_⟩⟩
      have hbody : body = body' := by simpa using hbody
      exact hbody ▸ hm
    · rw [if_neg (fun h => hname h.2), beq_false_of_ne (Ne.symm hname)]
      exact ih

theorem name_build {name : String} (hname : name ≠ "") (edits : List Edit) :
    (build name edits).2.name = .ok name := by
  -- no request changes the key of the name, and what the key leads to stays
  have hkeeps :
      (build name edits).2.pool.Holds (build name edits).2.thisClass (.classRef name) := by
    refine mapM_apply_keeps (P := fun cls => cls.pool.Holds cls.thisClass (.classRef name))
      (fun e _ d h => ?_) ?_
    · have hdoes := e.does_apply d
      rw [hdoes.thisClass]
      exact h.mono hdoes.grows
    · obtain ⟨pool, this, super, hstart, -, hthis, -⟩ := start_spec name
      rw [hstart]
      exact hthis
  exact hkeeps.className_eq hname

end Assembly

end Bytecode
