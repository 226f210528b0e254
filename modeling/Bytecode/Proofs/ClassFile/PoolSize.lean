/-
  How large the pool of an assembly gets.

  * `Adds n P x`: the computation `x` adds at most `n` constants to the pool, all of which satisfy
    `P`; a request for a symbol adds at most `Symbol.size` of them;
  * `request_of_holds`: a request for a symbol that the pool has changes nothing.
-/
import Bytecode.Proofs.ClassFile.Linking

namespace Bytecode

/-- How many constants stand for a symbol. -/
def Symbol.size : Symbol → Nat
  | utf8 _ | integer _ => 1
  | classRef _ | string _ => 2
  | nameAndType _ _ => 3
  | member _ _ _ _ => 6

/-- A text is short enough to be written. -/
def Constant.Short : Constant → Prop
  | .utf8 bs => bs.length ≤ 65535
  | _ => True

namespace Assembly

variable {d : Draft} {α β : Type} {n k : Nat} {P : Constant → Prop}

/-! ## What computations add to a pool -/

/-- The computation adds at most `n` constants to the pool, and only such that satisfy `P`. -/
structure Adds (n : Nat) (P : Constant → Prop) (x : Assembly α) : Prop where
  length_le : ∀ d, (x d).2.cls.pool.constants.length ≤ d.cls.pool.constants.length + n
  forall_mem : ∀ d, (∀ c ∈ d.cls.pool.constants, P c) → ∀ c ∈ (x d).2.cls.pool.constants, P c

theorem adds_intern {c : Constant} (hc : P c) : Adds 1 P (intern c) where
  length_le d := by
    rcases intern_cases c d with ⟨key, -, heq⟩ | ⟨-, -, hcls⟩
    · simp [heq]
    · simp [hcls]
  forall_mem d h := by
    rcases intern_cases c d with ⟨key, -, heq⟩ | ⟨-, -, hcls⟩
    · rw [heq]
      exact h
    · rw [hcls]
      exact List.forall_mem_append.2 ⟨h, List.forall_mem_singleton.2 hc⟩

theorem Adds.bind {x : Assembly α} {f : α → Assembly β} (hx : Adds n P x)
    (hf : ∀ a, Adds k P (f a)) : Adds (n + k) P (x >>= f) where
  length_le d := by
    have hfirst := hx.length_le d
    have hthen := (hf (x d).1).length_le (x d).2
    show (f (x d).1 (x d).2).2.cls.pool.constants.length ≤ _
    omega
  forall_mem d h := (hf (x d).1).forall_mem _ (hx.forall_mem d h)

theorem adds_pure (a : α) : Adds 0 P (pure a : Assembly α) :=
  ⟨fun _ => Nat.le_refl _, fun _ h => h⟩

theorem adds_modify {g : Draft → Draft} (hg : ∀ d, (g d).cls.pool = d.cls.pool) :
    Adds 0 P (modify g : Assembly Unit) where
  length_le d := Nat.le_of_eq (by rw [← hg d]; rfl)
  forall_mem d h := by
    show ∀ c ∈ (g d).cls.pool.constants, P c
    rw [hg]
    exact h

theorem adds_utf8 {text : String} (h : (ModifiedUtf8.encode text).length ≤ 65535) :
    Adds 1 Constant.Short (utf8 text) :=
  adds_intern h

theorem adds_classRef {name : String} (h : (ModifiedUtf8.encode name).length ≤ 65535) :
    Adds 2 Constant.Short (classRef name) :=
  (adds_utf8 h).bind fun i => adds_intern (c := .classRef i) trivial

theorem adds_nameAndType {name descriptor : String}
    (hname : (ModifiedUtf8.encode name).length ≤ 65535)
    (hdesc : (ModifiedUtf8.encode descriptor).length ≤ 65535) :
    Adds 3 Constant.Short (nameAndType name descriptor) :=
  (adds_utf8 hname).bind fun i => (adds_utf8 hdesc).bind fun j =>
    adds_intern (c := .nameAndType i j) trivial

theorem adds_request (s : Symbol)
    (h : ∀ t ∈ s.texts, (ModifiedUtf8.encode t).length ≤ 65535) :
    Adds s.size Constant.Short s.request := by
  cases s with
  | utf8 text => exact adds_utf8 (h text (by simp [Symbol.texts]))
  | integer n => exact adds_intern trivial
  | classRef name => exact adds_classRef (h name (by simp [Symbol.texts]))
  | string text =>
    exact (adds_utf8 (h text (by simp [Symbol.texts]))).bind fun i =>
      adds_intern (c := .string i) trivial
  | nameAndType name descriptor =>
    exact adds_nameAndType (h name (by simp [Symbol.texts])) (h descriptor (by simp [Symbol.texts]))
  | member kind owner name descriptor =>
    have hnt := adds_nameAndType (h name (by simp [Symbol.texts]))
      (h descriptor (by simp [Symbol.texts]))
    exact (adds_classRef (h owner (by simp [Symbol.texts]))).bind (k := 4) fun i =>
      hnt.bind fun j => adds_intern (c := .member kind i j) trivial

theorem adds_addMethod (access : AccessFlags) {name descriptor : String} (code : Code)
    (hname : (ModifiedUtf8.encode name).length ≤ 65535)
    (hdesc : (ModifiedUtf8.encode descriptor).length ≤ 65535) :
    Adds 3 Constant.Short (addMethod access name descriptor code) := by
  refine (adds_utf8 (by decide)).bind fun _ => Adds.bind (n := 2) (k := 0) ?_ fun _ => ?_
  · exact (adds_utf8 hname).bind fun _ => (adds_utf8 hdesc).bind fun _ => adds_pure _
  · exact adds_modify fun _ => rfl

theorem adds_nameClass {name : String} (h : (ModifiedUtf8.encode name).length ≤ 65535) :
    Adds 4 Constant.Short (nameClass name) := by
  refine (adds_classRef h).bind fun _ => Adds.bind (n := 2) (k := 0) ?_ fun _ => ?_
  · exact adds_classRef (by decide)
  · exact adds_modify fun _ => rfl

/-! ## Requests that add nothing -/

theorem intern_of_get? {c : Constant} {key : Nat} (hnodup : d.cls.pool.constants.Nodup)
    (h : d.cls.pool.get? key = some c) : intern c d = (key, d) := by
  rcases intern_cases c d with ⟨key', hkey', heq⟩ | ⟨hnew, -⟩
  · rw [heq, Pool.get?_unique hnodup hkey' h]
  · cases key with
    | zero => cases h
    | succ i => exact absurd (List.mem_of_getElem? h) hnew

theorem request_of_holds {s : Symbol} {key : Nat} (hnodup : d.cls.pool.constants.Nodup)
    (h : d.cls.pool.Holds key s) : s.request d = (key, d) := by
  -- asking for the parts gives their keys and changes nothing, so the constant itself is found
  have hone : ∀ {x : Assembly Nat} {i key : Nat} {make : Nat → Constant}, x d = (i, d) →
      d.cls.pool.get? key = some (make i) → (do let i ← x; intern (make i)) d = (key, d) := by
    intro x i key make hx hkey
    show intern (make (x d).1) (x d).2 = _
    rw [hx]
    exact intern_of_get? hnodup hkey
  have htwo : ∀ {x y : Assembly Nat} {i j key : Nat} {make : Nat → Nat → Constant},
      x d = (i, d) → y d = (j, d) → d.cls.pool.get? key = some (make i j) →
      (do let i ← x; let j ← y; intern (make i j)) d = (key, d) := by
    intro x y i j key make hx hy hkey
    show intern (make (x d).1 (y (x d).2).1) (y (x d).2).2 = _
    rw [hx, hy]
    exact intern_of_get? hnodup hkey
  induction h with
  | utf8 h => exact intern_of_get? hnodup h
  | integer h => exact intern_of_get? hnodup h
  | classRef _ h ih => exact hone ih h
  | string _ h ih => exact hone ih h
  | nameAndType _ _ h ihname ihdesc => exact htwo ihname ihdesc h
  | member _ _ h ihowner ihnt => exact htwo ihowner ihnt h

/-- A request for a string adds nothing, or what it adds ends with the constant of the string: if
    its text is new, so is every string of this text. -/
theorem length_string (h : (⟨[]⟩ : Pool).Grows Pool.Links d.cls.pool) (text : String) :
    (string text d).2.cls.pool.constants.length = d.cls.pool.constants.length ∨
      (string text d).2.cls.pool.constants.length = (string text d).1 := by
  have heq : string text d = intern (.string (utf8 text d).1) (utf8 text d).2 := rfl
  have hgrows := h.trans (interns_utf8 text d).1.grows
  rw [heq]
  rcases intern_cases (.string (utf8 text d).1) (utf8 text d).2 with
    ⟨key, hkey, hold⟩ | ⟨-, hcount, hnew⟩
  · rw [hold]
    rcases intern_cases (.utf8 (ModifiedUtf8.encode text)) d with ⟨i, -, hutf8⟩ | ⟨-, hlast, hutf8⟩
    · have hutf8' : utf8 text d = (i, d) := hutf8
      rw [hutf8']
      exact .inl rfl
    · -- the text came last, but a string refers to an earlier constant
      have hlast' : (utf8 text d).1 = _ := hlast
      have hutf8' : (utf8 text d).2.cls = _ := hutf8
      have hlt := (hgrows.refers hkey).1.1
      have hle := Pool.lt_count_of_get? hkey
      rw [hlast'] at hlt
      rw [hutf8'] at hle
      simp only [Pool.count, List.length_append, List.length_singleton] at hlt hle
      omega
  · rw [hnew, hcount]
    exact .inr (by simp [Pool.count])

/-! ## Pools with a limit for strings -/

/-- How many constants stand for symbols that share none. -/
def sizes : List Symbol → Nat
  | [] => 0
  | s :: symbols => s.size + sizes symbols

theorem sizes_erase {s : Symbol} {symbols : List Symbol} (h : s ∈ symbols) :
    s.size + sizes (symbols.erase s) = sizes symbols := by
  induction symbols with
  | nil => cases h
  | cons s' symbols ih =>
    by_cases heq : s' = s
    · rw [heq, List.erase_cons_head]
      rfl
    · have hmem : s ∈ symbols := (List.mem_cons.1 h).resolve_left (Ne.symm heq)
      rw [List.erase_cons_tail (by simpa using heq), sizes, sizes, ← ih hmem]
      omega

/-- Some of the symbols are missing; without their constants the pool stays below the limit, but for
    those of the other symbols. -/
structure Room (limit : Nat) (symbols missing : List Symbol) (pool : Pool) : Prop where
  holds : ∀ s ∈ symbols, s ∉ missing → ∃ key, pool.Holds key s
  missing_le : sizes missing ≤ sizes symbols
  length_le : pool.constants.length + sizes missing ≤ limit + sizes symbols

variable {limit : Nat} {symbols missing : List Symbol} {requests : List Edit}

theorem Room.request (hroom : Room limit symbols missing d.cls.pool)
    (hnodup : d.cls.pool.constants.Nodup) {s : Symbol} (hs : s ∈ symbols)
    (hshort : ∀ t ∈ s.texts, (ModifiedUtf8.encode t).length ≤ 65535) :
    ∃ missing', Room limit symbols missing' (s.request d).2.cls.pool := by
  by_cases hmissing : s ∈ missing
  · obtain ⟨hext, hheld⟩ := interns_request s d
    have hlen := (adds_request s hshort).length_le d
    have hsizes := sizes_erase hmissing
    refine ⟨missing.erase s, fun s' hs' hnot => ?_, ?_, ?_⟩
    · by_cases heq : s' = s
      · rw [heq]
        exact ⟨_, hheld⟩
      · obtain ⟨key, hkey⟩ := hroom.holds s' hs' fun h => hnot ((List.mem_erase_of_ne heq).2 h)
        exact ⟨key, hkey.mono hext.grows⟩
    · have := hroom.missing_le
      omega
    · have := hroom.length_le
      omega
  · obtain ⟨key, hkey⟩ := hroom.holds s hs hmissing
    rw [request_of_holds hnodup hkey]
    exact ⟨missing, hroom⟩

theorem Room.string (hroom : Room limit symbols missing d.cls.pool)
    (hgrows : (⟨[]⟩ : Pool).Grows Pool.Links d.cls.pool) {text : String}
    (hkey : (Assembly.string text d).1 ≤ limit) :
    Room limit symbols missing (Assembly.string text d).2.cls.pool where
  holds s hs hnot := by
    obtain ⟨key, hkey⟩ := hroom.holds s hs hnot
    exact ⟨key, hkey.mono (interns_request (.string text) d).1.grows⟩
  missing_le := hroom.missing_le
  length_le := by
    have hmissing := hroom.missing_le
    have hlen := hroom.length_le
    rcases length_string hgrows text with h | h
    · omega
    · omega

theorem Room.mapM_apply (hroom : Room limit symbols missing d.cls.pool)
    (hgrows : (⟨[]⟩ : Pool).Grows Pool.Links d.cls.pool)
    (hrequests : ∀ e ∈ requests, (∃ s ∈ symbols, e.symbol? = some s) ∨ ∃ t, e = .string t)
    (hshort : ∀ s ∈ symbols, ∀ t ∈ s.texts, (ModifiedUtf8.encode t).length ≤ 65535)
    (hkeys : ∀ t key, (.string t, some key) ∈ requests.zip ((requests.mapM Edit.apply) d).1 →
      key ≤ limit) :
    ∃ missing', Room limit symbols missing' ((requests.mapM Edit.apply) d).2.cls.pool := by
  induction requests generalizing d missing with
  | nil => exact ⟨missing, hroom⟩
  | cons e requests ih =>
    obtain ⟨he, hrest⟩ := List.forall_mem_cons.1 hrequests
    rw [mapM_apply_cons] at hkeys ⊢
    -- it is enough that the first request leaves room
    suffices h : (∃ s, e.symbol? = some s) ∧
        ∃ missing', Room limit symbols missing' (e.apply d).2.cls.pool by
      obtain ⟨⟨s, hs⟩, missing', hroom'⟩ := h
      refine ih hroom' ?_ hrest fun t key hmem => hkeys t key (List.mem_cons_of_mem _ hmem)
      rw [e.apply_of_symbol? hs]
      exact hgrows.trans (interns_request s d).1.grows
    rcases he with ⟨s, hs, hsymbol⟩ | ⟨t, rfl⟩
    · rw [e.apply_of_symbol? hsymbol]
      exact ⟨⟨s, hsymbol⟩, hroom.request (hgrows.nodup List.nodup_nil) hs (hshort s hs)⟩
    · have happly := (Edit.string t).apply_of_symbol? (s := .string t) rfl d
      rw [happly] at hkeys ⊢
      exact ⟨⟨_, rfl⟩, missing, hroom.string hgrows (hkeys t _ List.mem_cons_self)⟩

/-- **Strings below a limit leave room.**  If all that is asked of an assembly are some symbols and
    strings, and the keys of the strings are not above the limit, then not more constants are in the
    pool than the limit and the symbols allow, whatever the order and the repetitions. -/
theorem length_build_le {name : String} (hname : (ModifiedUtf8.encode name).length ≤ 65535)
    (hrequests : ∀ e ∈ requests, (∃ s ∈ symbols, e.symbol? = some s) ∨ ∃ t, e = .string t)
    (hshort : ∀ s ∈ symbols, ∀ t ∈ s.texts, (ModifiedUtf8.encode t).length ≤ 65535)
    (hkeys : ∀ t key, (.string t, some key) ∈ requests.zip (build name requests).1 → key ≤ limit)
    (hlimit : 4 ≤ limit) :
    (build name requests).2.pool.constants.length ≤ limit + sizes symbols := by
  have hstart : (start name).cls.pool.constants.length ≤ 4 :=
    (adds_nameClass hname).length_le .empty
  have hroom : Room limit symbols symbols (start name).cls.pool :=
    ⟨fun s hs hnot => absurd hs hnot, Nat.le_refl _, by omega⟩
  obtain ⟨missing, hroom'⟩ := hroom.mapM_apply (assembled_start name).pool hrequests hshort hkeys
  have hlen : (build name requests).2.pool.constants.length + sizes missing ≤
    limit + sizes symbols := hroom'.length_le
  omega

theorem short_build {name : String} (hname : (ModifiedUtf8.encode name).length ≤ 65535)
    (hrequests : ∀ e ∈ requests, ∃ s, e.symbol? = some s ∧
      ∀ t ∈ s.texts, (ModifiedUtf8.encode t).length ≤ 65535) :
    ∀ c ∈ (build name requests).2.pool.constants, c.Short := by
  refine mapM_apply_keeps (P := fun cls => ∀ c ∈ cls.pool.constants, c.Short) ?_ ?_
  · intro e he d h
    obtain ⟨s, hs, hshort⟩ := hrequests e he
    rw [e.apply_of_symbol? hs]
    exact (adds_request s hshort).forall_mem d h
  · exact (adds_nameClass hname).forall_mem .empty nofun

end Assembly

end Bytecode
