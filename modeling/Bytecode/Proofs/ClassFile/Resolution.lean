/-
  Which symbols a pool resolves, and what is blamed where it does not.

  A pool may be damaged in any way: keys in it may lead nowhere, to constants of another kind, or
  round in a circle.  A symbol is resolved along a chain of keys, each of which has to lead to a
  constant of the kind that its place asks for.  Where the chain breaks, the key that is blamed is
  the one at which it breaks, and not the key from which the chain started.

  * `Pool.text_eq_ok_iff` to `Pool.memberRef_eq_ok_iff`: the chains that resolve.
-/
import Mathlib.Logic.Relation
import Bytecode.ClassFile.Pool
import Bytecode.Proofs.Outcome

namespace Bytecode

/-- The keys of the pool that a constant holds. -/
def Constant.keys : Constant → List Nat
  | .utf8 _ | .integer _ => []
  | .classRef i | .string i | .methodType i | .methodHandle _ i | .invokeDynamic _ i => [i]
  | .member _ i j | .nameAndType i j => [i, j]

namespace Pool

variable {pool : Pool} {i j : Nat}

/-! ## Chains that resolve -/

theorem get_eq_ok_iff {c : Constant} : pool.get i = .ok c ↔ pool.get? i = some c := by
  unfold get
  split
  · next c' h => rw [h, Except.ok.injEq, Option.some.injEq]
  · next h => simp [h]

/-- The key leads to octets that spell the text. -/
def HasText (pool : Pool) (i : Nat) (text : String) : Prop :=
  ∃ bs, pool.get? i = some (.utf8 bs) ∧ ModifiedUtf8.decode bs = .ok text

theorem octets_eq_ok_iff {bs : Octets} :
    pool.octets i = .ok bs ↔ pool.get? i = some (.utf8 bs) := by
  simp only [octets, Except.bind_eq_ok_iff, get_eq_ok_iff]
  constructor
  · rintro ⟨c, hc, h⟩
    cases c with
    | utf8 bs' => rw [hc, Except.ok.inj h]
    | _ => cases h
  · intro h
    exact ⟨_, h, rfl⟩

theorem text_eq_ok_iff {text : String} : pool.text i = .ok text ↔ pool.HasText i text := by
  simp only [Pool.text, HasText, Except.bind_eq_ok_iff, octets_eq_ok_iff, Except.mapError_eq_ok_iff]

theorem className_eq_ok_iff {name : String} :
    pool.className i = .ok name ↔ ∃ x, pool.get? i = some (.classRef x) ∧ pool.HasText x name := by
  simp only [className, Except.bind_eq_ok_iff, get_eq_ok_iff, ← text_eq_ok_iff]
  constructor
  · rintro ⟨c, hc, h⟩
    cases c with
    | classRef x => exact ⟨x, hc, h⟩
    | _ => cases h
  · rintro ⟨x, hx, h⟩
    exact ⟨_, hx, h⟩

theorem nameAndType_eq_ok_iff {name descriptor : String} :
    pool.nameAndType i = .ok (name, descriptor) ↔
      ∃ n d, pool.get? i = some (.nameAndType n d) ∧ pool.HasText n name ∧
        pool.HasText d descriptor := by
  simp only [nameAndType, Except.bind_eq_ok_iff, get_eq_ok_iff, ← text_eq_ok_iff]
  constructor
  · rintro ⟨c, hc, h⟩
    cases c with
    | nameAndType n d =>
      simp only [Except.bind_eq_ok_iff, Except.pure_eq_ok_iff, Prod.mk.injEq] at h
      obtain ⟨_, hn, _, hd, rfl, rfl⟩ := h
      exact ⟨n, d, hc, hn, hd⟩
    | _ => cases h
  · rintro ⟨n, d, hc, hn, hd⟩
    refine ⟨_, hc, ?_⟩
    simp only [Except.bind_eq_ok_iff, Except.pure_eq_ok_iff]
    exact ⟨name, hn, descriptor, hd, rfl⟩

theorem memberRef_eq_ok_iff {kind : MemberKind} {cls name descriptor : String} :
    pool.memberRef i (.member kind) = .ok ⟨cls, name, descriptor⟩ ↔
      ∃ c t, pool.get? i = some (.member kind c t) ∧ pool.className c = .ok cls ∧
        pool.nameAndType t = .ok (name, descriptor) := by
  simp only [memberRef, Except.bind_eq_ok_iff, get_eq_ok_iff]
  constructor
  · rintro ⟨c, hc, h⟩
    cases c with
    | member kind' c t =>
      dsimp only at h
      split at h
      · next hkind =>
        simp only [Except.bind_eq_ok_iff, Except.pure_eq_ok_iff, MemberRef.mk.injEq] at h
        obtain ⟨⟨_, _⟩, ht, _, hcls, rfl, rfl, rfl⟩ := h
        obtain rfl := ConstantKind.member.inj hkind
        exact ⟨c, t, hc, hcls, ht⟩
      · cases h
    | _ => cases h
  · rintro ⟨c, t, hi, hcls, ht⟩
    refine ⟨_, hi, ?_⟩
    simp only [if_true, Except.bind_eq_ok_iff, Except.pure_eq_ok_iff]
    exact ⟨_, ht, cls, hcls, rfl⟩

/-! ## Chains that break -/

/-- The constant under one key holds another key. -/
def PointsTo (pool : Pool) (i j : Nat) : Prop :=
  ∃ c, pool.get? i = some c ∧ j ∈ c.keys

/-- What an error may blame if the chain started at key `i`: a key that can be reached from there
    and under which there is no constant, or one that is of another kind than expected. -/
def Blames (pool : Pool) (i : Nat) : FormatError → Prop
  | .invalidIndex j =>
    (j = 0 ∨ pool.count ≤ j) ∧ Relation.ReflTransGen pool.PointsTo i j
  | .unexpectedConstant j expected found =>
    (∃ c, pool.get? j = some c ∧ c.kind = found) ∧ found ≠ expected ∧
      Relation.ReflTransGen pool.PointsTo i j
  | _ => True

theorem get?_eq_none_iff : pool.get? i = none ↔ i = 0 ∨ pool.count ≤ i := by
  cases i with
  | zero => simp [get?]
  | succ i => simp [get?, count]

theorem Blames.follow {c : Constant} {e : FormatError} (h : pool.Blames j e)
    (hc : pool.get? i = some c) (hj : j ∈ c.keys) : pool.Blames i e := by
  have hstep : pool.PointsTo i j := ⟨c, hc, hj⟩
  cases e with
  | invalidIndex k => exact ⟨h.1, .head hstep h.2⟩
  | unexpectedConstant k expected found => exact ⟨h.1, h.2.1, .head hstep h.2.2⟩
  | _ => trivial

theorem blames_unexpected {c : Constant} {expected : ConstantKind} (hc : pool.get? i = some c)
    (hkind : c.kind ≠ expected) : pool.Blames i (.unexpectedConstant i expected c.kind) :=
  ⟨⟨c, hc, rfl⟩, hkind, .refl⟩

/-- If the resolution fails, its error blames a key that can be reached from `i`. -/
abbrev Blaming {α : Type} (pool : Pool) (i : Nat) (x : Except FormatError α) : Prop :=
  x.Ensures (pool.Blames i) fun _ => True

theorem Blaming.follow {α : Type} {x : Except FormatError α} {c : Constant}
    (h : pool.Blaming j x) (hc : pool.get? i = some c) (hj : j ∈ c.keys) : pool.Blaming i x :=
  h.imp (fun _ he => he.follow hc hj) fun _ _ => trivial

theorem get_ensures (pool : Pool) (i : Nat) :
    (pool.get i).Ensures (pool.Blames i) fun c => pool.get? i = some c := by
  unfold get
  split
  · next c h => exact h
  · next h => exact ⟨get?_eq_none_iff.1 h, .refl⟩

theorem octets_blaming (pool : Pool) (i : Nat) : pool.Blaming i (pool.octets i) := by
  refine (pool.get_ensures i).bind fun c hc => ?_
  cases c with
  | utf8 bs => trivial
  | _ => exact blames_unexpected hc (by simp [Constant.kind])

theorem integer_blaming (pool : Pool) (i : Nat) : pool.Blaming i (pool.integer i) := by
  refine (pool.get_ensures i).bind fun c hc => ?_
  cases c with
  | integer n => trivial
  | _ => exact blames_unexpected hc (by simp [Constant.kind])

/-- Malformed text is not blamed on a key. -/
theorem text_blaming (pool : Pool) (i : Nat) : pool.Blaming i (pool.text i) := by
  refine (pool.octets_blaming i).bind fun bs _ => .intro ?_ fun _ _ => trivial
  intro e he
  obtain ⟨cause, -, rfl⟩ := Except.mapError_eq_error_iff.1 he
  cases cause <;> trivial

theorem className_blaming (pool : Pool) (i : Nat) : pool.Blaming i (pool.className i) := by
  refine (pool.get_ensures i).bind fun c hc => ?_
  cases c with
  | classRef name => exact (pool.text_blaming name).follow hc (by simp [Constant.keys])
  | _ => exact blames_unexpected hc (by simp [Constant.kind])

theorem string_blaming (pool : Pool) (i : Nat) : pool.Blaming i (pool.string i) := by
  refine (pool.get_ensures i).bind fun c hc => ?_
  cases c with
  | string text => exact (pool.text_blaming text).follow hc (by simp [Constant.keys])
  | _ => exact blames_unexpected hc (by simp [Constant.kind])

theorem nameAndType_blaming (pool : Pool) (i : Nat) : pool.Blaming i (pool.nameAndType i) := by
  refine (pool.get_ensures i).bind fun c hc => ?_
  cases c with
  | nameAndType name descriptor =>
    refine ((pool.text_blaming name).follow hc (by simp [Constant.keys])).bind fun _ _ => ?_
    exact ((pool.text_blaming descriptor).follow hc (by simp [Constant.keys])).bind
      fun _ _ => trivial
  | _ => exact blames_unexpected hc (by simp [Constant.kind])

theorem memberRef_blaming (pool : Pool) (i : Nat) (kind : MemberKind) :
    pool.Blaming i (pool.memberRef i (.member kind)) := by
  refine (pool.get_ensures i).bind fun c hc => ?_
  cases c with
  | member kind' owner nt =>
    dsimp only
    split
    · refine ((pool.nameAndType_blaming nt).follow hc (by simp [Constant.keys])).bind fun _ _ => ?_
      exact ((pool.className_blaming owner).follow hc (by simp [Constant.keys])).bind
        fun _ _ => trivial
    · next hkind => exact blames_unexpected hc hkind
  | _ => exact blames_unexpected hc (by simp [Constant.kind])

/-! ## All resolutions -/

/-- The ways of resolving a key, and the errors they fail with. -/
inductive Fails (pool : Pool) (i : Nat) : FormatError → Prop
  | octets {e : FormatError} (h : pool.octets i = .error e) : Fails pool i e
  | text {e : FormatError} (h : pool.text i = .error e) : Fails pool i e
  | integer {e : FormatError} (h : pool.integer i = .error e) : Fails pool i e
  | className {e : FormatError} (h : pool.className i = .error e) : Fails pool i e
  | string {e : FormatError} (h : pool.string i = .error e) : Fails pool i e
  | nameAndType {e : FormatError} (h : pool.nameAndType i = .error e) : Fails pool i e
  | memberRef {e : FormatError} (kind : MemberKind)
      (h : pool.memberRef i (.member kind) = .error e) : Fails pool i e

theorem Fails.blames {e : FormatError} (h : pool.Fails i e) : pool.Blames i e := by
  cases h with
  | octets h => exact (pool.octets_blaming i).error h
  | text h => exact (pool.text_blaming i).error h
  | integer h => exact (pool.integer_blaming i).error h
  | className h => exact (pool.className_blaming i).error h
  | string h => exact (pool.string_blaming i).error h
  | nameAndType h => exact (pool.nameAndType_blaming i).error h
  | memberRef kind h => exact (pool.memberRef_blaming i kind).error h

/-- **A pool resolves the chains of the right kinds, and blames what breaks a chain.**  A member is
    resolved exactly if its key leads to a member of the expected kind, whose keys lead to a class
    and to a name and type, whose keys lead to octets that spell the three texts.  A key that is
    blamed for leading nowhere has no constant under it, one that is blamed for the kind of its
    constant has a constant of the kind named, which is not the expected one, and both are the key
    that was asked for or can be reached from it. -/
theorem resolves_or_blames (pool : Pool) (i : Nat) :
    (∀ (kind : MemberKind) (cls name descriptor : String),
      pool.memberRef i (.member kind) = .ok ⟨cls, name, descriptor⟩ ↔
        ∃ c t x n d, pool.get? i = some (.member kind c t) ∧ pool.get? c = some (.classRef x) ∧
          pool.get? t = some (.nameAndType n d) ∧ pool.HasText x cls ∧ pool.HasText n name ∧
          pool.HasText d descriptor) ∧
    (∀ j, pool.Fails i (.invalidIndex j) →
      (j = 0 ∨ pool.count ≤ j) ∧ Relation.ReflTransGen pool.PointsTo i j) ∧
    ∀ j expected found, pool.Fails i (.unexpectedConstant j expected found) →
      (∃ c, pool.get? j = some c ∧ c.kind = found) ∧ found ≠ expected ∧
        Relation.ReflTransGen pool.PointsTo i j := by
  refine ⟨fun kind cls name descriptor => ?_, fun j h => h.blames, fun j _ _ h => h.blames⟩
  rw [memberRef_eq_ok_iff]
  constructor
  · rintro ⟨c, t, hi, hc, ht⟩
    obtain ⟨x, hc, hx⟩ := className_eq_ok_iff.1 hc
    obtain ⟨n, d, ht, hn, hd⟩ := nameAndType_eq_ok_iff.1 ht
    exact ⟨c, t, x, n, d, hi, hc, ht, hx, hn, hd⟩
  · rintro ⟨c, t, x, n, d, hi, hc, ht, hx, hn, hd⟩
    exact ⟨c, t, hi, className_eq_ok_iff.2 ⟨x, hc, hx⟩, nameAndType_eq_ok_iff.2 ⟨n, d, ht, hn, hd⟩⟩

/-- A field whose class is its own name, and whose descriptor is a key that leads nowhere; the field
    behind it has a class for a descriptor. -/
def tangled : Pool :=
  ⟨[.member .field 2 3, .classRef 2, .nameAndType 4 9, .utf8 [0x78], .member .field 2 6,
    .nameAndType 4 2]⟩

/-- What is blamed lies two keys away from the fields. -/
theorem resolves_or_blames_tangled :
    tangled.memberRef 1 (.member .field) = .error (.invalidIndex 9) ∧
      Relation.ReflTransGen tangled.PointsTo 1 9 ∧
      tangled.memberRef 5 (.member .field) = .error (.unexpectedConstant 2 .utf8 .classRef) ∧
      Relation.ReflTransGen tangled.PointsTo 5 2 := by
  have hnowhere : tangled.memberRef 1 (.member .field) = .error (.invalidIndex 9) := rfl
  have hkind : tangled.memberRef 5 (.member .field) =
      .error (.unexpectedConstant 2 .utf8 .classRef) := rfl
  obtain ⟨-, hreach, -⟩ := resolves_or_blames tangled 1
  obtain ⟨-, -, hreach'⟩ := resolves_or_blames tangled 5
  exact ⟨hnowhere, (hreach 9 (.memberRef _ hnowhere)).2, hkind,
    (hreach' 2 _ _ (.memberRef _ hkind)).2.2⟩

end Pool

end Bytecode
