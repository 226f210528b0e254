/-
  Sessions: one cursor, and operations on it one after the other.

  A session may do whatever can be done with a cursor, in any order: single steps, the parts of a
  class file, instructions, and what a caller puts together from these.  It goes on after a failure
  from wherever the failure left the cursor.

  * `Operation`: what a session does at a time, with the type of what it gives.  `Operation.reader`
    is what it does to the cursor, `Operation.reader?` the same within range, and both are
    `Operation.reading`.
-/
import Bytecode.Proofs.ClassFile.Range
import Bytecode.Proofs.Machine.Range

namespace Bytecode

open Reading (fail many withError)

/-! ## Failures -/

inductive Failure where
  | read (cause : ReadError)
  | format (cause : FormatError)
  | decode (cause : DecodeError)
  /-- The caller had a reason of its own. -/
  | refused
  deriving DecidableEq, Repr

/-- How many octets are missing, if that is the reason. -/
def Failure.missing? : Failure → Option Nat
  | .read cause => cause.missing?
  | .format cause => cause.missing?
  | .decode _ | .refused => none

/-! ## Parts -/

/-- What is read by a reader that is put together from single steps: the parts of a class file, and
    instructions. -/
inductive Part : Type → Type where
  | version : Part Version
  | constant : Part Constant
  | pool : Part Pool
  | field : Part Member
  | method : Part Member
  | singleAttribute : Part Attribute
  | attributeTable : Part (List Attribute)
  | code : Part Code
  | classFile : Part ClassFile
  | instruction : Part Decoded

namespace Part

variable {α : Type}

/-- The reader of a part, of any kind. -/
def reading (R : Type → Type → Type) [∀ ε, Monad (R ε)] [Reading R] : Part α → R Failure α
  | .version => withError .read (Version.reading R)
  | .constant => withError .format (Constant.reading R)
  | .pool => withError .format (Pool.reading R)
  | .field => withError .format (Member.reading R)
  | .method => withError .format (Member.reading R)
  | .singleAttribute => withError .format (Attribute.reading R)
  | .attributeTable => withError .format (Attribute.readingTable R)
  | .code => withError .format (Code.reading R)
  | .classFile => withError .format (ClassFile.reading R)
  | .instruction => withError .decode (Decoded.reading R)

abbrev reader (part : Part α) : Reader Failure α := part.reading Reader
abbrev reader? (part : Part α) : RangedReader Failure α := part.reading RangedReader

/-- Parts are read onward, within the source. -/
theorem confined (part : Part α) : part.reader.Confined False Failure.missing? part.reader? := by
  have hformat : ∀ e, Failure.missing? (.format e) = e.missing? := fun _ => rfl
  cases part with
  | version => exact Version.confined_read.withError fun _ => rfl
  | constant => exact Constant.confined_read.withError hformat
  | pool => exact Pool.confined_read.withError hformat
  | field => exact Member.confined_read.withError hformat
  | method => exact Member.confined_read.withError hformat
  | singleAttribute => exact Attribute.confined_read.withError hformat
  | attributeTable => exact Attribute.confined_readTable.withError hformat
  | code => exact Code.confined_read.withError hformat
  | classFile => exact ClassFile.confined_read.withError hformat
  | instruction =>
    -- No decoding error says how many octets are missing.
    have hread : Decoded.read.Confined False (fun _ => none) Decoded.read? :=
      Decoded.inRange_read.confined fun _ _ _ _ hk => nomatch hk
    exact hread.withError fun _ => rfl

end Part

/-! ## Operations -/

/-- What a session does at a time.  Besides the single steps and the parts, this is `seq`, which
    repeats an operation, and whatever a caller has it repeat: `give`, `refuse`, `attempt` and
    `andThen` are the ways to put operations together. -/
inductive Operation : Type → Type 1 where
  | step {α : Type} (s : SingleStep α) : Operation α
  | part {α : Type} (p : Part α) : Operation α
  /-- Do the same a number of times, up to the first failure. -/
  | seq {α : Type} (n : Nat) (item : Operation α) : Operation (List α)
  | give {α : Type} (a : α) : Operation α
  | refuse {α : Type} : Operation α
  /-- Go on after a failure, too. -/
  | attempt {α : Type} (op : Operation α) : Operation (Except Failure α)
  /-- Go on after a success, with what it gave. -/
  | andThen {α β : Type} (op : Operation α) (next : α → Operation β) : Operation β

namespace Operation

variable {α : Type}

/-- Whether the operation, or one within it, is to seek an offset. -/
def Seeks : {α : Type} → Operation α → Prop
  | _, .step s => s.Seeks
  | _, .part _ => False
  | _, .seq _ item => item.Seeks
  | _, .give _ => False
  | _, .refuse => False
  | _, .attempt op => op.Seeks
  | _, .andThen op next => op.Seeks ∨ ∃ a, (next a).Seeks

/-- The operation as a reader of any kind. -/
def reading (R : Type → Type → Type) [∀ ε, Monad (R ε)] [Reading R] [Stepping R] :
    {α : Type} → Operation α → R Failure α
  | _, .step s => withError .read (s.reading R)
  | _, .part p => p.reading R
  | _, .seq n item => many n (item.reading R)
  | _, .give a => pure a
  | _, .refuse => fail .refused
  | _, .attempt op => Stepping.attempt (op.reading R)
  | _, .andThen op next => do
    let a ← op.reading R
    (next a).reading R

abbrev reader (op : Operation α) : Reader Failure α := op.reading Reader
abbrev reader? (op : Operation α) : RangedReader Failure α := op.reading RangedReader

/-- Operations stay within the source, and those that do not seek do not go back. -/
theorem confined (op : Operation α) :
    op.reader.Confined op.Seeks Failure.missing? op.reader? := by
  induction op with
  | step s => exact s.confined.withError fun _ => rfl
  | part p => exact p.confined
  | seq n item ih => exact ih.many n
  | give a => exact .pure a
  | refuse => exact Reader.confined_fail rfl
  | attempt op ih => exact ih.attempt
  | andThen op next ih ihNext =>
    exact (ih.mono .inl).bind fun a => (ihNext a).mono fun h => .inr ⟨a, h⟩

end Operation

/-! ## Sessions -/

/-- Operations on one cursor, the first one first. -/
abbrev Session := List (Σ α : Type, Operation α)

namespace Session

/-- Where a session leaves the cursor; failures do not end it. -/
def run (session : Session) (c : Cursor) : Cursor :=
  session.foldl (fun c op => (op.2.reader.run c).2) c

/-- A session stays within its source. -/
theorem inBounds_run (session : Session) {c : Cursor} (hc : c.InBounds) :
    (session.run c).source = c.source ∧ (session.run c).InBounds := by
  induction session generalizing c with
  | nil => exact ⟨rfl, hc⟩
  | cons op session ih =>
    obtain ⟨-, hends⟩ := op.2.confined c hc
    obtain ⟨hsource, hin⟩ := ih hends.inBounds
    exact ⟨hsource.trans hends.source, hin⟩

/-- **The cursor is always in bounds.**  Whatever was `done` on a string of octets, and whatever of
    it failed, the cursor lies in the string or at its end, so that the number of octets left, which
    is a difference, is not negative.  From there on
    * a single step that fails does not move;
    * no operation takes a difference or cuts out octets out of range, and none leaves the source;
    * an operation that does not seek ends at or behind the cursor, also if it fails part way;
    * if an operation says that octets are missing, then at least one is. -/
theorem stays_in_bounds (source : Octets) (done : Session) :
    let c := done.run (.ofOctets source)
    (c.source = source ∧ c.offset ≤ source.length ∧
      c.remaining? = some (source.length - c.offset)) ∧
    (∀ {α : Type} (step : SingleStep α) (e : ReadError) (c' : Cursor),
      step.reader.run c = (.error e, c') → c' = c) ∧
    ∀ {α : Type} (op : Operation α) (out : Except Failure α) (c' : Cursor),
      op.reader.run c = (out, c') →
        op.reader?.run c = some (out, c') ∧
        (c'.source = source ∧ c'.offset ≤ source.length) ∧
        (¬ op.Seeks → c.offset ≤ c'.offset) ∧
        ∀ (e : Failure) (k : Nat), out = .error e → e.missing? = some k → 1 ≤ k := by
  intro c
  obtain ⟨hsource, hc⟩ : c.source = source ∧ c.InBounds :=
    done.inBounds_run (Cursor.inBounds_ofOctets source)
  have hleft : c.remaining? = some (source.length - c.offset) := by
    rw [hc.remaining?_eq, Cursor.remaining_eq, hsource]
  refine ⟨⟨hsource, hsource ▸ hc, hleft⟩, fun step e c' h => step.stays h, ?_⟩
  intro α op out c' h
  obtain ⟨hrun, hends⟩ := op.confined c hc
  rw [h] at hrun hends
  have hsource' : c'.source = source := hends.source.trans hsource
  exact ⟨hrun, ⟨hsource', hsource' ▸ hends.inBounds⟩, hends.onward, hends.asks⟩

/-- A pool that is cut off within its second constant.  The pool is read as far as it goes, seeking
    an offset behind the end fails, the first constant is read once more after going back to it, and
    then both constants are asked for where only the second one is left. -/
theorem stays_in_bounds_cutPool :
    let source : Octets := [0, 3, 1, 0, 1, 0x41, 1, 0, 9, 0x42]
    let done : Session := [⟨_, .part .pool⟩, ⟨_, .step (.seek 99)⟩, ⟨_, .step (.seek 2)⟩,
      ⟨_, .part .constant⟩]
    let constants : Operation (List Constant) := .seq 2 (.part .constant)
    let e : Failure := .format (.malformed (.incomplete 8))
    done.run (.ofOctets source) = .place source 6 ∧
      constants.reader.run (.place source 6) = (.error e, .place source 9) ∧
      constants.reader?.run (.place source 6) = some (.error e, .place source 9) ∧
      ¬ constants.Seeks ∧ (Cursor.place source 6).offset ≤ (Cursor.place source 9).offset ∧
      e.missing? = some 8 ∧ 1 ≤ 8 := by
  intro source done constants e
  have hdone : done.run (.ofOctets source) = .place source 6 :=
    Cursor.ext_iff.2 ⟨by decide +kernel, by decide +kernel⟩
  have hrun : constants.reader.run (.place source 6) = (.error e, .place source 9) := by cbv
  have hseeks : ¬ constants.Seeks := not_false
  obtain ⟨-, -, hnext⟩ := stays_in_bounds source done
  rw [hdone] at hnext
  obtain ⟨hranged, -, honward, hasks⟩ := hnext constants _ _ hrun
  exact ⟨hdone, hrun, hranged, hseeks, honward hseeks, rfl, hasks e 8 rfl rfl⟩

end Session

end Bytecode
