/-
  Readers that are confined to their source.

  A reading that starts in its source ends there, whether it succeeds or fails part way, and if it
  says that octets are missing, then at least one is.

  * `Cursor.Ends`: how a reading may end.  Only one that may go `back` ends before where it started;
    `missing? e` is the number of octets that are missing according to the error `e`;
  * `Reader.Confined`: from a cursor that lies in its source, a reader does what a ranged reader
    does, and it ends as it may.  `Confined.bind`, `map`, `withError`, `many` and `attempt` follow
    the ways in which readers are put together.
-/
import Bytecode.Proofs.Octets.Range

namespace Bytecode

/-- How many octets are missing, if that is the reason. -/
def ReadError.missing? : ReadError → Option Nat
  | .incomplete missing => some missing
  | .mismatch _ => none

namespace Cursor

variable {ε α β : Type} {back : Prop} {missing? : ε → Option Nat} {c c' : Cursor}

/-- How a reading may end that starts at the cursor: in the source, not before the cursor unless it
    may go back, and never for want of zero octets. -/
structure Ends (c : Cursor) (back : Prop) (missing? : ε → Option Nat)
    (out : Except ε α × Cursor) : Prop where
  source : out.2.source = c.source
  inBounds : out.2.InBounds
  onward : ¬ back → c.offset ≤ out.2.offset
  asks : ∀ e k, out.1 = .error e → missing? e = some k → 1 ≤ k

theorem Reaches.ends {out : Except ε α × Cursor} (h : c.Reaches out.2)
    (hasks : ∀ e k, out.1 = .error e → missing? e = some k → 1 ≤ k) : c.Ends back missing? out :=
  ⟨h.source, h.inBounds, fun _ => h.offset, hasks⟩

theorem Reaches.ends_ok (h : c.Reaches c') (a : α) :
    c.Ends back missing? ((.ok a : Except ε α), c') :=
  h.ends fun _ _ he => nomatch he

theorem Reaches.ends_error (h : c.Reaches c') {e : ε}
    (hasks : ∀ k, missing? e = some k → 1 ≤ k) :
    c.Ends back missing? ((.error e : Except ε α), c') := by
  refine h.ends fun e' k he => ?_
  rw [← Except.error.inj he]
  exact hasks k

theorem Ends.stop {e : ε} (h : c.Ends back missing? ((.error e : Except ε α), c')) :
    c.Ends back missing? ((.error e : Except ε β), c') :=
  ⟨h.source, h.inBounds, h.onward, fun _ k he => h.asks _ k (congrArg _ (Except.error.inj he))⟩

theorem Ends.trans {a : α} {out : Except ε β × Cursor}
    (h : c.Ends back missing? ((.ok a : Except ε α), c')) (h' : c'.Ends back missing? out) :
    c.Ends back missing? out where
  source := h'.source.trans h.source
  inBounds := h'.inBounds
  onward hback := Nat.le_trans (h.onward hback) (h'.onward hback)
  asks := h'.asks

end Cursor

/-! ## Further readers -/

/-- What else a kind of readers can do at a cursor. -/
class Stepping (R : Type → Type → Type) where
  /-- The next `n` octets, without moving. -/
  peek (n : Nat) : R ReadError Octets
  expect (tag : Octets) : R ReadError Unit
  seek (offset : Nat) : R ReadError Unit
  remaining {ε : Type} : R ε Nat
  isEmpty {ε : Type} : R ε Bool
  /-- Runs a reader and goes on from where it stopped, also after a failure. -/
  attempt {ε δ α : Type} (r : R ε α) : R δ (Except ε α)

namespace Reader

variable {ε δ α : Type}

def peek (n : Nat) : Reader ReadError Octets := fun c => (c.peek n, c)
def expect (tag : Octets) : Reader ReadError Unit := fun c => c.expect tag
def seek (offset : Nat) : Reader ReadError Unit := fun c => c.seek offset
def remaining : Reader ε Nat := fun c => (.ok c.remaining, c)
def isEmpty : Reader ε Bool := fun c => (.ok c.isEmpty, c)
def attempt (r : Reader ε α) : Reader δ (Except ε α) := fun c => (.ok (r c).1, (r c).2)

instance : Stepping Reader :=
  ⟨peek, expect, seek, remaining, isEmpty, attempt⟩

end Reader

namespace RangedReader

variable {ε δ α : Type}

def peek (n : Nat) : RangedReader ReadError Octets := fun c => (c.peek? n).map fun out => (out, c)

/-- Moves past the octets `tag`, which are compared with those ahead. -/
def expect (tag : Octets) : RangedReader ReadError Unit := fun c => do
  match ← c.peek? tag.length with
  | .error e => some (.error e, c)
  | .ok found =>
    match Cursor.firstDifference found tag with
    | some i => some (.error (.mismatch (c.offset + i)), c)
    | none => some (.ok (), c.advance tag.length)

/-- Moves to an offset; offsets are only compared. -/
def seek (offset : Nat) : RangedReader ReadError Unit := fun c => some (c.seek offset)

def remaining : RangedReader ε Nat := fun c => c.remaining?.map fun left => (.ok left, c)

def attempt (r : RangedReader ε α) : RangedReader δ (Except ε α) :=
  fun c => (r c).map fun out => (.ok out.1, out.2)

instance : Stepping RangedReader :=
  ⟨peek, expect, seek, remaining, isEmpty, attempt⟩

end RangedReader

/-! ## Ways of putting readers together -/

namespace Reader

variable {ε δ α β : Type} {back : Prop} {missing? : ε → Option Nat}

/-- From a cursor that lies in its source, the reader does what the ranged one does, and ends as it
    may. -/
def Confined (back : Prop) (missing? : ε → Option Nat) (r : Reader ε α) (s : RangedReader ε α) :
    Prop :=
  ∀ c : Cursor, c.InBounds → s.run c = some (r.run c) ∧ c.Ends back missing? (r.run c)

theorem InRange.confined {r : Reader ε α} {s : RangedReader ε α} (h : r.InRange s)
    (hasks : ∀ c e k, (r.run c).1 = .error e → missing? e = some k → 1 ≤ k) :
    r.Confined back missing? s :=
  fun c hc => ⟨(h c hc).1, (h c hc).2.ends (hasks c)⟩

theorem Confined.inRange {r : Reader ε α} {s : RangedReader ε α}
    (h : r.Confined False missing? s) : r.InRange s :=
  fun c hc => ⟨(h c hc).1, (h c hc).2.source, (h c hc).2.onward not_false, (h c hc).2.inBounds⟩

theorem Confined.mono {r : Reader ε α} {s : RangedReader ε α} {back' : Prop}
    (h : r.Confined back missing? s) (hback : back → back') : r.Confined back' missing? s := by
  intro c hc
  obtain ⟨hrun, hends⟩ := h c hc
  exact ⟨hrun, hends.source, hends.inBounds, fun hb => hends.onward fun h => hb (hback h),
    hends.asks⟩

theorem Confined.pure (a : α) :
    (Pure.pure a : Reader ε α).Confined back missing? (Pure.pure a) :=
  fun _ hc => ⟨rfl, hc.reaches.ends_ok a⟩

theorem Confined.bind {r : Reader ε α} {s : RangedReader ε α} {k : α → Reader ε β}
    {l : α → RangedReader ε β} (hr : r.Confined back missing? s)
    (hk : ∀ a, (k a).Confined back missing? (l a)) :
    (r >>= k).Confined back missing? (s >>= l) := by
  intro c hc
  obtain ⟨hrun, hends⟩ := hr c hc
  rw [RangedReader.run_bind, hrun, run_bind]
  generalize r.run c = out at hends
  obtain ⟨e | a, c'⟩ := out
  · exact ⟨rfl, hends.stop⟩
  · obtain ⟨hrun', hends'⟩ := hk a c' hends.inBounds
    exact ⟨hrun', hends.trans hends'⟩

theorem Confined.map {r : Reader ε α} {s : RangedReader ε α} (hr : r.Confined back missing? s)
    (f : α → β) : (f <$> r).Confined back missing? (f <$> s) :=
  hr.bind fun a => .pure (f a)

theorem Confined.withError {missing?' : δ → Option Nat} {r : Reader ε α} {s : RangedReader ε α}
    (hr : r.Confined back missing? s) {f : ε → δ} (hf : ∀ e, missing?' (f e) = missing? e) :
    (r.withError f).Confined back missing?' (s.withError f) := by
  intro c hc
  obtain ⟨hrun, hends⟩ := hr c hc
  rw [RangedReader.run_withError, hrun, run_withError]
  generalize r.run c = out at hends
  obtain ⟨e | a, c'⟩ := out
  · refine ⟨rfl, hends.source, hends.inBounds, hends.onward, fun e' k he hk => ?_⟩
    rw [← Except.error.inj he, hf] at hk
    exact hends.asks e k rfl hk
  · exact ⟨rfl, hends.source, hends.inBounds, hends.onward, fun _ _ he => nomatch he⟩

theorem Confined.attempt {missing?' : δ → Option Nat} {r : Reader ε α} {s : RangedReader ε α}
    (hr : r.Confined back missing? s) :
    (r.attempt : Reader δ _).Confined back missing?' s.attempt := by
  intro c hc
  obtain ⟨hrun, hends⟩ := hr c hc
  have hattempt : (s.attempt : RangedReader δ _).run c =
      (s.run c).map fun out => (.ok out.1, out.2) :=
    rfl
  rw [hattempt, hrun]
  exact ⟨rfl, hends.source, hends.inBounds, hends.onward, fun _ _ he => nomatch he⟩

theorem Confined.many {r : Reader ε α} {s : RangedReader ε α} (hr : r.Confined back missing? s)
    (n : Nat) : (many n r).Confined back missing? (.many n s) := by
  induction n with
  | zero => exact .pure ([] : List α)
  | succ n ih =>
    rw [many_succ]
    exact hr.bind fun a => ih.bind fun as => .pure (a :: as)

theorem confined_fail {e : ε} (he : missing? e = none) :
    (fail e : Reader ε α).Confined back missing? (.fail e) := by
  refine fun c hc => ⟨rfl, hc.reaches.ends_error fun k hk => ?_⟩
  rw [he] at hk
  cases hk

end Reader

/-! ## Single steps -/

namespace Cursor

variable {c : Cursor}

theorem asks_of_peek {n k : Nat} {e : ReadError} (h : c.peek n = .error e)
    (hk : e.missing? = some k) : 1 ≤ k := by
  rw [peek_eq] at h
  by_cases hn : c.remaining < n
  · rw [if_pos hn] at h
    obtain rfl := Except.error.inj h
    obtain rfl : n - c.remaining = k := Option.some.inj hk
    omega
  · rw [if_neg hn] at h
    cases h

/-- What `expect` does: it fails as `peek` does or at the first difference, and then stays. -/
theorem expect_cases (c : Cursor) (tag : Octets) :
    (∃ e, c.peek tag.length = .error e ∧ c.expect tag = (.error e, c)) ∨
      (∃ offset, c.expect tag = (.error (.mismatch offset), c)) ∨
      tag.length ≤ c.remaining ∧ c.expect tag = (.ok (), c.advance tag.length) := by
  unfold expect
  cases hpeek : c.peek tag.length with
  | error e => exact .inl ⟨e, rfl, rfl⟩
  | ok found =>
    dsimp only
    cases firstDifference found tag with
    | some i => exact .inr (.inl ⟨_, rfl⟩)
    | none => exact .inr (.inr ⟨(length_of_peek hpeek).2, rfl⟩)

end Cursor

namespace Reader

variable {α β : Type} {back : Prop}

/-- The reader fails only where `n` octets cannot be peeked at, as peeking does, and then stays. -/
def Peeks (r : Reader ReadError α) (n : Nat) : Prop :=
  ∀ c e c', r.run c = (.error e, c') → c.peek n = .error e ∧ c' = c

theorem peeks_take (n : Nat) : (take n).Peeks n := by
  intro c e c' h
  have htake : (take n).run c = c.take n := rfl
  rw [htake, Cursor.take] at h
  cases hpeek : c.peek n with
  | ok found => rw [hpeek] at h; cases h
  | error e' => rw [hpeek] at h; cases h; exact ⟨rfl, rfl⟩

theorem Peeks.map {r : Reader ReadError α} {n : Nat} (h : r.Peeks n) (f : α → β) :
    (f <$> r).Peeks n := by
  intro c e c' hrun
  rw [run_map] at hrun
  cases hr : r.run c with
  | mk out c'' =>
    rw [hr] at hrun
    cases out with
    | ok a => cases hrun
    | error e' => cases hrun; exact h c e c' hr

theorem Peeks.confined {r : Reader ReadError α} {s : RangedReader ReadError α} {n : Nat}
    (h : r.Peeks n) (hrange : r.InRange s) : r.Confined back ReadError.missing? s := by
  refine hrange.confined fun c e k he => ?_
  have hrun : r.run c = (.error e, (r.run c).2) := by rw [← he]
  exact Cursor.asks_of_peek (h c e _ hrun).1

theorem peeks_number (w : Nat) : (number w).Peeks w := (peeks_take w).map _
theorem peeks_u8 : u8.Peeks 1 := (peeks_number 1).map _
theorem peeks_u16 : u16.Peeks 2 := (peeks_number 2).map _
theorem peeks_u32 : u32.Peeks 4 := (peeks_number 4).map _
theorem peeks_i8 : i8.Peeks 1 := peeks_u8.map _
theorem peeks_i16 : i16.Peeks 2 := peeks_u16.map _
theorem peeks_i32 : i32.Peeks 4 := peeks_u32.map _

theorem confined_take (n : Nat) : (take n).Confined back ReadError.missing? (.take n) :=
  (peeks_take n).confined (inRange_take n)

theorem confined_number (w : Nat) : (number w).Confined back ReadError.missing? (.number w) :=
  (peeks_number w).confined (inRange_number w)

theorem confined_index : index.Confined back ReadError.missing? (Reading.index _) :=
  confined_number 2

theorem confined_u8 : u8.Confined back ReadError.missing? (Reading.u8 _) :=
  (confined_number 1).map _

theorem confined_u16 : u16.Confined back ReadError.missing? (Reading.u16 _) :=
  (confined_number 2).map _

theorem confined_u32 : u32.Confined back ReadError.missing? (Reading.u32 _) :=
  (confined_number 4).map _

theorem confined_i8 : i8.Confined back ReadError.missing? (Reading.i8 _) :=
  confined_u8.map _

theorem confined_i16 : i16.Confined back ReadError.missing? (Reading.i16 _) :=
  confined_u16.map _

theorem confined_i32 : i32.Confined back ReadError.missing? (Reading.i32 _) :=
  confined_u32.map _

theorem confined_peek (n : Nat) : (peek n).Confined back ReadError.missing? (.peek n) := by
  intro c hc
  have hrun : (RangedReader.peek n).run c = (c.peek? n).map fun out => (out, c) := rfl
  rw [hrun, hc.peek?_eq]
  exact ⟨rfl, hc.reaches.ends fun e k he => Cursor.asks_of_peek he⟩

theorem confined_expect (tag : Octets) :
    (expect tag).Confined back ReadError.missing? (.expect tag) := by
  intro c hc
  have hranged : (RangedReader.expect tag).run c = some ((expect tag).run c) := by
    have hrun : (expect tag).run c = c.expect tag := rfl
    rw [hrun, RangedReader.run, RangedReader.expect, hc.peek?_eq, Cursor.expect,
      Option.bind_eq_bind, Option.bind_some]
    cases c.peek tag.length with
    | error e => rfl
    | ok found => dsimp only; cases Cursor.firstDifference found tag <;> rfl
  refine ⟨hranged, ?_⟩
  change c.Ends back ReadError.missing? (c.expect tag)
  obtain ⟨e, hpeek, h⟩ | ⟨offset, h⟩ | ⟨hlength, h⟩ := c.expect_cases tag
  · rw [h]
    exact hc.reaches.ends_error fun k => Cursor.asks_of_peek hpeek
  · rw [h]
    exact hc.reaches.ends_error fun k hk => nomatch hk
  · rw [h]
    exact (hc.reaches_advance hlength).ends_ok ()

/-- Seeking may go anywhere in the source, and nowhere else. -/
theorem confined_seek (offset : Nat) :
    (seek offset).Confined True ReadError.missing? (.seek offset) := by
  intro c hc
  refine ⟨rfl, ?_⟩
  change c.Ends True ReadError.missing? (c.seek offset)
  unfold Cursor.seek
  by_cases hlt : c.source.length < offset
  · rw [if_pos hlt]
    exact hc.reaches.ends_error fun k hk => nomatch hk
  · rw [if_neg hlt]
    exact ⟨rfl, Cursor.inBounds_place (Nat.le_of_not_lt hlt), fun h => absurd trivial h,
      fun _ _ he => nomatch he⟩

theorem confined_remaining :
    (remaining : Reader ReadError Nat).Confined back ReadError.missing? .remaining := by
  intro c hc
  have hrun : (RangedReader.remaining : RangedReader ReadError Nat).run c =
      c.remaining?.map fun left => (.ok left, c) := rfl
  rw [hrun, hc.remaining?_eq]
  exact ⟨rfl, hc.reaches.ends_ok _⟩

theorem confined_isEmpty :
    (isEmpty : Reader ReadError Bool).Confined back ReadError.missing? .isEmpty := by
  intro c hc
  have hrun : (RangedReader.isEmpty : RangedReader ReadError Bool).run c =
      c.isEmpty?.map fun b => (.ok b, c) := rfl
  rw [hrun, hc.isEmpty?_eq]
  exact ⟨rfl, hc.reaches.ends_ok _⟩

end Reader

/-- An operation that is not put together from others, with the type of what it gives. -/
inductive SingleStep : Type → Type where
  | u8 : SingleStep UInt8
  | u16 : SingleStep UInt16
  | u32 : SingleStep UInt32
  | i8 : SingleStep Int8
  | i16 : SingleStep Int16
  | i32 : SingleStep Int32
  | take (n : Nat) : SingleStep Octets
  | peek (n : Nat) : SingleStep Octets
  | expect (tag : Octets) : SingleStep Unit
  | seek (offset : Nat) : SingleStep Unit
  | remaining : SingleStep Nat
  | isEmpty : SingleStep Bool

namespace SingleStep

variable {α : Type}

def Seeks : SingleStep α → Prop
  | .seek _ => True
  | _ => False

/-- The step as a reader of any kind. -/
def reading (R : Type → Type → Type) [∀ ε, Monad (R ε)] [Reading R] [Stepping R] :
    SingleStep α → R ReadError α
  | .u8 => Reading.u8 R
  | .u16 => Reading.u16 R
  | .u32 => Reading.u32 R
  | .i8 => Reading.i8 R
  | .i16 => Reading.i16 R
  | .i32 => Reading.i32 R
  | .take n => Reading.take n
  | .peek n => Stepping.peek n
  | .expect tag => Stepping.expect tag
  | .seek offset => Stepping.seek offset
  | .remaining => Stepping.remaining
  | .isEmpty => Stepping.isEmpty

abbrev reader (step : SingleStep α) : Reader ReadError α := step.reading Reader
abbrev reader? (step : SingleStep α) : RangedReader ReadError α := step.reading RangedReader

theorem confined (step : SingleStep α) :
    step.reader.Confined step.Seeks ReadError.missing? step.reader? := by
  cases step with
  | u8 => exact Reader.confined_u8
  | u16 => exact Reader.confined_u16
  | u32 => exact Reader.confined_u32
  | i8 => exact Reader.confined_i8
  | i16 => exact Reader.confined_i16
  | i32 => exact Reader.confined_i32
  | take n => exact Reader.confined_take n
  | peek n => exact Reader.confined_peek n
  | expect tag => exact Reader.confined_expect tag
  | seek offset => exact Reader.confined_seek offset
  | remaining => exact Reader.confined_remaining
  | isEmpty => exact Reader.confined_isEmpty

theorem stays (step : SingleStep α) {c c' : Cursor} {e : ReadError}
    (h : step.reader.run c = (.error e, c')) : c' = c := by
  cases step with
  | u8 => exact (Reader.peeks_u8 c e c' h).2
  | u16 => exact (Reader.peeks_u16 c e c' h).2
  | u32 => exact (Reader.peeks_u32 c e c' h).2
  | i8 => exact (Reader.peeks_i8 c e c' h).2
  | i16 => exact (Reader.peeks_i16 c e c' h).2
  | i32 => exact (Reader.peeks_i32 c e c' h).2
  | take n => exact (Reader.peeks_take n c e c' h).2
  | peek n => exact (Prod.mk.inj h).2.symm
  | expect tag =>
    change c.expect tag = _ at h
    obtain ⟨_, -, hrun⟩ | ⟨_, hrun⟩ | ⟨-, hrun⟩ := c.expect_cases tag
    · rw [hrun] at h; exact (Prod.mk.inj h).2.symm
    · rw [hrun] at h; exact (Prod.mk.inj h).2.symm
    · rw [hrun] at h; cases h
  | seek offset =>
    change c.seek offset = _ at h
    unfold Cursor.seek at h
    split at h
    · exact (Prod.mk.inj h).2.symm
    · cases h
  | remaining => cases h
  | isEmpty => cases h

end SingleStep

end Bytecode
