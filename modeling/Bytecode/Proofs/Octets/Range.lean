/-
  Reading within range.

  The operations that readers are made of are here once more, defined on their range only: a
  difference if it is not negative, a part of a list if it lies in the list.  Used anywhere else
  they have no outcome at all (`none`), and then the whole computation has none.

  A cursor should lie in its source or at its end.  As long as it does, reading stays within range
  and does what the readers do that are defined everywhere:

  * `Reader.InRange`: from a cursor that lies in its source, a reader and a ranged reader do the
    same, and leave such a cursor behind.  Readers that are put together from such ones are such
    ones (`InRange.bind`).
-/
import Bytecode.Proofs.Octets.Grammar

namespace Bytecode

/-! ## Operations on their range -/

namespace Ranged

/-- A difference that is not negative. -/
def sub (m n : Nat) : Option Nat :=
  if n ≤ m then some (m - n) else none

/-- The natural number that is an integer. -/
def toNat (i : Int) : Option Nat :=
  if 0 ≤ i then some i.toNat else none

/-- The items of a list from one position up to another one. -/
def slice {α : Type} (xs : List α) (first last : Nat) : Option (List α) :=
  if first ≤ last ∧ last ≤ xs.length then some ((xs.drop first).take (last - first)) else none

theorem sub_of_le {m n : Nat} (h : n ≤ m) : sub m n = some (m - n) :=
  if_pos h

theorem toNat_of_nonneg {i : Int} (h : 0 ≤ i) : toNat i = some i.toNat :=
  if_pos h

theorem slice_of_le {α : Type} {xs : List α} {first last : Nat} (h : first ≤ last)
    (h' : last ≤ xs.length) : slice xs first last = some ((xs.drop first).take (last - first)) :=
  if_pos ⟨h, h'⟩

end Ranged

/-! ## Cursors -/

namespace Cursor

/-- The cursor lies in its source, or at its end. -/
def InBounds (c : Cursor) : Prop :=
  c.offset ≤ c.source.length

/-- The second cursor is one that reading leads to from the first. -/
structure Reaches (c c' : Cursor) : Prop where
  source : c'.source = c.source
  offset : c.offset ≤ c'.offset
  inBounds : c'.InBounds

def remaining? (c : Cursor) : Option Nat :=
  Ranged.sub c.source.length c.offset

def isEmpty? (c : Cursor) : Option Bool := do
  let left ← c.remaining?
  return left = 0

def peek? (c : Cursor) (n : Nat) : Option (Except ReadError Octets) := do
  let left ← c.remaining?
  if left < n then
    let missing ← Ranged.sub n left
    return .error (.incomplete missing)
  else
    let found ← Ranged.slice c.source c.offset (c.offset + n)
    return .ok found

variable {c c' c'' : Cursor}

theorem InBounds.reaches (h : c.InBounds) : c.Reaches c :=
  ⟨rfl, Nat.le_refl _, h⟩

theorem Reaches.trans (h : c.Reaches c') (h' : c'.Reaches c'') : c.Reaches c'' :=
  ⟨h'.source.trans h.source, Nat.le_trans h.offset h'.offset, h'.inBounds⟩

theorem inBounds_ofOctets (source : Octets) : (ofOctets source).InBounds :=
  Nat.zero_le _

theorem inBounds_place {source : Octets} {offset : Nat} (h : offset ≤ source.length) :
    (place source offset).InBounds :=
  h

theorem InBounds.offset_add_remaining (h : c.InBounds) :
    c.offset + c.remaining = c.source.length := by
  rw [remaining_eq]
  exact Nat.add_sub_cancel' h

theorem InBounds.reaches_advance (h : c.InBounds) {n : Nat} (hn : n ≤ c.remaining) :
    c.Reaches (c.advance n) := by
  have hadd := h.offset_add_remaining
  refine ⟨rfl, Nat.le_add_right _ _, ?_⟩
  simp only [InBounds, source_advance, offset_advance]
  omega

theorem InBounds.remaining?_eq (h : c.InBounds) : c.remaining? = some c.remaining := by
  rw [remaining?, Ranged.sub_of_le h, remaining_eq]

theorem InBounds.isEmpty?_eq (h : c.InBounds) : c.isEmpty? = some c.isEmpty := by
  have hempty : decide (c.remaining = 0) = c.isEmpty := by
    rw [remaining, isEmpty]
    cases c.rest <;> rfl
  rw [isEmpty?, h.remaining?_eq, ← hempty]
  rfl

theorem InBounds.peek?_eq (h : c.InBounds) (n : Nat) : c.peek? n = some (c.peek n) := by
  have hadd := h.offset_add_remaining
  rw [peek?, h.remaining?_eq, peek_eq, Option.bind_eq_bind, Option.bind_some]
  by_cases hn : c.remaining < n
  · rw [if_pos hn, if_pos hn, Ranged.sub_of_le (Nat.le_of_lt hn)]
    rfl
  · have hslice : c.rest.take n = (c.source.drop c.offset).take (c.offset + n - c.offset) := by
      rw [c.rest_eq, Nat.add_sub_cancel_left]
    rw [if_neg hn, if_neg hn, Ranged.slice_of_le (Nat.le_add_right _ _) (by omega), hslice]
    rfl

theorem length_of_peek {n : Nat} {found : Octets} (h : c.peek n = .ok found) :
    found.length = n ∧ n ≤ c.remaining := by
  rw [peek_eq] at h
  split at h
  · cases h
  · rename_i hn
    cases h
    have hrest : c.rest.length = c.remaining := rfl
    rw [List.length_take]
    omega

end Cursor

/-! ## Readers -/

/-- A computation on a cursor that has an outcome if all its operations are within range. -/
def RangedReader (ε α : Type) : Type :=
  Cursor → Option (Except ε α × Cursor)

namespace RangedReader

variable {ε δ α β : Type}

instance : Monad (RangedReader ε) where
  pure a := fun c => some (.ok a, c)
  bind r k := fun c =>
    match r c with
    | some (.ok a, c') => k a c'
    | some (.error e, c') => some (.error e, c')
    | none => none

def run (r : RangedReader ε α) (c : Cursor) : Option (Except ε α × Cursor) :=
  r c

def parse (r : RangedReader ε α) (source : Octets) : Option (Except ε α) :=
  (r.run (.ofOctets source)).map (·.1)

def fail (e : ε) : RangedReader ε α :=
  fun c => some (.error e, c)

/-- An operation on its range, which has nothing to do with the cursor. -/
def within (x : Option α) : RangedReader ε α :=
  fun c => x.map fun a => (.ok a, c)

def withError (f : ε → δ) (r : RangedReader ε α) : RangedReader δ α :=
  fun c =>
    match r c with
    | some (.ok a, c') => some (.ok a, c')
    | some (.error e, c') => some (.error (f e), c')
    | none => none

def offset : RangedReader ε Nat :=
  fun c => some (.ok c.offset, c)

def isEmpty : RangedReader ε Bool :=
  fun c => c.isEmpty?.map fun b => (.ok b, c)

def take (n : Nat) : RangedReader ReadError Octets :=
  fun c => do
    match ← c.peek? n with
    | .ok found => some (.ok found, c.advance n)
    | .error e => some (.error e, c)

/-- A big-endian number on `w` octets, from the octets at the start of what was taken. -/
def number (w : Nat) : RangedReader ReadError Nat := do
  let found ← take w
  let digits ← within (Ranged.slice found 0 w)
  return BigEndian.decode digits

def many : Nat → RangedReader ε α → RangedReader ε (List α)
  | 0, _ => pure []
  | n + 1, r => do
    let a ← r
    let as ← many n r
    return a :: as

instance : Reading RangedReader where
  fail := fail
  withError := withError
  many := many
  offset := offset
  take := take
  number := number

abbrev u8 : RangedReader ReadError UInt8 := Reading.u8 RangedReader

theorem run_bind (r : RangedReader ε α) (k : α → RangedReader ε β) (c : Cursor) :
    (r >>= k).run c =
      match r.run c with
      | some (.ok a, c') => (k a).run c'
      | some (.error e, c') => some (.error e, c')
      | none => none := rfl

theorem run_bind_ok {r : RangedReader ε α} {c c' : Cursor} {a : α}
    (h : r.run c = some (.ok a, c')) (k : α → RangedReader ε β) :
    (r >>= k).run c = (k a).run c' := by
  rw [run_bind, h]

theorem run_bind_error {r : RangedReader ε α} {c c' : Cursor} {e : ε}
    (h : r.run c = some (.error e, c')) (k : α → RangedReader ε β) :
    (r >>= k).run c = some (.error e, c') := by
  rw [run_bind, h]

theorem run_withError (f : ε → δ) (r : RangedReader ε α) (c : Cursor) :
    (r.withError f).run c =
      match r.run c with
      | some (.ok a, c') => some (.ok a, c')
      | some (.error e, c') => some (.error (f e), c')
      | none => none := rfl

theorem run_within {x : Option α} {a : α} (h : x = some a) (c : Cursor) :
    (within x : RangedReader ε α).run c = some (.ok a, c) := by
  rw [h]
  rfl

end RangedReader

namespace Reader

variable {ε δ α β : Type}

/-- Within the bounds of the source, a reader does what the ranged one does, and stays within
    them. -/
def InRange (r : Reader ε α) (s : RangedReader ε α) : Prop :=
  ∀ c : Cursor, c.InBounds → s.run c = some (r.run c) ∧ c.Reaches (r.run c).2

theorem InRange.pure (a : α) : (Pure.pure a : Reader ε α).InRange (Pure.pure a) :=
  fun _ hc => ⟨rfl, hc.reaches⟩

theorem InRange.bind {r : Reader ε α} {s : RangedReader ε α} {k : α → Reader ε β}
    {l : α → RangedReader ε β} (hr : r.InRange s) (hk : ∀ a, (k a).InRange (l a)) :
    (r >>= k).InRange (s >>= l) := by
  intro c hc
  obtain ⟨hrun, hreaches⟩ := hr c hc
  rw [RangedReader.run_bind, hrun, run_bind]
  generalize r.run c = out at hreaches
  obtain ⟨e | a, c'⟩ := out
  · exact ⟨rfl, hreaches⟩
  · obtain ⟨hrun', hreaches'⟩ := hk a c' hreaches.inBounds
    exact ⟨hrun', hreaches.trans hreaches'⟩

theorem InRange.map {r : Reader ε α} {s : RangedReader ε α} (hr : r.InRange s) (f : α → β) :
    (f <$> r).InRange (f <$> s) :=
  hr.bind fun a => .pure (f a)

theorem InRange.withError {r : Reader ε α} {s : RangedReader ε α} (hr : r.InRange s)
    (f : ε → δ) : (r.withError f).InRange (s.withError f) := by
  intro c hc
  obtain ⟨hrun, hreaches⟩ := hr c hc
  rw [RangedReader.run_withError, hrun, run_withError]
  generalize r.run c = out at hreaches
  obtain ⟨e | a, c'⟩ := out
  · exact ⟨rfl, hreaches⟩
  · exact ⟨rfl, hreaches⟩

theorem InRange.parse {r : Reader ε α} {s : RangedReader ε α} (hr : r.InRange s)
    (source : Octets) : s.parse source = some (r.parse source) := by
  rw [RangedReader.parse, (hr _ (Cursor.inBounds_ofOctets source)).1]
  rfl

theorem inRange_fail (e : ε) : (fail e : Reader ε α).InRange (.fail e) :=
  fun _ hc => ⟨rfl, hc.reaches⟩

theorem inRange_offset : (offset : Reader ε Nat).InRange .offset :=
  fun _ hc => ⟨rfl, hc.reaches⟩

theorem inRange_take (n : Nat) : (take n).InRange (.take n) := by
  intro c hc
  have hrun : (RangedReader.take n).run c = (c.peek? n).bind fun
      | .ok found => some (.ok found, c.advance n)
      | .error e => some (.error e, c) := rfl
  have htake : (take n).run c = c.take n := rfl
  rw [hrun, htake, hc.peek?_eq, Cursor.take, Option.bind_some]
  cases hpeek : c.peek n with
  | error e => exact ⟨rfl, hc.reaches⟩
  | ok found => exact ⟨rfl, hc.reaches_advance (Cursor.length_of_peek hpeek).2⟩

theorem length_of_take {n : Nat} {c c' : Cursor} {found : Octets}
    (h : (take n).run c = (.ok found, c')) : found.length = n := by
  have htake : (take n).run c = c.take n := rfl
  rw [htake, Cursor.take] at h
  cases hpeek : c.peek n with
  | error e => rw [hpeek] at h; cases h
  | ok found' =>
    rw [hpeek] at h
    cases h
    exact (Cursor.length_of_peek hpeek).1

theorem inRange_number (w : Nat) : (number w).InRange (.number w) := by
  intro c hc
  obtain ⟨hrun, hreaches⟩ := inRange_take w c hc
  rw [number, run_map, RangedReader.number]
  cases htake : (take w).run c with
  | mk out c' =>
    rw [htake] at hrun hreaches
    cases out with
    | error e => exact ⟨RangedReader.run_bind_error hrun _, hreaches⟩
    | ok found =>
      have hlength := length_of_take htake
      have hslice : Ranged.slice found 0 w = some found := by
        rw [Ranged.slice_of_le (Nat.zero_le w) (by omega), List.drop_zero, Nat.sub_zero,
          List.take_of_length_le (by omega)]
      refine ⟨?_, hreaches⟩
      rw [RangedReader.run_bind_ok hrun,
        RangedReader.run_bind_ok (RangedReader.run_within hslice c')]
      rfl

theorem inRange_u8 : u8.InRange (Reading.u8 _) := (inRange_number 1).map _
theorem inRange_u16 : u16.InRange (Reading.u16 _) := (inRange_number 2).map _
theorem inRange_i8 : i8.InRange (Reading.i8 _) := inRange_u8.map _
theorem inRange_i16 : i16.InRange (Reading.i16 _) := inRange_u16.map _

end Reader

namespace RangedReader

variable {c : Cursor}

theorem run_u8_nil (h : c.InBounds) (hrest : c.rest = []) :
    u8.run c = some (.error (.incomplete 1), c) := by
  have htake : (Reader.take 1).run c = c.take 1 := rfl
  have hnone : c.take 1 = (.error (.incomplete 1), c) := by
    simp [Cursor.take, Cursor.peek, hrest]
  rw [(Reader.inRange_u8 c h).1, Reader.u8, Reader.u8_eq, Reader.run_map, Reader.number,
    Reader.run_map, htake, hnone]

theorem run_u8_cons {b : UInt8} {bs : Octets} (h : c.InBounds) (hrest : c.rest = b :: bs) :
    u8.run c = some (.ok b, c.advance 1) := by
  have htake : (Reader.take 1).run c = c.take 1 := rfl
  have hone : c.take 1 = (.ok [b], c.advance 1) := by
    simp [Cursor.take, Cursor.peek, hrest]
  rw [(Reader.inRange_u8 c h).1, Reader.u8, Reader.u8_eq, Reader.run_map, Reader.number,
    Reader.run_map, htake, hone]
  simp [BigEndian.decode]

end RangedReader

end Bytecode
