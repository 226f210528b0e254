/-
  A cursor: a string of octets and a position in it.

  Nothing is read past the end: `peek` and `take` either find all the octets they ask for or say
  how many are missing, and then the cursor stays where it is.  `expect` and `seek` likewise move
  only when they succeed.

  * `Cursor.rest` holds the octets from the position on; `rest_eq` ties it to the source, so a
    cursor is known by its source and its offset (`Cursor.ext_iff`);
  * `peek_eq` says when `peek` succeeds in terms of `remaining`.
-/
import Bytecode.Octets.BigEndian

namespace Bytecode

inductive ReadError where
  /-- The input ended; so many more octets were needed. -/
  | incomplete (missing : Nat)
  /-- The input has another octet at this offset, or does not reach it. -/
  | mismatch (offset : Nat)
  deriving DecidableEq, Repr

def ReadError.message : ReadError → String
  | .incomplete missing => s!"unexpected end of input ({missing} more bytes needed)"
  | .mismatch offset => s!"unexpected byte at offset {offset}"

/-- A position in a string of octets. -/
structure Cursor where
  source : Octets
  /-- How many of them lie before the cursor. -/
  offset : Nat
  rest : Octets
  rest_eq : rest = source.drop offset

namespace Cursor

def place (source : Octets) (offset : Nat) : Cursor :=
  ⟨source, offset, source.drop offset, rfl⟩

def ofOctets (source : Octets) : Cursor :=
  ⟨source, 0, source, rfl⟩

def remaining (c : Cursor) : Nat :=
  c.rest.length

def isEmpty (c : Cursor) : Bool :=
  c.rest.isEmpty

/-- The cursor `n` octets further on. -/
def advance (c : Cursor) (n : Nat) : Cursor :=
  ⟨c.source, c.offset + n, c.rest.drop n, by rw [c.rest_eq, List.drop_drop]⟩

def peek (c : Cursor) (n : Nat) : Except ReadError Octets :=
  let found := c.rest.take n
  if found.length < n then .error (.incomplete (n - found.length)) else .ok found

/-- The next `n` octets; the cursor moves past them. -/
def take (c : Cursor) (n : Nat) : Except ReadError Octets × Cursor :=
  match c.peek n with
  | .ok found => (.ok found, c.advance n)
  | .error e => (.error e, c)

/-- The first place at which two strings of octets differ. -/
def firstDifference : Octets → Octets → Option Nat
  | a :: as, b :: bs => if a = b then (firstDifference as bs).map (· + 1) else some 0
  | _, _ => none

/-- Moves past `tag` if the input goes on with it; otherwise fails where the two first differ. -/
def expect (c : Cursor) (tag : Octets) : Except ReadError Unit × Cursor :=
  match c.peek tag.length with
  | .error e => (.error e, c)
  | .ok found =>
    match firstDifference found tag with
    | some i => (.error (.mismatch (c.offset + i)), c)
    | none => (.ok (), c.advance tag.length)

/-- Moves to an offset of the source, its end included. -/
def seek (c : Cursor) (offset : Nat) : Except ReadError Unit × Cursor :=
  if c.source.length < offset then (.error (.mismatch offset), c)
  else (.ok (), place c.source offset)

/-! ## What a cursor is known by -/

theorem eq_place (c : Cursor) : c = place c.source c.offset := by
  obtain ⟨source, offset, rest, h⟩ := c
  subst h
  rfl

theorem ext_iff {c d : Cursor} : c = d ↔ c.source = d.source ∧ c.offset = d.offset := by
  constructor
  · rintro rfl; exact ⟨rfl, rfl⟩
  · rintro ⟨hs, ho⟩; rw [c.eq_place, d.eq_place, hs, ho]

@[simp] theorem source_place (s : Octets) (o : Nat) : (place s o).source = s := rfl
@[simp] theorem offset_place (s : Octets) (o : Nat) : (place s o).offset = o := rfl
@[simp] theorem rest_place (s : Octets) (o : Nat) : (place s o).rest = s.drop o := rfl

@[simp] theorem source_advance (c : Cursor) (n : Nat) : (c.advance n).source = c.source := rfl
@[simp] theorem offset_advance (c : Cursor) (n : Nat) : (c.advance n).offset = c.offset + n := rfl
@[simp] theorem rest_advance (c : Cursor) (n : Nat) : (c.advance n).rest = c.rest.drop n := rfl

@[simp] theorem advance_place (s : Octets) (o n : Nat) :
    (place s o).advance n = place s (o + n) := by
  simp [ext_iff]

theorem ofOctets_eq (s : Octets) : ofOctets s = place s 0 := by
  simp [ext_iff, ofOctets]

theorem remaining_eq (c : Cursor) : c.remaining = c.source.length - c.offset := by
  rw [remaining, c.rest_eq, List.length_drop]

/-- `peek` fails exactly when too little is left, and then names the shortfall. -/
theorem peek_eq (c : Cursor) (n : Nat) :
    c.peek n = if c.remaining < n then .error (.incomplete (n - c.remaining))
      else .ok (c.rest.take n) := by
  have hlen : (c.rest.take n).length = min n c.remaining := List.length_take
  rw [peek, hlen]
  by_cases h : c.remaining < n
  · rw [if_pos h, if_pos (by omega), Nat.min_eq_right (by omega)]
  · rw [if_neg h, if_neg (by omega)]

end Cursor

end Bytecode
