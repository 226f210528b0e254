/-
  Reading modified UTF-8 within range.

  The scanner is here once more, as a reader that moves a cursor and cuts parts out of its source.
  Every cut, every difference of offsets and every octet that it looks at has to be within range,
  and there is one that need not be: whatever the octets are, the first one is looked at in the end,
  to be blamed if some of them stand for no character.

  * `char?` finds what the scanner finds (`agrees_char`), and so does `chars?` (`run_chars?`);
  * `decode_avoids_empty`: only the empty string is refused for being empty.
-/
import Bytecode.Proofs.Octets.Range
import Bytecode.Proofs.Text.ModifiedUtf8

namespace Bytecode.ModifiedUtf8

open RangedReader (within fail offset isEmpty)

variable {α : Type}

/-! ## The scanner on a cursor -/

/-- Blames the octet before the cursor. -/
def refuse (b : UInt8) : RangedReader TextError α := do
  let next ← offset
  let o ← within (Ranged.sub next 1)
  fail (.invalid o b)

/-- The octet that has to come next. -/
def octet? (fits : UInt8 → Bool) : RangedReader TextError UInt8 := do
  let b ← RangedReader.u8.withError fun _ => .truncated
  if fits b then pure b else refuse b

/-- Whether an octet of some kind comes next. -/
def ahead? (fits : UInt8 → Bool) : RangedReader TextError Bool := fun c => do
  match ← c.peek? 1 with
  | .ok found =>
    let b ← found[0]?
    some (.ok (fits b), c)
  | .error _ => some (.ok false, c)

/-- Whether an octet can be the first one of a character. -/
def isLead (b : UInt8) : Bool :=
  b ≠ 0 && (b < 0x80 || 0xc0 ≤ b && b < 0xf0)

/-- Whether a surrogate pair starts with an octet and what comes next. -/
def startsPair? (b₁ : UInt8) : RangedReader TextError Bool :=
  if b₁ = 0xed then ahead? isHigh else pure false

/-- The rest of the character of a surrogate pair. -/
def pair? : RangedReader TextError (Option Char) := do
  let b₂ ← octet? isHigh
  let b₃ ← octet? isTrail
  let _ ← octet? (· = 0xed)
  let b₅ ← octet? isLow
  let b₆ ← octet? isTrail
  return some (charOfPair b₂ b₃ b₅ b₆)

def char? : RangedReader TextError (Option Char) := do
  let b₁ ← octet? isLead
  if b₁ < 0x80 then return some (Char.ofNat b₁.toNat)
  else if b₁ < 0xe0 then
    let b₂ ← octet? isTrail
    return charOfTwo b₁ b₂
  else
    if ← startsPair? b₁ then pair?
    else
      let b₂ ← octet? isTrail
      let b₃ ← octet? isTrail
      return charOfThree b₁ b₂ b₃

/-- The characters up to the end of `source`, after the ones in `done` (the last one first).  The
    octets before a character and its own are cut out of the source. -/
def chars? (source : Octets) :
    Nat → List (Option Char) → RangedReader TextError (List (Option Char))
  | 0, done => pure done.reverse
  | fuel + 1, done => do
    if ← isEmpty then return done.reverse
    else
      let first ← offset
      let c ← char?
      let last ← offset
      let _ ← within (Ranged.slice source 0 first)
      let _ ← within (Ranged.slice source first last)
      chars? source fuel (c :: done)

def decode? (bs : Octets) : Option (Except TextError String) := do
  match ← (chars? bs bs.length []).parse bs with
  | .error e => return .error e
  | .ok chars =>
    let first ← bs[0]?
    if chars.all Option.isSome then return .ok (String.ofList (chars.filterMap id))
    else return .error (.invalid 0 first)

/-! ## One character -/

/-- From an offset of the source a reader has found what the scanner finds there: the same item,
    with the cursor behind the first octet and the `n` further ones that belong to it, or the same
    error. -/
def Agrees (source : Octets) (o : Nat) (out : Option (Except TextError α × Cursor)) :
    Except TextError (α × Nat) → Prop
  | .ok (a, n) => o + n < source.length ∧ out = some (.ok a, .place source (o + 1 + n))
  | .error e => ∃ c, out = some (.error e, c)

variable {source : Octets} {o start : Nat} {fits : UInt8 → Bool} {b : UInt8} {bs : Octets}

theorem lt_length_of_drop (hrest : source.drop o = b :: bs) : o < source.length := by
  refine Nat.lt_of_not_le fun h => ?_
  rw [List.drop_of_length_le h] at hrest
  cases hrest

theorem drop_succ_of_drop (hrest : source.drop o = b :: bs) : source.drop (o + 1) = bs := by
  rw [← List.drop_drop, hrest, List.drop_one, List.tail_cons]

theorem run_octet?_nil (h : o ≤ source.length) (hrest : source.drop o = []) :
    (octet? fits).run (.place source o) = some (.error .truncated, .place source o) := by
  have hu8 : (RangedReader.u8.withError fun _ => TextError.truncated).run (.place source o) =
      some (.error .truncated, .place source o) := by
    rw [RangedReader.run_withError, RangedReader.run_u8_nil (Cursor.inBounds_place h) hrest]
  rw [octet?, RangedReader.run_bind_error hu8]

theorem run_octet?_cons (fits : UInt8 → Bool) (hrest : source.drop o = b :: bs) :
    (octet? fits).run (.place source o) =
      some (if fits b then .ok b else .error (.invalid o b), .place source (o + 1)) := by
  have hlt := lt_length_of_drop hrest
  have hu8 : (RangedReader.u8.withError fun _ => TextError.truncated).run (.place source o) =
      some (.ok b, .place source (o + 1)) := by
    have hbounds := Cursor.inBounds_place (Nat.le_of_lt hlt)
    rw [RangedReader.run_withError, RangedReader.run_u8_cons hbounds hrest, Cursor.advance_place]
  rw [octet?, RangedReader.run_bind_ok hu8]
  by_cases hfits : fits b
  · rw [if_pos hfits, if_pos hfits]
    rfl
  · rw [if_neg hfits, if_neg hfits]
    rfl

theorem agrees_octet_bind {next : UInt8 → RangedReader TextError α}
    {next' : UInt8 × Octets → Except TextError (α × Nat)} (h : o ≤ source.length)
    (hnext : ∀ b, o < source.length →
      Agrees source start ((next b).run (.place source (o + 1))) (next' (b, source.drop (o + 1)))) :
    Agrees source start ((octet? fits >>= next).run (.place source o))
      (octet fits o (source.drop o) >>= next') := by
  cases hrest : source.drop o with
  | nil =>
    rw [RangedReader.run_bind_error (run_octet?_nil h hrest)]
    exact ⟨_, rfl⟩
  | cons b bs =>
    have hrun := run_octet?_cons fits hrest
    by_cases hfits : fits b
    · rw [if_pos hfits] at hrun
      rw [RangedReader.run_bind_ok hrun, octet, if_pos hfits, ← drop_succ_of_drop hrest]
      exact hnext b (lt_length_of_drop hrest)
    · rw [if_neg hfits] at hrun
      rw [RangedReader.run_bind_error hrun, octet, if_neg hfits]
      exact ⟨_, rfl⟩

theorem run_ahead? (h : o ≤ source.length) :
    (ahead? fits).run (.place source o) =
      some (.ok ((source.drop o).head?.any fits), .place source o) := by
  have hrun : (ahead? fits).run (.place source o) = ((Cursor.place source o).peek? 1).bind fun
      | .ok found => found[0]?.bind fun b => some (.ok (fits b), .place source o)
      | .error _ => some (.ok false, .place source o) := rfl
  rw [hrun, (Cursor.inBounds_place h).peek?_eq, Option.bind_some, Cursor.peek, Cursor.rest_place]
  cases source.drop o with
  | nil => rfl
  | cons b bs => rfl

/-- Only 0xed makes the reader look ahead. -/
theorem run_startsPair? (h : o ≤ source.length) :
    (startsPair? b).run (.place source o) =
      some (.ok (b = 0xed && (source.drop o).head?.any isHigh), .place source o) := by
  unfold startsPair?
  by_cases hb : b = 0xed
  · rw [if_pos hb, run_ahead? h, decide_eq_true hb, Bool.true_and]
  · rw [if_neg hb, decide_eq_false hb, Bool.false_and]
    rfl

theorem isLead_iff : isLead b = true ↔
    ¬ (b.toNat = 0 ∨ 0x80 ≤ b.toNat ∧ b.toNat < 0xc0 ∨ 0xf0 ≤ b.toNat) := by
  simp only [isLead, Bool.and_eq_true, Bool.or_eq_true, decide_eq_true_eq, ne_eq, ← UInt8.toNat_inj,
    UInt8.lt_iff_toNat_lt, UInt8.le_iff_toNat_le, UInt8.reduceToNat]
  omega

theorem agrees_pure {a : α} {n : Nat} (h : o + n < source.length) (hend : start = o + 1 + n) :
    Agrees source o ((pure a : RangedReader TextError α).run (.place source start))
      (pure (a, n)) :=
  ⟨h, by rw [hend]; rfl⟩

/-- What the scanner finds at an octet, the reader finds there. -/
theorem agrees_char (hrest : source.drop o = b :: bs) :
    Agrees source o (char?.run (.place source o)) (char o b bs) := by
  have hlt := lt_length_of_drop hrest
  obtain rfl := drop_succ_of_drop hrest
  have hlead := run_octet?_cons isLead hrest
  by_cases hinv : b.toNat = 0 ∨ 0x80 ≤ b.toNat ∧ b.toNat < 0xc0 ∨ 0xf0 ≤ b.toNat
  · rw [if_neg (fun h => isLead_iff.1 h hinv)] at hlead
    rw [char_of_invalid hinv, char?, RangedReader.run_bind_error hlead]
    exact ⟨_, rfl⟩
  rw [if_pos (isLead_iff.2 hinv)] at hlead
  rw [char?, RangedReader.run_bind_ok hlead]
  by_cases h₁ : b.toNat < 0x80
  · rw [char_of_one (by omega) h₁, if_pos (UInt8.lt_iff_toNat_lt.2 h₁)]
    exact agrees_pure hlt rfl
  rw [if_neg (mt UInt8.lt_iff_toNat_lt.1 h₁)]
  by_cases h₂ : b.toNat < 0xe0
  · rw [char_of_two (by omega) h₂, if_pos (UInt8.lt_iff_toNat_lt.2 h₂)]
    exact agrees_octet_bind hlt fun b₂ hlt₂ => agrees_pure hlt₂ rfl
  rw [if_neg (mt UInt8.lt_iff_toNat_lt.1 h₂)]
  rw [RangedReader.run_bind_ok (run_startsPair? hlt)]
  by_cases hs : b = 0xed ∧ (source.drop (o + 1)).head?.any isHigh = true
  · rw [if_pos (by simpa using hs)]
    obtain ⟨rfl, hs⟩ := hs
    rw [char_of_pair hs]
    refine agrees_octet_bind hlt fun b₂ hlt₂ => ?_
    refine agrees_octet_bind hlt₂ fun b₃ hlt₃ => ?_
    refine agrees_octet_bind hlt₃ fun b₄ hlt₄ => ?_
    refine agrees_octet_bind hlt₄ fun b₅ hlt₅ => ?_
    exact agrees_octet_bind hlt₅ fun b₆ hlt₆ => agrees_pure hlt₆ rfl
  · rw [if_neg (by simpa using hs), char_of_three (by omega) (by omega) hs]
    refine agrees_octet_bind hlt fun b₂ hlt₂ => ?_
    exact agrees_octet_bind hlt₂ fun b₃ hlt₃ => agrees_pure hlt₃ rfl

/-! ## A text -/

theorem scan_drop {skip : Nat} (h : skip ≤ bs.length) (o : Nat) (done : List (Option Char)) :
    scan skip o bs done = scan 0 (o + skip) (bs.drop skip) done := by
  have hskip := scan_skip (bs.take skip) (bs.drop skip) o done
  rwa [List.take_append_drop, List.length_take_of_le h] at hskip

theorem run_isEmpty (h : o ≤ source.length) :
    (isEmpty : RangedReader TextError Bool).run (.place source o) =
      some (.ok (source.drop o).isEmpty, .place source o) := by
  have hrun : (isEmpty : RangedReader TextError Bool).run (.place source o) =
      (Cursor.place source o).isEmpty?.map fun b => (.ok b, .place source o) := rfl
  rw [hrun, (Cursor.inBounds_place h).isEmpty?_eq]
  rfl

/-- The scan of the source from an offset on; the fuel is enough for an octet a character. -/
theorem run_chars? (fuel : Nat) (done : List (Option Char)) (h : o ≤ source.length)
    (hfuel : source.length - o ≤ fuel) :
    ∃ c, (chars? source fuel done).run (.place source o) =
      some (scan 0 o (source.drop o) done, c) := by
  induction fuel generalizing o done with
  | zero =>
    rw [List.drop_of_length_le (by omega), scan]
    exact ⟨_, rfl⟩
  | succ fuel ih =>
    rw [chars?, RangedReader.run_bind_ok (run_isEmpty h)]
    cases hrest : source.drop o with
    | nil =>
      rw [scan]
      exact ⟨_, rfl⟩
    | cons b bs =>
      have hlt := lt_length_of_drop hrest
      have hfirst : (offset : RangedReader TextError Nat).run (.place source o) =
          some (.ok o, .place source o) := rfl
      rw [List.isEmpty_cons, if_neg Bool.false_ne_true, RangedReader.run_bind_ok hfirst, scan]
      have hchar := agrees_char hrest
      cases hscan : char o b bs with
      | error e =>
        rw [hscan] at hchar
        obtain ⟨c, hrun⟩ := hchar
        exact ⟨c, RangedReader.run_bind_error hrun _⟩
      | ok found =>
        obtain ⟨x, skip⟩ := found
        rw [hscan] at hchar
        obtain ⟨hend, hrun⟩ := hchar
        have hlast : (offset : RangedReader TextError Nat).run (.place source (o + 1 + skip)) =
            some (.ok (o + 1 + skip), .place source (o + 1 + skip)) := rfl
        have hbs := drop_succ_of_drop hrest
        have hskip : skip ≤ bs.length := by
          rw [← hbs, List.length_drop]
          omega
        rw [RangedReader.run_bind_ok hrun, RangedReader.run_bind_ok hlast,
          RangedReader.run_bind_ok (RangedReader.run_within
            (Ranged.slice_of_le (Nat.zero_le o) h) _),
          RangedReader.run_bind_ok (RangedReader.run_within
            (Ranged.slice_of_le (by omega) (by omega)) _)]
        dsimp only
        rw [scan_drop hskip, ← hbs, List.drop_drop]
        exact ih (x :: done) (by omega) (by omega)

theorem octet_avoids_empty (fits : UInt8 → Bool) (o : Nat) (bs : Octets) :
    (octet fits o bs).Avoids .empty := by
  cases bs with
  | nil => exact .error (by simp)
  | cons b bs =>
    rw [octet]
    split
    · exact .ok _
    · exact .error (by simp)

theorem char_avoids_empty (o : Nat) (b : UInt8) (bs : Octets) : (char o b bs).Avoids .empty := by
  unfold char
  split_ifs
  · exact .error (by simp)
  · exact .ok _
  · exact .error (by simp)
  · exact (octet_avoids_empty _ _ _).bind fun _ _ => .ok _
  · refine (octet_avoids_empty _ _ _).bind fun _ _ => (octet_avoids_empty _ _ _).bind fun _ _ => ?_
    refine (octet_avoids_empty _ _ _).bind fun _ _ => (octet_avoids_empty _ _ _).bind fun _ _ => ?_
    exact (octet_avoids_empty _ _ _).bind fun _ _ => .ok _
  · refine (octet_avoids_empty _ _ _).bind fun _ _ => ?_
    exact (octet_avoids_empty _ _ _).bind fun _ _ => .ok _
  · exact .error (by simp)

theorem scan_avoids_empty (skip o : Nat) (bs : Octets) (done : List (Option Char)) :
    (scan skip o bs done).Avoids .empty := by
  fun_induction scan skip o bs done with
  | case1 => exact .ok _
  | case2 skip o b bs done ih => exact ih
  | case3 o b bs done c skip hc ih => exact ih
  | case4 o b bs done e he =>
    exact .error fun hempty => char_avoids_empty o b bs (hempty ▸ he)

theorem decode_avoids_empty (h : bs ≠ []) : (decode bs).Avoids .empty := by
  obtain ⟨b, rest, rfl⟩ := List.exists_cons_of_ne_nil h
  have hscan := scan_avoids_empty 0 0 (b :: rest) []
  rw [decode]
  generalize scan 0 0 (b :: rest) [] = scanned at hscan
  cases scanned with
  | error e => exact .error fun he => hscan (congrArg Except.error he)
  | ok chars =>
    dsimp only
    split
    · exact .ok _
    · exact .error (by simp)

theorem decode?_nil : decode? [] = none := rfl

/-- **Text is read within range, unless there are no octets at all.** -/
theorem decode?_eq (h : bs ≠ []) : decode? bs = some (decode bs) := by
  obtain ⟨b, rest, rfl⟩ := List.exists_cons_of_ne_nil h
  obtain ⟨c, hrun⟩ := run_chars? (b :: rest).length [] (Nat.zero_le (b :: rest).length)
    (Nat.sub_le _ _)
  have hparse : (chars? (b :: rest) (b :: rest).length []).parse (b :: rest) =
      some (scan 0 0 (b :: rest) []) := by
    rw [RangedReader.parse, Cursor.ofOctets_eq, hrun, List.drop_zero, Option.map_some]
  rw [decode?, hparse, decode, Option.bind_eq_bind, Option.bind_some]
  cases scan 0 0 (b :: rest) [] with
  | error e => rfl
  | ok chars =>
    dsimp only
    rw [List.getElem?_cons_zero, Option.bind_eq_bind, Option.bind_some]
    split <;> rfl

end Bytecode.ModifiedUtf8
