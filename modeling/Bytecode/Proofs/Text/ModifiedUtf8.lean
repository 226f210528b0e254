/-
  Reading modified UTF-8 is the inverse of writing it.

  * `encodeChar_of_one`, `_two`, `_three` and `_pair` give the four forms of a written character;
    U+0000 has the form of two octets;
  * `scan_encode` and `eq_encode_of_scan` carry this over to texts, along the scan.
-/
import Mathlib.Tactic.SplitIfs
import Bytecode.Proofs.Outcome
import Bytecode.Text.ModifiedUtf8

namespace Bytecode.ModifiedUtf8

/-! ## The octets of one character -/

theorem toNat_valid (c : Char) : c.toNat < 0xd800 ∨ 0xe000 ≤ c.toNat ∧ c.toNat < 0x110000 := by
  rcases c.valid with h | ⟨h, h'⟩
  · exact Or.inl h
  · exact Or.inr ⟨h, h'⟩

theorem toNat_ofNat_of_valid {n : Nat} (h : n < 0xd800 ∨ 0xe000 ≤ n ∧ n < 0x110000) :
    (Char.ofNat n).toNat = n := by
  have hvalid : n.isValidChar := h
  rw [Char.ofNat, dif_pos hvalid]
  rfl

theorem ofNat_eq_octet {n : Nat} {b : UInt8} (h : n = b.toNat) : UInt8.ofNat n = b := by
  rw [h, UInt8.ofNat_toNat]

theorem encodeChar_of_one {c : Char} (h : 0 < c.toNat) (h' : c.toNat < 0x80) :
    encodeChar c = [UInt8.ofNat c.toNat] := by
  have hval : c.val.toNat = c.toNat := rfl
  rw [encodeChar, if_neg (by omega), if_pos (by omega), String.utf8EncodeChar]
  rw [hval, if_pos (by omega)]

theorem encodeChar_of_two {c : Char} (h : c.toNat = 0 ∨ 0x80 ≤ c.toNat) (h' : c.toNat < 0x800) :
    encodeChar c = [UInt8.ofNat (0xc0 + c.toNat / 64), UInt8.ofNat (0x80 + c.toNat % 64)] := by
  have hval : c.val.toNat = c.toNat := rfl
  by_cases h₀ : c.toNat = 0
  · rw [encodeChar, if_pos h₀, h₀]
    rfl
  · rw [encodeChar, if_neg h₀, if_pos (by omega), String.utf8EncodeChar]
    rw [hval, if_neg (by omega), if_pos (by omega), Nat.add_comm (c.toNat % 64),
      show c.toNat / 64 % 32 + 0xc0 = 0xc0 + c.toNat / 64 by omega]

theorem encodeChar_of_three {c : Char} (h : 0x800 ≤ c.toNat) (h' : c.toNat < 0x10000) :
    encodeChar c = triple c.toNat := by
  have hval : c.val.toNat = c.toNat := rfl
  rw [encodeChar, if_neg (by omega), if_pos (by omega), String.utf8EncodeChar]
  rw [hval, if_neg (by omega), if_neg (by omega), if_pos (by omega), triple,
    Nat.add_comm (_ / 64 % 64), Nat.add_comm (_ % 64),
    show c.toNat / 4096 % 16 + 0xe0 = 0xe0 + c.toNat / 4096 by omega]

theorem encodeChar_of_pair {c : Char} (h : 0x10000 ≤ c.toNat) :
    encodeChar c = triple (0xd800 + (c.toNat - 0x10000) / 1024)
      ++ triple (0xdc00 + (c.toNat - 0x10000) % 1024) := by
  rw [encodeChar, if_neg (by omega), if_neg (by omega)]

/-! ## Characters from octets -/

theorem isTrail_iff {b : UInt8} : isTrail b = true ↔ 0x80 ≤ b.toNat ∧ b.toNat < 0xc0 := by
  simp only [isTrail, decide_eq_true_eq]; omega

theorem isHigh_iff {b : UInt8} : isHigh b = true ↔ 0xa0 ≤ b.toNat ∧ b.toNat < 0xb0 := by
  simp only [isHigh, decide_eq_true_eq]; omega

theorem isLow_iff {b : UInt8} : isLow b = true ↔ 0xb0 ≤ b.toNat ∧ b.toNat < 0xc0 := by
  simp only [isLow, decide_eq_true_eq]; omega

theorem encodeChar_ofNat {b : UInt8} (h : 0 < b.toNat) (h' : b.toNat < 0x80) :
    encodeChar (Char.ofNat b.toNat) = [b] := by
  have hn : (Char.ofNat b.toNat).toNat = b.toNat := toNat_ofNat_of_valid (by omega)
  rw [encodeChar_of_one (by omega) (by omega), hn, UInt8.ofNat_toNat]

theorem encodeChar_charOfTwo {b₁ b₂ : UInt8} {c : Char} (h : 0xc0 ≤ b₁.toNat)
    (h' : b₁.toNat < 0xe0) (h₂ : isTrail b₂ = true) (hc : charOfTwo b₁ b₂ = some c) :
    encodeChar c = [b₁, b₂] := by
  rw [isTrail_iff] at h₂
  simp only [charOfTwo, Option.ite_none_right_eq_some, Option.some.injEq] at hc
  obtain ⟨hrange, rfl⟩ := hc
  have hn := toNat_ofNat_of_valid (n := b₁.toNat % 32 * 64 + b₂.toNat % 64) (by omega)
  rw [encodeChar_of_two (by omega) (by omega), hn, ofNat_eq_octet (b := b₁) (by omega),
    ofNat_eq_octet (b := b₂) (by omega)]

theorem encodeChar_charOfThree {b₁ b₂ b₃ : UInt8} {c : Char} (h : 0xe0 ≤ b₁.toNat)
    (h' : b₁.toNat < 0xf0) (h₂ : isTrail b₂ = true) (h₃ : isTrail b₃ = true)
    (hc : charOfThree b₁ b₂ b₃ = some c) : encodeChar c = [b₁, b₂, b₃] := by
  rw [isTrail_iff] at h₂ h₃
  simp only [charOfThree, Option.ite_none_right_eq_some, Option.some.injEq] at hc
  obtain ⟨hrange, rfl⟩ := hc
  have hn := toNat_ofNat_of_valid
    (n := b₁.toNat % 16 * 4096 + b₂.toNat % 64 * 64 + b₃.toNat % 64) (by omega)
  rw [encodeChar_of_three (by omega) (by omega), hn, triple, ofNat_eq_octet (b := b₁) (by omega),
    ofNat_eq_octet (b := b₂) (by omega), ofNat_eq_octet (b := b₃) (by omega)]

theorem encodeChar_charOfPair {b₂ b₃ b₅ b₆ : UInt8} (h₂ : isHigh b₂ = true)
    (h₃ : isTrail b₃ = true) (h₅ : isLow b₅ = true) (h₆ : isTrail b₆ = true) :
    encodeChar (charOfPair b₂ b₃ b₅ b₆) = [0xed, b₂, b₃, 0xed, b₅, b₆] := by
  rw [isTrail_iff] at h₃ h₆
  rw [isHigh_iff] at h₂
  rw [isLow_iff] at h₅
  have hn := toNat_ofNat_of_valid (n := 0x10000 + b₂.toNat % 16 * 65536 + b₃.toNat % 64 * 1024
    + b₅.toNat % 16 * 64 + b₆.toNat % 64) (by omega)
  have hed : (0xed : UInt8).toNat = 0xed := rfl
  rw [charOfPair, encodeChar_of_pair (by omega), hn, triple, triple,
    ofNat_eq_octet (b := 0xed) (by omega), ofNat_eq_octet (b := b₂) (by omega),
    ofNat_eq_octet (b := b₃) (by omega), ofNat_eq_octet (b := 0xed) (by omega),
    ofNat_eq_octet (b := b₅) (by omega), ofNat_eq_octet (b := b₆) (by omega)]
  rfl

/-! ## Octets of characters

What is written for a character has the shape that the scanner looks for, and the bits put together
give the character again. -/

theorem toNat_ofNat_octet {n : Nat} (h : n < 256) : (UInt8.ofNat n).toNat = n :=
  UInt8.toNat_ofNat_of_lt' h

theorem exists_two_octets {c : Char} (h : c.toNat = 0 ∨ 0x80 ≤ c.toNat) (h' : c.toNat < 0x800) :
    ∃ b₁ b₂ : UInt8, encodeChar c = [b₁, b₂] ∧ 0xc0 ≤ b₁.toNat ∧ b₁.toNat < 0xe0 ∧
      isTrail b₂ = true ∧ charOfTwo b₁ b₂ = some c := by
  have hb₁ := toNat_ofNat_octet (n := 0xc0 + c.toNat / 64) (by omega)
  have hb₂ := toNat_ofNat_octet (n := 0x80 + c.toNat % 64) (by omega)
  refine ⟨_, _, encodeChar_of_two h h', by omega, by omega, isTrail_iff.2 (by omega), ?_⟩
  have hn : (0xc0 + c.toNat / 64) % 32 * 64 + (0x80 + c.toNat % 64) % 64 = c.toNat := by omega
  rw [charOfTwo, hb₁, hb₂, hn, if_pos (by omega), Char.ofNat_toNat]

theorem exists_three_octets {c : Char} (h : 0x800 ≤ c.toNat) (h' : c.toNat < 0x10000) :
    ∃ b₁ b₂ b₃ : UInt8, encodeChar c = [b₁, b₂, b₃] ∧ 0xe0 ≤ b₁.toNat ∧ b₁.toNat < 0xf0 ∧
      ¬ (b₁ = 0xed ∧ isHigh b₂ = true) ∧ isTrail b₂ = true ∧ isTrail b₃ = true ∧
      charOfThree b₁ b₂ b₃ = some c := by
  have hb₁ := toNat_ofNat_octet (n := 0xe0 + c.toNat / 4096) (by omega)
  have hb₂ := toNat_ofNat_octet (n := 0x80 + c.toNat / 64 % 64) (by omega)
  have hb₃ := toNat_ofNat_octet (n := 0x80 + c.toNat % 64) (by omega)
  have hv := toNat_valid c
  refine ⟨_, _, _, encodeChar_of_three h h', by omega, by omega, ?_, isTrail_iff.2 (by omega),
    isTrail_iff.2 (by omega), ?_⟩
  · -- The octet 0xed and a second one from 0xa0 on spell a number from 0xd800 on.
    rintro ⟨hed, hhigh⟩
    have hed' : 0xe0 + c.toNat / 4096 = 0xed := by rw [← hb₁, hed]; rfl
    rw [isHigh_iff] at hhigh
    omega
  · have hn : (0xe0 + c.toNat / 4096) % 16 * 4096 + (0x80 + c.toNat / 64 % 64) % 64 * 64
        + (0x80 + c.toNat % 64) % 64 = c.toNat := by omega
    rw [charOfThree, hb₁, hb₂, hb₃, hn, if_pos (by omega), Char.ofNat_toNat]

theorem exists_pair_octets {c : Char} (h : 0x10000 ≤ c.toNat) :
    ∃ b₂ b₃ b₅ b₆ : UInt8, encodeChar c = [0xed, b₂, b₃, 0xed, b₅, b₆] ∧ isHigh b₂ = true ∧
      isTrail b₃ = true ∧ isLow b₅ = true ∧ isTrail b₆ = true ∧ charOfPair b₂ b₃ b₅ b₆ = c := by
  have hv := toNat_valid c
  have hc := encodeChar_of_pair h
  generalize hm : c.toNat - 0x10000 = m at hc
  have hb₂ := toNat_ofNat_octet (n := 0x80 + (0xd800 + m / 1024) / 64 % 64) (by omega)
  have hb₃ := toNat_ofNat_octet (n := 0x80 + (0xd800 + m / 1024) % 64) (by omega)
  have hb₅ := toNat_ofNat_octet (n := 0x80 + (0xdc00 + m % 1024) / 64 % 64) (by omega)
  have hb₆ := toNat_ofNat_octet (n := 0x80 + (0xdc00 + m % 1024) % 64) (by omega)
  have hhigh : 0xe0 + (0xd800 + m / 1024) / 4096 = 0xed := by omega
  have hlow : 0xe0 + (0xdc00 + m % 1024) / 4096 = 0xed := by omega
  rw [triple, triple, hhigh, hlow] at hc
  refine ⟨_, _, _, _, hc, isHigh_iff.2 (by omega), isTrail_iff.2 (by omega),
    isLow_iff.2 (by omega), isTrail_iff.2 (by omega), ?_⟩
  have hn : 0x10000 + (0x80 + (0xd800 + m / 1024) / 64 % 64) % 16 * 65536
      + (0x80 + (0xd800 + m / 1024) % 64) % 64 * 1024
      + (0x80 + (0xdc00 + m % 1024) / 64 % 64) % 16 * 64
      + (0x80 + (0xdc00 + m % 1024) % 64) % 64 = c.toNat := by omega
  rw [charOfPair, hb₂, hb₃, hb₅, hb₆, hn, Char.ofNat_toNat]

/-! ## The scanner at one character

The first octet decides how a character goes on. -/

section
variable {o k : Nat} {b : UInt8} {bs : Octets} {c : Char}

theorem char_of_one (h : 0 < b.toNat) (h' : b.toNat < 0x80) :
    char o b bs = .ok (some (Char.ofNat b.toNat), 0) := by
  have h₀ : b.toNat ≠ 0 := by omega
  simp [char, ← UInt8.toNat_inj, UInt8.lt_iff_toNat_lt, h₀, h']

theorem char_of_two (h : 0xc0 ≤ b.toNat) (h' : b.toNat < 0xe0) :
    char o b bs = (octet isTrail (o + 1) bs >>= fun p => pure (charOfTwo b p.1, 1)) := by
  have h₀ : b.toNat ≠ 0 ∧ ¬ b.toNat < 0x80 ∧ ¬ b.toNat < 0xc0 := by omega
  simp [char, ← UInt8.toNat_inj, UInt8.lt_iff_toNat_lt, h₀, h']

theorem char_of_three (h : 0xe0 ≤ b.toNat) (h' : b.toNat < 0xf0)
    (hs : ¬ (b = 0xed ∧ bs.head?.any isHigh = true)) :
    char o b bs = (octet isTrail (o + 1) bs >>= fun p => octet isTrail (o + 2) p.2 >>= fun q =>
      pure (charOfThree b p.1 q.1, 2)) := by
  have h₀ : b.toNat ≠ 0 ∧ ¬ b.toNat < 0x80 ∧ ¬ b.toNat < 0xc0 ∧ ¬ b.toNat < 0xe0 := by omega
  rw [char, if_neg (c := b = 0xed ∧ _) hs]
  simp [← UInt8.toNat_inj, UInt8.lt_iff_toNat_lt, h₀, h']

theorem char_of_pair (hs : bs.head?.any isHigh = true) :
    char o 0xed bs = (octet isHigh (o + 1) bs >>= fun p₂ => octet isTrail (o + 2) p₂.2 >>= fun p₃ =>
      octet (· = 0xed) (o + 3) p₃.2 >>= fun p₄ => octet isLow (o + 4) p₄.2 >>= fun p₅ =>
      octet isTrail (o + 5) p₅.2 >>= fun p₆ =>
      pure (some (charOfPair p₂.1 p₃.1 p₅.1 p₆.1), 5)) := by
  rw [char, if_neg (by decide), if_neg (by decide), if_neg (by decide), if_neg (by decide),
    if_pos (by decide), if_pos ⟨rfl, hs⟩]

theorem char_of_invalid
    (h : b.toNat = 0 ∨ 0x80 ≤ b.toNat ∧ b.toNat < 0xc0 ∨ 0xf0 ≤ b.toNat) :
    char o b bs = .error (.invalid o b) := by
  rcases h with h | ⟨h, h'⟩ | h
  · simp [char, ← UInt8.toNat_inj, h]
  · have h₀ : b.toNat ≠ 0 ∧ ¬ b.toNat < 0x80 := by omega
    simp [char, ← UInt8.toNat_inj, UInt8.lt_iff_toNat_lt, h₀, h']
  · have h₀ : b.toNat ≠ 0 ∧ ¬ b.toNat < 0x80 ∧ ¬ b.toNat < 0xc0 ∧ ¬ b.toNat < 0xe0 ∧
        ¬ b.toNat < 0xf0 := by omega
    simp [char, ← UInt8.toNat_inj, UInt8.lt_iff_toNat_lt, h₀]

theorem octet_eq_ok_iff {fits : UInt8 → Bool} {p : UInt8 × Octets} :
    octet fits o bs = .ok p ↔ bs = p.1 :: p.2 ∧ fits p.1 = true := by
  obtain ⟨b, bs'⟩ := p
  cases bs with
  | nil => simp [octet]
  | cons x xs =>
    by_cases h : fits x = true
    · rw [octet, if_pos h, Except.ok.injEq, Prod.mk.injEq, List.cons.injEq]
      constructor
      · rintro ⟨rfl, rfl⟩
        exact ⟨⟨rfl, rfl⟩, h⟩
      · rintro ⟨hx, -⟩
        exact hx
    · rw [octet, if_neg h]
      refine ⟨fun he => (nomatch he), ?_⟩
      rintro ⟨hx, hb⟩
      obtain ⟨rfl, -⟩ := List.cons.inj hx
      exact absurd hb h

theorem octet_bind_eq_ok_iff {α : Type} {fits : UInt8 → Bool}
    {next : UInt8 × Octets → Except TextError α} {a : α} :
    octet fits o bs >>= next = .ok a ↔
      ∃ u rest, bs = u :: rest ∧ fits u = true ∧ next (u, rest) = .ok a := by
  simp only [Except.bind_eq_ok_iff, octet_eq_ok_iff, Prod.exists, and_assoc]

/-- What the scanner takes for a character is what is written for it. -/
theorem eq_encodeChar_of_char (h : char o b bs = .ok (some c, k)) :
    ∃ us rest, bs = us ++ rest ∧ us.length = k ∧ encodeChar c = b :: us := by
  have hb := b.toNat_lt
  by_cases hinv : b.toNat = 0 ∨ 0x80 ≤ b.toNat ∧ b.toNat < 0xc0 ∨ 0xf0 ≤ b.toNat
  · rw [char_of_invalid hinv] at h
    cases h
  by_cases h₁ : b.toNat < 0x80
  · rw [char_of_one (by omega) h₁] at h
    cases h
    exact ⟨[], bs, rfl, rfl, encodeChar_ofNat (by omega) h₁⟩
  by_cases h₂ : b.toNat < 0xe0
  · rw [char_of_two (by omega) h₂] at h
    simp only [octet_bind_eq_ok_iff, Except.pure_eq_ok_iff, Prod.mk.injEq] at h
    obtain ⟨b₂, rest, rfl, hb₂, hc, rfl⟩ := h
    exact ⟨[b₂], rest, rfl, rfl, encodeChar_charOfTwo (by omega) h₂ hb₂ hc⟩
  by_cases hs : b = 0xed ∧ bs.head?.any isHigh = true
  · obtain ⟨rfl, hs⟩ := hs
    rw [char_of_pair hs] at h
    simp only [octet_bind_eq_ok_iff, Except.pure_eq_ok_iff, Prod.mk.injEq, decide_eq_true_eq] at h
    obtain ⟨b₂, _, rfl, hb₂, b₃, _, rfl, hb₃, _, _, rfl, rfl, b₅, _, rfl, hb₅, b₆, rest, rfl, hb₆,
      hc, rfl⟩ := h
    obtain rfl := Option.some.inj hc
    exact ⟨[b₂, b₃, 0xed, b₅, b₆], rest, rfl, rfl, encodeChar_charOfPair hb₂ hb₃ hb₅ hb₆⟩
  · rw [char_of_three (by omega) (by omega) hs] at h
    simp only [octet_bind_eq_ok_iff, Except.pure_eq_ok_iff, Prod.mk.injEq] at h
    obtain ⟨b₂, _, rfl, hb₂, b₃, rest, rfl, hb₃, hc, rfl⟩ := h
    exact ⟨[b₂, b₃], rest, rfl, rfl, encodeChar_charOfThree (by omega) (by omega) hb₂ hb₃ hc⟩

/-- Where the octets written for a character lie ahead, the scanner finds it. -/
theorem char_of_encodeChar {us : Octets} (h : encodeChar c = b :: us) (rest : Octets) :
    char o b (us ++ rest) = .ok (some c, us.length) := by
  by_cases h₁ : 0 < c.toNat ∧ c.toNat < 0x80
  · rw [encodeChar_of_one h₁.1 h₁.2] at h
    obtain ⟨rfl, rfl⟩ := List.cons.inj h
    have hb := toNat_ofNat_octet (n := c.toNat) (by omega)
    rw [char_of_one (by omega) (by omega), hb, Char.ofNat_toNat]
    rfl
  by_cases h₂ : c.toNat < 0x800
  · obtain ⟨b₁, b₂, hc, hb, hb', hb₂, hchar⟩ := exists_two_octets (c := c) (by omega) h₂
    obtain ⟨rfl, rfl⟩ := List.cons.inj (hc.symm.trans h)
    rw [char_of_two hb hb']
    simp only [octet_bind_eq_ok_iff, Except.pure_eq_ok_iff, Prod.mk.injEq]
    exact ⟨b₂, rest, rfl, hb₂, hchar, rfl⟩
  by_cases h₃ : c.toNat < 0x10000
  · obtain ⟨b₁, b₂, b₃, hc, hb, hb', hs, hb₂, hb₃, hchar⟩ :=
      exists_three_octets (c := c) (by omega) h₃
    obtain ⟨rfl, rfl⟩ := List.cons.inj (hc.symm.trans h)
    have hs' : ¬ (b₁ = 0xed ∧ ([b₂, b₃] ++ rest).head?.any isHigh = true) := hs
    rw [char_of_three hb hb' hs']
    simp only [octet_bind_eq_ok_iff, Except.pure_eq_ok_iff, Prod.mk.injEq]
    exact ⟨b₂, _, rfl, hb₂, b₃, rest, rfl, hb₃, hchar, rfl⟩
  · obtain ⟨b₂, b₃, b₅, b₆, hc, hb₂, hb₃, hb₅, hb₆, hchar⟩ := exists_pair_octets (c := c) (by omega)
    obtain ⟨rfl, rfl⟩ := List.cons.inj (hc.symm.trans h)
    have hs : ([b₂, b₃, 0xed, b₅, b₆] ++ rest).head?.any isHigh = true := hb₂
    rw [char_of_pair hs]
    simp only [octet_bind_eq_ok_iff, Except.pure_eq_ok_iff, Prod.mk.injEq, decide_eq_true_eq]
    exact ⟨b₂, _, rfl, hb₂, b₃, _, rfl, hb₃, _, _, rfl, rfl, b₅, _, rfl, hb₅, b₆, rest, rfl, hb₆,
      congrArg some hchar, rfl⟩

end

/-! ## The scan of a text -/

theorem encodeChar_ne_nil (c : Char) : encodeChar c ≠ [] := by
  unfold encodeChar
  split_ifs
  · exact List.cons_ne_nil _ _
  · exact String.utf8EncodeChar_ne_nil
  · exact List.cons_ne_nil _ _

/-- Octets that belong to a character already read are passed over. -/
theorem scan_skip (us bs : Octets) (o : Nat) (done : List (Option Char)) :
    scan us.length o (us ++ bs) done = scan 0 (o + us.length) bs done := by
  induction us generalizing o with
  | nil => rfl
  | cons u us ih =>
    rw [List.length_cons, List.cons_append, scan, ih]
    congr 1
    omega

theorem scan_encode (cs : List Char) (o : Nat) (done : List (Option Char)) :
    scan 0 o (cs.flatMap encodeChar) done = .ok (done.reverse ++ cs.map some) := by
  induction cs generalizing o done with
  | nil => simp [scan]
  | cons c cs ih =>
    obtain ⟨b, us, hc⟩ := List.exists_cons_of_ne_nil (encodeChar_ne_nil c)
    rw [List.flatMap_cons, hc, List.cons_append, scan, char_of_encodeChar hc]
    dsimp only
    rw [scan_skip, ih]
    simp

theorem mem_of_scan {skip o : Nat} {bs : Octets} {done chars : List (Option Char)}
    (h : scan skip o bs done = .ok chars) : ∀ x ∈ done, x ∈ chars := by
  fun_induction scan skip o bs done with
  | case1 => cases h; simp
  | case2 skip o b bs done ih => exact ih h
  | case3 o b bs done c skip hc ih =>
    intro x hx
    exact ih h x (List.mem_cons_of_mem _ hx)
  | case4 => cases h

theorem eq_encode_of_scan {o : Nat} {bs : Octets} {done chars : List (Option Char)}
    (h : scan 0 o bs done = .ok chars) (hall : none ∉ chars) :
    ∃ cs : List Char, bs = cs.flatMap encodeChar ∧ chars = done.reverse ++ cs.map some := by
  -- A character takes several octets, so the induction is on how many are left.
  induction hn : bs.length using Nat.strongRecOn generalizing bs o done with
  | _ n ih =>
    cases bs with
    | nil =>
      rw [scan] at h
      cases h
      exact ⟨[], rfl, by simp⟩
    | cons b bs =>
      rw [scan] at h
      cases hchar : char o b bs with
      | error e => rw [hchar] at h; cases h
      | ok p =>
        obtain ⟨x, k⟩ := p
        rw [hchar] at h
        cases x with
        | none => exact absurd (mem_of_scan h none List.mem_cons_self) hall
        | some c =>
          obtain ⟨us, rest, rfl, rfl, hc⟩ := eq_encodeChar_of_char hchar
          dsimp only at h
          rw [scan_skip] at h
          obtain ⟨cs, rfl, hcs⟩ := ih rest.length
            (by rw [← hn, List.length_cons, List.length_append]; omega) h rfl
          refine ⟨c :: cs, ?_, ?_⟩
          · rw [List.flatMap_cons, hc, List.cons_append]
          · rw [hcs]; simp

/-! ## Texts -/

/-- What was read as a text is what is written for it. -/
theorem encode_of_decode {bs : Octets} {t : String} (h : decode bs = .ok t) :
    bs ≠ [] ∧ encode t = bs := by
  cases bs with
  | nil => cases h
  | cons b bs =>
    rw [decode] at h
    cases hscan : scan 0 0 (b :: bs) [] with
    | error e => rw [hscan] at h; cases h
    | ok chars =>
      rw [hscan] at h
      dsimp only at h
      split_ifs at h with hall
      have hnone : none ∉ chars := fun hmem => by simpa using List.all_eq_true.1 hall none hmem
      obtain ⟨cs, hbs, rfl⟩ := eq_encode_of_scan hscan hnone
      cases h
      refine ⟨List.cons_ne_nil _ _, ?_⟩
      rw [encode, String.toList_ofList, hbs]
      simp

/-- What is written for a text that is not empty is read as that text. -/
theorem decode_of_encode {bs : Octets} {t : String} (hbs : bs ≠ []) (h : encode t = bs) :
    decode bs = .ok t := by
  obtain ⟨b, bs, rfl⟩ := List.exists_cons_of_ne_nil hbs
  rw [decode, ← h, encode, scan_encode]
  simp

theorem encode_eq_nil_iff {t : String} : encode t = [] ↔ t = "" := by
  constructor
  · intro h
    have hnil : t.toList = [] := List.eq_nil_iff_forall_not_mem.2 fun c hc =>
      encodeChar_ne_nil c (List.flatMap_eq_nil_iff.1 h c hc)
    exact String.toList_eq_nil_iff.1 hnil
  · rintro rfl
    rfl

theorem encode_injective {s t : String} (h : encode s = encode t) : s = t := by
  by_cases hs : encode s = []
  · have ht : encode t = [] := h ▸ hs
    rw [encode_eq_nil_iff.1 hs, encode_eq_nil_iff.1 ht]
  · have hdecode : decode (encode s) = .ok t := decode_of_encode hs h.symm
    rw [decode_of_encode hs rfl] at hdecode
    exact Except.ok.inj hdecode

/-- **Reading is the inverse of writing**: a string of octets is read as a text exactly if it is
    not empty and is what is written for that text. -/
theorem decode_eq_ok_iff (b : Octets) (t : String) :
    decode b = .ok t ↔ b ≠ [] ∧ encode t = b :=
  ⟨encode_of_decode, fun h => decode_of_encode h.1 h.2⟩

end Bytecode.ModifiedUtf8
