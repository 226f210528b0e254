/-
  Modified UTF-8, the form of text in class files.

  It is UTF-8 with two changes: the character U+0000 is the pair `c0 80`, so no octet is zero,
  and a character above U+FFFF is written as its two UTF-16 surrogates, three octets each.

  * `encode` writes a text;
  * `decode` reads one.  An octet out of shape is refused where it stands.  Octets that have the
    shape of a character but stand for none (an overlong form, half a surrogate pair) are found
    only once the whole string has been scanned, and are then blamed on its first octet.  The
    empty string has no first octet: it is refused as `TextError.empty`;
  * `isPlain` says that the two forms of UTF-8 agree on a text.
-/
import Bytecode.Octets.BigEndian

namespace Bytecode

/-- Why octets are not the modified UTF-8 of a text. -/
inductive TextError where
  | truncated
  /-- The octet at this offset cannot stand there. -/
  | invalid (offset : Nat) (octet : UInt8)
  | empty
  deriving DecidableEq, Repr

def utf8 (text : String) : Octets :=
  text.toList.flatMap String.utf8EncodeChar

namespace ModifiedUtf8

/-! ## Writing -/

/-- Three octets that carry sixteen bits. -/
def triple (n : Nat) : Octets :=
  [UInt8.ofNat (0xe0 + n / 4096), UInt8.ofNat (0x80 + n / 64 % 64), UInt8.ofNat (0x80 + n % 64)]

def encodeChar (c : Char) : Octets :=
  if c.toNat = 0 then [0xc0, 0x80]
  else if c.toNat ≤ 0xffff then String.utf8EncodeChar c
  else
    let n := c.toNat - 0x10000
    triple (0xd800 + n / 1024) ++ triple (0xdc00 + n % 1024)

def encode (text : String) : Octets :=
  text.toList.flatMap encodeChar

/-- Whether a character is written alike in both forms of UTF-8. -/
def isPlainChar (c : Char) : Bool :=
  c.toNat ≠ 0 && c.toNat ≤ 0xffff

def isPlain (text : String) : Bool :=
  text.toList.all isPlainChar

/-! ## Reading -/

/-- Whether an octet is `10xxxxxx`. -/
def isTrail (b : UInt8) : Bool :=
  b.toNat / 64 = 2

/-- Whether an octet is the second one of a high surrogate, `1010xxxx`. -/
def isHigh (b : UInt8) : Bool :=
  b.toNat / 16 = 10

/-- Whether an octet is the second one of a low surrogate, `1011xxxx`. -/
def isLow (b : UInt8) : Bool :=
  b.toNat / 16 = 11

/-- The octet that has to come next, at offset `o`. -/
def octet (fits : UInt8 → Bool) (o : Nat) : Octets → Except TextError (UInt8 × Octets)
  | [] => .error .truncated
  | b :: bs => if fits b then .ok (b, bs) else .error (.invalid o b)

/-- The character of two octets; only U+0000 may be longer than it need be. -/
def charOfTwo (b₁ b₂ : UInt8) : Option Char :=
  let n := b₁.toNat % 32 * 64 + b₂.toNat % 64
  if 0x80 ≤ n ∨ n = 0 then some (Char.ofNat n) else none

/-- The character of three octets, if it needs three and is no surrogate. -/
def charOfThree (b₁ b₂ b₃ : UInt8) : Option Char :=
  let n := b₁.toNat % 16 * 4096 + b₂.toNat % 64 * 64 + b₃.toNat % 64
  if 0x800 ≤ n ∧ (n < 0xd800 ∨ 0xe000 ≤ n) then some (Char.ofNat n) else none

/-- The character of a surrogate pair, from the octets that carry its bits. -/
def charOfPair (b₂ b₃ b₅ b₆ : UInt8) : Char :=
  Char.ofNat (0x10000 + b₂.toNat % 16 * 65536 + b₃.toNat % 64 * 1024 + b₅.toNat % 16 * 64
    + b₆.toNat % 64)

/-- The character that starts with octet `b₁` at offset `o`, before the octets `bs`, and how many
    of `bs` belong to it.  Octets of the right shape that stand for no character give `none`. -/
def char (o : Nat) (b₁ : UInt8) (bs : Octets) : Except TextError (Option Char × Nat) :=
  if b₁ = 0 then .error (.invalid o b₁)
  else if b₁ < 0x80 then .ok (some (Char.ofNat b₁.toNat), 0)
  else if b₁ < 0xc0 then .error (.invalid o b₁)
  else if b₁ < 0xe0 then do
    let (b₂, _) ← octet isTrail (o + 1) bs
    return (charOfTwo b₁ b₂, 1)
  else if b₁ < 0xf0 then
    if b₁ = 0xed ∧ bs.head?.any isHigh then do
      let (b₂, bs) ← octet isHigh (o + 1) bs
      let (b₃, bs) ← octet isTrail (o + 2) bs
      let (_, bs) ← octet (· = 0xed) (o + 3) bs
      let (b₅, bs) ← octet isLow (o + 4) bs
      let (b₆, _) ← octet isTrail (o + 5) bs
      return (some (charOfPair b₂ b₃ b₅ b₆), 5)
    else do
      let (b₂, bs) ← octet isTrail (o + 1) bs
      let (b₃, _) ← octet isTrail (o + 2) bs
      return (charOfThree b₁ b₂ b₃, 2)
  else .error (.invalid o b₁)

/-- The characters from offset `o` on, after the ones in `done` (the last one first); the first
    `skip` octets belong to a character that has been read already. -/
def scan : Nat → Nat → Octets → List (Option Char) → Except TextError (List (Option Char))
  | _, _, [], done => .ok done.reverse
  | skip + 1, o, _ :: bs, done => scan skip (o + 1) bs done
  | 0, o, b :: bs, done =>
    match char o b bs with
    | .ok (c, skip) => scan skip (o + 1) bs (c :: done)
    | .error e => .error e

/-- The text of a string of octets. -/
def decode : Octets → Except TextError String
  | [] => .error .empty
  | b :: bs =>
    match scan 0 0 (b :: bs) [] with
    | .error e => .error e
    | .ok chars =>
      if chars.all Option.isSome then .ok (String.ofList (chars.filterMap id))
      else .error (.invalid 0 b)

end ModifiedUtf8

end Bytecode
