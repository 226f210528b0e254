/-
  Strings of octets and the numbers written in them, most significant octet first.

  * `encode w n` is the number `n` on `w` octets; of a number that does not fit, the low `8 * w`
    bits are kept, so a count or an index that is too large wraps;
  * `decode bs` is the number that the octets `bs` spell.
-/
namespace Bytecode

/-- A string of octets. -/
abbrev Octets := List UInt8

namespace BigEndian

/-- The number `n` on `w` octets, high octet first; what does not fit is dropped. -/
def encode : Nat → Nat → Octets
  | 0, _ => []
  | w + 1, n => encode w (n / 256) ++ [UInt8.ofNat n]

/-- How many numbers there are on `w` octets. -/
def range : Nat → Nat
  | 0 => 1
  | w + 1 => 256 * range w

/-- The number that a string of octets spells, high octet first. -/
def decode (bs : Octets) : Nat :=
  bs.foldl (fun n b => n * 256 + b.toNat) 0

@[simp] theorem length_encode (w n : Nat) : (encode w n).length = w := by
  induction w generalizing n with
  | zero => rfl
  | succ w ih => simp [encode, ih]

@[simp] theorem decode_nil : decode [] = 0 := rfl

@[simp] theorem decode_concat (bs : Octets) (b : UInt8) :
    decode (bs ++ [b]) = decode bs * 256 + b.toNat := by
  simp [decode]

theorem range_pos (w : Nat) : 0 < range w := by
  induction w with
  | zero => decide
  | succ w ih => exact Nat.mul_pos (by decide) ih

/-- Reading back what was written gives the number modulo the range of the width. -/
theorem decode_encode (w n : Nat) : decode (encode w n) = n % range w := by
  induction w generalizing n with
  | zero => exact (Nat.mod_one n).symm
  | succ w ih =>
    have h : n % (256 * range w) = n % 256 + 256 * (n / 256 % range w) := Nat.mod_mul
    rw [encode, decode_concat, ih, range, h]
    simp only [UInt8.toNat_ofNat']
    omega

/-- The octets are recovered from the number they spell. -/
theorem encode_decode (bs : Octets) : encode bs.length (decode bs) = bs := by
  -- `decode` takes its octets from the end, so the induction does too.
  have key : ∀ rev : Octets, encode rev.length (decode rev.reverse) = rev.reverse := by
    intro rev
    induction rev with
    | nil => rfl
    | cons b rev ih =>
      have hb : b.toNat < 256 := b.toNat_lt
      have hdiv : (decode rev.reverse * 256 + b.toNat) / 256 = decode rev.reverse := by omega
      have hlow : UInt8.ofNat (decode rev.reverse * 256 + b.toNat) = b := by
        apply UInt8.toNat.inj
        simp only [UInt8.toNat_ofNat']
        omega
      rw [List.length_cons, List.reverse_cons, decode_concat, encode, hdiv, hlow, ih]
  simpa using key bs.reverse

theorem decode_lt (bs : Octets) : decode bs < range bs.length := by
  have h := decode_encode bs.length (decode bs)
  rw [encode_decode] at h
  rw [h]
  exact Nat.mod_lt _ (range_pos _)

end BigEndian

end Bytecode
