/-
  What readers are put together from.

  There is more than one kind of readers: those that run (`Reader`), and those that have no outcome
  when an operation is used out of its range.  `Reading R` says what a kind `R` has to have; a
  reader `R ε α` gives an `α` or fails with an `ε`.  The parts of a format are read in terms of
  these operations alone, so each is written once and makes a reader of every kind.

  * `u8`, `u16`, `u32` and `i8`, `i16`, `i32` read one big-endian number, `index` a 16-bit one
    as a natural number.
-/
import Bytecode.Octets.Cursor

namespace Bytecode

/-- The operations of a kind of readers. -/
class Reading (R : Type → Type → Type) where
  /-- Fails without moving. -/
  fail {ε α : Type} (e : ε) : R ε α
  /-- The same reader with its errors mapped. -/
  withError {ε δ α : Type} (f : ε → δ) (r : R ε α) : R δ α
  /-- Runs `r` exactly `n` times and lists what it gave. -/
  many {ε α : Type} (n : Nat) (r : R ε α) : R ε (List α)
  /-- The offset of the cursor. -/
  offset {ε : Type} : R ε Nat
  /-- The next `n` octets. -/
  take (n : Nat) : R ReadError Octets
  /-- A big-endian number on `w` octets. -/
  number (w : Nat) : R ReadError Nat

namespace Reading

variable (R : Type → Type → Type) [∀ ε, Monad (R ε)] [Reading R]

def u8 : R ReadError UInt8 := UInt8.ofNat <$> number 1
def u16 : R ReadError UInt16 := UInt16.ofNat <$> number 2
def u32 : R ReadError UInt32 := UInt32.ofNat <$> number 4
def i8 : R ReadError Int8 := UInt8.toInt8 <$> u8 R
def i16 : R ReadError Int16 := UInt16.toInt16 <$> u16 R
def i32 : R ReadError Int32 := UInt32.toInt32 <$> u32 R

/-- A 16-bit count or pool index. -/
def index : R ReadError Nat := number 2

def chunk (n : Nat) : R ReadError Octets := take n

end Reading

end Bytecode
