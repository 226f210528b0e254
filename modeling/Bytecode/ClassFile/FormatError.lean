/-
  What can be wrong with a class file: it ends too early, its magic number or a constant's tag is
  unknown, a key of the pool leads nowhere or to a constant of another kind, a text or a
  descriptor is malformed.

  The text of an empty constant is no ordinary error.  It cannot be blamed on an octet, and it
  stops whatever asked for the text, also where other errors would be worked around
  (`FormatError.isFatal`).
-/
import Bytecode.ClassFile.Constant
import Bytecode.Octets.Reader
import Bytecode.Text.Column
import Bytecode.Text.ModifiedUtf8

namespace Bytecode

/-- Why a class file, or a symbol in it, cannot be read. -/
inductive FormatError where
  | malformed (cause : ReadError)
  | wrongMagic (magic : UInt32)
  | unknownTag (tag : UInt8)
  /-- The pool's count, which includes the unused key 0, is 0. -/
  | poolTooSmall
  /-- No constant has this key. -/
  | invalidIndex (index : Nat)
  | unexpectedConstant (index : Nat) (expected found : ConstantKind)
  | badDescriptor (descriptor : String)
  | invalidText (offset : Nat) (octet : UInt8)
  /-- The text of an empty constant was asked for. -/
  | emptyText
  deriving DecidableEq, Repr

namespace FormatError

def message : FormatError → String
  | .malformed cause => "malformed class file: " ++ cause.message
  | .wrongMagic magic => "bad class file magic " ++ Column.hex 8 magic.toNat
  | .unknownTag tag => s!"unknown constant kind {tag.toNat}"
  | .poolTooSmall => "constant pool count must be at least 1"
  | .invalidIndex index => s!"constant pool index #{index} is out of range"
  | .unexpectedConstant index expected found =>
    s!"unexpected constant kind at #{index}: expected {expected.name}, found {found.name}"
  | .badDescriptor descriptor => s!"malformed descriptor `{descriptor}`"
  | .invalidText offset octet =>
    s!"invalid modified utf-8 byte {Column.hex 2 octet.toNat} at offset {offset}"
  | .emptyText => "index out of bounds: the len is 0 but the index is 0"

/-- Whether an error stops every computation that meets it. -/
def isFatal : FormatError → Bool
  | .emptyText => true
  | _ => false

/-- The error for text that does not decode. -/
def ofText : TextError → FormatError
  | .truncated => .malformed (.incomplete 1)
  | .invalid offset octet => .invalidText offset octet
  | .empty => .emptyText

end FormatError

/-- A failed read within a class file makes the file malformed. -/
instance {R : Type → Type → Type} [Reading R] : MonadLift (R ReadError) (R FormatError) where
  monadLift := Reading.withError .malformed

end Bytecode
