/-
  Access flags of classes, fields and methods.

  Some bits mean different things in different places; only the ones that always mean the same
  have a name.
-/
namespace Bytecode

structure AccessFlags where
  bits : UInt16
  deriving DecidableEq, Repr

namespace AccessFlags

instance : AndOp AccessFlags where
  and a b := ⟨a.bits &&& b.bits⟩

instance : OrOp AccessFlags where
  or a b := ⟨a.bits ||| b.bits⟩

/-- Whether two sets have a flag in common. -/
def meets (a b : AccessFlags) : Bool :=
  (a &&& b).bits ≠ 0

/-- The flags that have a name, in the order in which they are listed. -/
def named : List (AccessFlags × String) :=
  [(⟨0x0001⟩, "public"), (⟨0x0002⟩, "private"), (⟨0x0004⟩, "protected"), (⟨0x0400⟩, "abstract"),
    (⟨0x0008⟩, "static"), (⟨0x0010⟩, "final"), (⟨0x0100⟩, "native"), (⟨0x0200⟩, "interface"),
    (⟨0x1000⟩, "synthetic")]

/-- The names of the flags in a set, with blanks between them. -/
def text (a : AccessFlags) : String :=
  " ".intercalate ((named.filter (a.meets ·.1)).map (·.2))

end AccessFlags

end Bytecode
