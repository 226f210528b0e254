/-
  Assembling a class in memory.

  Constants are interned: asking for the same one twice gives the same key, and a key once given
  stays good, since the pool only grows at its end.  A `Draft` is a class under construction with
  the keys that were given out, which alone decide whether a constant is there already.
  `Assembly α` is a computation on a draft; `Assembly.Edit` lists the requests one can make, and
  `Edit.apply` answers them.
-/
import Bytecode.ClassFile.Encode
import Bytecode.Text.ModifiedUtf8

namespace Bytecode

/-- A class under construction, and the keys of its constants. -/
structure Draft where
  cls : ClassFile
  interned : List (Constant × Nat)
  /-- The keys are those of the places where the constants stand first. -/
  interned_eq : ∀ c, interned.lookup c = (cls.pool.constants.idxOf? c).map (· + 1)

namespace Draft

/-- A public class without names and members. -/
def empty : Draft where
  cls := ⟨⟨52, 0⟩, ⟨[]⟩, ⟨0x0021⟩, 0, 0, [], [], []⟩
  interned := []
  interned_eq _ := rfl

/-- A constant without a key gets the next free one. -/
def add (d : Draft) (c : Constant) (h : d.interned.lookup c = none) : Draft where
  cls := { d.cls with pool := ⟨d.cls.pool.constants ++ [c]⟩ }
  interned := (c, d.cls.pool.count) :: d.interned
  interned_eq c' := by
    have hidx := d.interned_eq c'
    rw [List.idxOf?, List.findIdx?_append, ← List.idxOf?, List.idxOf?_cons, List.lookup_cons]
    by_cases hc : c' = c
    · subst hc
      -- it had no key, so it was not in the pool
      have hnone : d.cls.pool.constants.idxOf? c' = none := by simpa [h] using hidx.symm
      simp [hnone, Pool.count]
    · simp [beq_false_of_ne hc, beq_false_of_ne (Ne.symm hc), hidx]

end Draft

abbrev Assembly (α : Type) := StateM Draft α

namespace Assembly

/-- The key of a constant: the one it has, or the next free one, under which it is then added. -/
def intern (c : Constant) : Assembly Nat := fun d =>
  match h : d.interned.lookup c with
  | some key => (key, d)
  | none => (d.cls.pool.count, d.add c h)

def utf8 (text : String) : Assembly Nat :=
  intern (.utf8 (ModifiedUtf8.encode text))

def integer (n : Int32) : Assembly Nat :=
  intern (.integer n)

def classRef (name : String) : Assembly Nat := do
  let i ← utf8 name
  intern (.classRef i)

def string (text : String) : Assembly Nat := do
  let i ← utf8 text
  intern (.string i)

def nameAndType (name descriptor : String) : Assembly Nat := do
  let n ← utf8 name
  let d ← utf8 descriptor
  intern (.nameAndType n d)

def member (kind : MemberKind) (owner name descriptor : String) : Assembly Nat := do
  let c ← classRef owner
  let nt ← nameAndType name descriptor
  intern (.member kind c nt)

def makeMember (access : AccessFlags) (name descriptor : String) (attributes : List Attribute) :
    Assembly Member := do
  let n ← utf8 name
  let d ← utf8 descriptor
  return ⟨access, n, d, attributes⟩

def addField (access : AccessFlags) (name descriptor : String) : Assembly Unit := do
  let m ← makeMember access name descriptor []
  modify fun d => { d with cls := { d.cls with fields := d.cls.fields ++ [m] } }

def addMethod (access : AccessFlags) (name descriptor : String) (code : Code) :
    Assembly Unit := do
  let codeName ← utf8 "Code"
  let m ← makeMember access name descriptor [⟨codeName, code.info⟩]
  modify fun d => { d with cls := { d.cls with methods := d.cls.methods ++ [m] } }

def addBodiless (access : AccessFlags) (name descriptor : String) : Assembly Unit := do
  let m ← makeMember access name descriptor []
  modify fun d => { d with cls := { d.cls with methods := d.cls.methods ++ [m] } }

def addAttribute (name : String) (info : Octets) : Assembly Unit := do
  let n ← utf8 name
  modify fun d => { d with cls := { d.cls with attributes := d.cls.attributes ++ [⟨n, info⟩] } }

def rootClass : String := "java/lang/Object"

def nameClass (name : String) : Assembly Unit := do
  let this ← classRef name
  let super ← classRef rootClass
  modify fun d => { d with cls := { d.cls with thisClass := this, superClass := super } }

/-- A public class of the given name that extends the root class and has no members. -/
def start (name : String) : Draft :=
  (nameClass name .empty).2

/-! ## Requests -/

inductive Edit where
  | push (c : Constant)
  | utf8 (text : String)
  | integer (n : Int32)
  | classRef (name : String)
  | string (text : String)
  | nameAndType (name descriptor : String)
  | member (kind : MemberKind) (owner name descriptor : String)
  | field (access : AccessFlags) (name descriptor : String)
  | method (access : AccessFlags) (name descriptor : String) (code : Code)
  | bodiless (access : AccessFlags) (name descriptor : String)
  | attribute (name : String) (info : Octets)

/-- Carries out a request; requests for a constant answer with its key. -/
def Edit.apply : Edit → Assembly (Option Nat)
  | .push c => some <$> intern c
  | .utf8 text => some <$> Assembly.utf8 text
  | .integer n => some <$> Assembly.integer n
  | .classRef name => some <$> Assembly.classRef name
  | .string text => some <$> Assembly.string text
  | .nameAndType name descriptor => some <$> Assembly.nameAndType name descriptor
  | .member kind owner name descriptor => some <$> Assembly.member kind owner name descriptor
  | .field access name descriptor => do addField access name descriptor; return none
  | .method access name descriptor code => do addMethod access name descriptor code; return none
  | .bodiless access name descriptor => do addBodiless access name descriptor; return none
  | .attribute name info => do addAttribute name info; return none

/-- Carries out requests in order; the answers and the class they built. -/
def build (name : String) (edits : List Edit) : List (Option Nat) × ClassFile :=
  let out := (edits.mapM Edit.apply) (start name)
  (out.1, out.2.cls)

end Assembly

end Bytecode
