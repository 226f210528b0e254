/-
  Listings of classes in colour: the header, the constant pool, the fields, and the methods with
  their instructions.

  Where a line of the pool or of the code names something that does not resolve, the message of the
  error stands in its place, so a listing of damaged code is still complete.  The texts that head
  the class and its members have to resolve.  The text of an empty constant has no placeholder:
  meeting it ends the listing.

  * `ofClass` is the whole listing.
-/
import Bytecode.ClassFile.Symbols
import Bytecode.Code.Opcode
import Bytecode.Text.Quoted
import Bytecode.Text.Style

namespace Bytecode.Listing

def comment (text : String) : String :=
  Role.comment.paint ("// " ++ text)

def key (i : Nat) : String :=
  Role.poolIndex.paint s!"#{i}"

/-- A key and a comment on what is there. -/
def keyWith (i : Nat) (text : String) : String :=
  key i ++ " " ++ comment text

/-- A text, or what `render` makes of the error in its place; fatal errors stay errors. -/
def orElse (render : FormatError → String) :
    Except FormatError String → Except FormatError String
  | .ok text => .ok text
  | .error e => if e.isFatal then .error e else .ok (render e)

def placeholder (e : FormatError) : String :=
  "<" ++ e.message ++ ">"

def textAt (pool : Pool) (i : Nat) : Except FormatError String :=
  orElse placeholder (pool.text i)

def memberAt (pool : Pool) (i : Nat) (kind : ConstantKind) : Except FormatError String :=
  orElse placeholder (MemberRef.text <$> pool.memberRef i kind)

/-! ## The constant pool -/

def kindRole : ConstantKind → Role
  | .utf8 => .poolValUtf8
  | .integer => .poolValInt
  | .classRef => .poolRefClass
  | .string => .poolRefString
  | .member _ => .poolRefMember
  | .nameAndType => .poolRefNameAndType
  | .methodHandle | .methodType | .invokeDynamic => .poolRefDynamic

/-- What a constant holds; `i` is its key. -/
def constantBody (pool : Pool) (i : Nat) : Constant → Except FormatError String
  | .utf8 bs =>
    orElse placeholder ((Quoted.quote <$> ModifiedUtf8.decode bs).mapError .ofText)
  | .integer n => .ok (toString n.toInt)
  | .classRef name => keyWith name <$> textAt pool name
  | .string text => keyWith text <$> textAt pool text
  | .methodType descriptor => keyWith descriptor <$> textAt pool descriptor
  | .member kind owner nt => do
    let text ← memberAt pool i (.member kind)
    return key owner ++ "." ++ keyWith nt text
  | .nameAndType name descriptor => do
    let n ← textAt pool name
    let d ← textAt pool descriptor
    return key name ++ ":" ++ keyWith descriptor (n ++ ":" ++ d)
  | .methodHandle kind handle => .ok (toString kind.toNat ++ ":" ++ key handle)
  | .invokeDynamic bootstrap nt => .ok (toString bootstrap ++ ":" ++ key nt)

def describeConstant (pool : Pool) (i : Nat) (c : Constant) : Except FormatError String := do
  let body ← constantBody pool i c
  return (kindRole c.kind).paint (Column.alignLeft 18 c.kind.name) ++ " " ++ body

/-! ## Instructions -/

def loadedValue (pool : Pool) : Constant → Except FormatError String
  | .integer n => .ok (toString n.toInt)
  | .string text => Quoted.quote <$> textAt pool text
  | c => .ok c.kind.name

def immediate (text : String) : String :=
  Role.opcodeImmediate.paint text

/-- The operands of the instruction at an offset; an empty text for an instruction without any. -/
def operands (pool : Pool) (offset : Nat) : Instruction → Except FormatError String
  | .pushByte n => .ok (immediate (toString n.toInt))
  | .pushShort n => .ok (immediate (toString n.toInt))
  | .loadConstant i => do
    let text ← orElse FormatError.message (pool.get i.toNat >>= loadedValue pool)
    return keyWith i.toNat text
  | .loadInt slot | .loadRef slot | .storeInt slot | .storeRef slot =>
    .ok (immediate (toString slot.toNat))
  | .incInt slot delta => .ok (immediate (toString slot.toNat ++ " " ++ toString delta.toInt))
  | .ifNotZero distance | .ifNotEqualInt distance | .ifGreaterEqualInt distance
  | .goto distance => .ok (immediate ("-> " ++ toString ((offset : Int) + distance.toInt)))
  | .getStatic i | .getField i | .putField i => do
    let text ← memberAt pool i.toNat (.member .field)
    return keyWith i.toNat text
  | .invokeVirtual i | .invokeSpecial i | .invokeStatic i => do
    let text ← memberAt pool i.toNat (.member .method)
    return keyWith i.toNat text
  | .new i => do
    let text ← orElse FormatError.message (pool.className i.toNat)
    return keyWith i.toNat text
  | _ => .ok ""

def opcodeRole : Instruction → Role
  | .invokeVirtual _ | .invokeSpecial _ | .invokeStatic _ => .opcodeFlowInvocation
  | .ifNotZero _ | .ifNotEqualInt _ | .ifGreaterEqualInt _ | .goto _ | .returnInt | .returnRef
  | .returnVoid => .opcodeFlow
  | _ => .opcode

/-- How the line of a step starts: with its offset at the right of five columns, and a colon. -/
def label (offset : Nat) : String :=
  Column.alignRight 5 (toString offset) ++ ": "

/-- The line of a step of decoding at an offset. -/
def instructionLine (pool : Pool) (offset : Nat) :
    Except DecodeError Decoded → Except FormatError String
  | .ok d => do
    let name := (opcodeRole d.instruction).paint (Column.alignLeft 14 d.mnemonic)
    let text ← operands pool offset d.instruction
    return Column.trimEnd (label offset ++ name ++ " " ++ text)
  | .error e => .ok (label offset ++ comment e.text)

/-- The instructions of a string of octets, one to a line; octets that are no instruction end the
    list. -/
def disassemble (pool : Pool) (code : Octets) : Except FormatError (List String) :=
  (Decoded.linear code).mapM fun (offset, step, _) => instructionLine pool offset step

/-! ## Classes -/

def constantLine (pool : Pool) (i : Nat) (c : Constant) : Except FormatError String := do
  let description ← describeConstant pool i c
  return "  " ++ Role.poolIndex.paint (Column.alignRight 5 s!"#{i}") ++ " = " ++ description

def header (c : ClassFile) : Except FormatError (List String) := do
  let name ← c.name
  let super ← c.pool.className c.superClass
  return [comment s!"Version {c.version.major.toNat}.{c.version.minor.toNat}",
    Role.access.paint c.access.text ++ " class " ++ Role.typeObject.paint name ++ " "
      ++ Role.extends.paint "extends" ++ " " ++ Role.typeObject.paint super]

def fieldLine (pool : Pool) (m : Member) : Except FormatError String := do
  let descriptor ← pool.text m.descriptor
  let name ← pool.text m.name
  return "  " ++ Role.access.paint m.access.text ++ " " ++ Role.type.paint descriptor ++ " " ++ name

/-- What a listing says of a method's code. -/
def shape (pool : Pool) (m : Member) : Option Code → Except FormatError String
  | none => .ok "no code"
  | some code => do
    let args ← m.argCount pool
    return s!"{args} args, max_stack {code.maxStack}, max_locals {code.maxLocals}, "
      ++ s!"{code.octets.length} bytes"

def methodLines (pool : Pool) (m : Member) : Except FormatError (List String) := do
  let code ← m.code? pool
  let shape ← shape pool m code
  let name ← pool.text m.name
  let descriptor ← pool.text m.descriptor
  let head := "  " ++ Role.access.paint m.access.text ++ " " ++ name ++ Role.type.paint descriptor
    ++ " " ++ comment shape
  match code with
  | none => return [head]
  | some code =>
    let lines ← disassemble pool code.octets
    return head :: lines.map ("    " ++ ·)

/-- The line that heads a part of a listing, after an empty line. -/
def heading (text : String) : List String :=
  ["", Role.heading.paint text]

def ofClass (c : ClassFile) : Except FormatError String := do
  let head ← header c
  let constants ← c.pool.entries.mapM fun (i, constant) => constantLine c.pool i constant
  let fields ← c.fields.mapM (fieldLine c.pool)
  let methods ← c.methods.mapM (methodLines c.pool)
  let lines := head ++ heading "Constant pool:" ++ constants ++ heading "Fields:" ++ fields
    ++ heading "Methods:" ++ methods.flatten
  return "\n".intercalate lines ++ "\n"

end Bytecode.Listing
