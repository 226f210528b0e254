/-
  Styled text for terminals.

  A style is bold or not, underlined or not, and of a colour or of none.  `Style.paint` puts the
  text between two escape sequences; a style with nothing set leaves the text alone.  The escape
  sequences (`Colour.code`, `Style.codes`, `Style.paint`) are not this program's own: they are what
  the library `ansi_term` writes for the styles in use.  All that theorems take from them is
  `Style.framed`.

  A `Role` is the part that a piece of text can play in a listing.  Roles have dotted names.  A role
  has a style of its own, or it has the style of the role whose name ends before the last dot, with
  some changes (`StyleNode`); `Role.style` follows the names outwards.
-/
namespace Bytecode

inductive Colour where
  | red | green | yellow | blue | purple | cyan
  deriving DecidableEq, Repr

/-- The escape code of a colour in the foreground. -/
def Colour.code : Colour → String
  | .red => "31"
  | .green => "32"
  | .yellow => "33"
  | .blue => "34"
  | .purple => "35"
  | .cyan => "36"

structure Style where
  bold : Bool
  underline : Bool
  colour : Option Colour
  deriving DecidableEq, Repr

namespace Style

/-- No styling at all. -/
def plain : Style := ⟨false, false, none⟩

/-- A colour and nothing else. -/
def colored (c : Colour) : Style := ⟨false, false, some c⟩

/-- A colour in bold. -/
def strong (c : Colour) : Style := ⟨true, false, some c⟩

/-- The escape codes of a style: bold, then underline, then the colour. -/
def codes (s : Style) : List String :=
  (if s.bold then ["1"] else []) ++ (if s.underline then ["4"] else [])
    ++ (s.colour.map Colour.code).toList

/-- The escape sequence that switches a style on. -/
def opening (s : Style) : String :=
  "\x1b[" ++ ";".intercalate s.codes ++ "m"

def closing : String := "\x1b[0m"

def paint (s : Style) (text : String) : String :=
  if s.codes = [] then text else s.opening ++ text ++ closing

end Style

/-- What a style that follows another one changes of it. -/
structure Overrides where
  bold : Option Bool := none
  underline : Option Bool := none
  deriving DecidableEq, Repr

def Overrides.apply (changes : Overrides) (s : Style) : Style :=
  { s with
    bold := changes.bold.getD s.bold
    underline := changes.underline.getD s.underline }

/-- How the style of a role is given. -/
inductive StyleNode where
  /-- by itself -/
  | base (style : Style)
  /-- by what it changes of the style of the outer role -/
  | inherit (changes : Overrides)
  deriving DecidableEq, Repr

/-- The part that a piece of text plays in a listing. -/
inductive Role where
  | comment | extends | heading | error
  | type | typeObject
  | poolIndex
  | poolVal | poolValInt | poolValUtf8
  | poolRef | poolRefMember | poolRefString | poolRefClass | poolRefNameAndType | poolRefDynamic
  | access
  | opcode | opcodeFlow | opcodeFlowInvocation | opcodeImmediate
  deriving DecidableEq, Repr

namespace Role

def all : List Role :=
  [comment, Role.extends, heading, error, type, typeObject, poolIndex, poolVal, poolValInt,
    poolValUtf8, poolRef, poolRefMember, poolRefString, poolRefClass, poolRefNameAndType,
    poolRefDynamic, access, opcode, opcodeFlow, opcodeFlowInvocation, opcodeImmediate]

/-- The name of a role, cut at its dots. -/
def path : Role → List String
  | comment => ["comment"]
  | Role.extends => ["extends"]
  | heading => ["heading"]
  | error => ["error"]
  | type => ["type"]
  | typeObject => ["type", "object"]
  | poolIndex => ["pool", "index"]
  | poolVal => ["pool", "val"]
  | poolValInt => ["pool", "val", "int"]
  | poolValUtf8 => ["pool", "val", "utf8"]
  | poolRef => ["pool", "ref"]
  | poolRefMember => ["pool", "ref", "member"]
  | poolRefString => ["pool", "ref", "string"]
  | poolRefClass => ["pool", "ref", "class"]
  | poolRefNameAndType => ["pool", "ref", "name_and_type"]
  | poolRefDynamic => ["pool", "ref", "dynamic"]
  | access => ["access"]
  | opcode => ["opcode"]
  | opcodeFlow => ["opcode", "flow"]
  | opcodeFlowInvocation => ["opcode", "flow", "invocation"]
  | opcodeImmediate => ["opcode", "immediate"]

def name (r : Role) : String :=
  ".".intercalate r.path

def ofName? (name : String) : Option Role :=
  all.find? (·.name = name)

/-- The palette. -/
def node : Role → StyleNode
  | comment => .base (.colored .cyan)
  | Role.extends => .base (.strong .yellow)
  | heading => .base { Style.plain with bold := true }
  | error => .base (.strong .red)
  | type => .base (.colored .green)
  | typeObject => .inherit { bold := some true }
  | poolIndex => .base (.strong .cyan)
  | poolVal => .base (.strong .green)
  | poolValInt => .inherit {}
  | poolValUtf8 => .base (.colored .green)
  | poolRef => .base (.strong .yellow)
  | poolRefMember => .inherit {}
  | poolRefString => .inherit {}
  | poolRefClass => .inherit {}
  | poolRefNameAndType => .base (.strong .blue)
  | poolRefDynamic => .base (.colored .purple)
  | access => .base (.colored .yellow)
  | opcode => .base (.colored .cyan)
  | opcodeFlow => .base { Style.colored .yellow with underline := true }
  | opcodeFlowInvocation => .inherit { underline := some false }
  | opcodeImmediate => .base (.colored .yellow)

/-- The style of the role with a path, whose innermost part comes first: its own, or the style of
    the path without that part, with changes. -/
def styleAt? : List String → Option Style
  | [] => none
  | part :: outer => do
    let r ← all.find? (·.path.reverse = part :: outer)
    match r.node with
    | .base style => some style
    | .inherit changes => changes.apply <$> styleAt? outer

def style (r : Role) : Style :=
  (styleAt? r.path.reverse).getD .plain

def paint (r : Role) (text : String) : String :=
  r.style.paint text

end Role

/-- The style of a given name; a name that no role has stands for no styling. -/
def Style.ofName (name : String) : Style :=
  ((Role.ofName? name).map Role.style).getD .plain

end Bytecode
