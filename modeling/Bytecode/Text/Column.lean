/-
  Text in columns and numbers in hexadecimal.

  Widths count characters; a text that is as wide as its column or wider is left as it is.  Space is
  what the Unicode Standard gives the property White_Space.
-/
namespace Bytecode.Column

/-- The text at the left of a column of the given width. -/
def alignLeft (width : Nat) (text : String) : String :=
  text.pushn ' ' (width - text.length)

def alignRight (width : Nat) (text : String) : String :=
  "".pushn ' ' (width - text.length) ++ text

def isSpace (c : Char) : Bool :=
  [(0x9, 0xd), (0x20, 0x20), (0x85, 0x85), (0xa0, 0xa0), (0x1680, 0x1680), (0x2000, 0x200a),
    (0x2028, 0x2029), (0x202f, 0x202f), (0x205f, 0x205f), (0x3000, 0x3000)].any
    fun (first, last) => first ≤ c.toNat && c.toNat ≤ last

def trimEnd (text : String) : String :=
  String.ofList (text.toList.reverse.dropWhile isSpace).reverse

/-- The lower-case hexadecimal digits of a number. -/
def hexDigits (n : Nat) : String :=
  String.ofList (Nat.toDigits 16 n)

/-- A number as `0x` and at least `width` hexadecimal digits. -/
def hex (width n : Nat) : String :=
  let digits := hexDigits n
  "0x" ++ "".pushn '0' (width - digits.length) ++ digits

end Bytecode.Column
