/-
  Quoted text: a text between double quotes in which every character shows.

  Tab, line feed, carriage return, U+0000, the double quote and the backslash have escapes of two
  characters.  Any other character that does not show by itself is written by its number, as `u` and
  hexadecimal digits in braces after a backslash.  A single quote stays as it is.
-/
import Bytecode.Text.Column
import Bytecode.Text.Hidden

namespace Bytecode.Quoted

/-- The escape that a character has of its own. -/
def shortEscape? (c : Char) : Option String :=
  if c = Char.ofNat 0 then some "\\0"
  else if c = '\t' then some "\\t"
  else if c = '\r' then some "\\r"
  else if c = '\n' then some "\\n"
  else if c = '"' then some "\\\""
  else if c = '\\' then some "\\\\"
  else none

def quoteChar (c : Char) : String :=
  match shortEscape? c with
  | some escape => escape
  | none =>
    if Hidden.isHidden c then "\\u\x7b" ++ Column.hexDigits c.toNat ++ "\x7d"
    else String.singleton c

def quote (text : String) : String :=
  "\"" ++ String.join (text.toList.map quoteChar) ++ "\""

end Bytecode.Quoted
