import ImplFamilies.Text.Printable

/-!
Quoted characters and texts, as messages show them. The closing mark, the backslash and what
cannot be seen on its own are escaped; anything else stands for itself.
-/

namespace ImplFamilies.Text

/-- The escape by number: lower-case hexadecimal digits in braces. -/
def numericEscape (c : Char) : List Char :=
  ['\\', 'u', '\x7b'] ++ Nat.toDigits 16 c.toNat ++ ['\x7d']

/-- One character between two marks. -/
def spellQuoted (mark c : Char) : List Char :=
  if c = '\x00' then ['\\', '0']
  else if c = '\t' then ['\\', 't']
  else if c = '\r' then ['\\', 'r']
  else if c = '\n' then ['\\', 'n']
  else if c = '\\' ∨ c = mark then ['\\', c]
  else if extendsGrapheme c || !isPrintable c then numericEscape c
  else [c]

def quoteChar (c : Char) : String :=
  String.ofList (['\''] ++ spellQuoted '\'' c ++ ['\''])

def quoteText (s : String) : String :=
  String.ofList (['"'] ++ s.toList.flatMap (spellQuoted '"') ++ ['"'])

end ImplFamilies.Text
