import HeaderChain.Text.Decimal
import HeaderChain.Text.Visible

/-!
# Quoted Text

How a character or a text is shown inside a message.

A shown character stands between single quotes and a shown text between
double quotes. Whatever would not be visible there is escaped, and so is
the quote in use, so that a message always tells which text it speaks of.

## Main definitions

* `escape`: A character as it stands between quotes.
* `char`, `text`: A character or a text, quoted.
-/

namespace HeaderChain

namespace Quoted

/-- The lower-case hexadecimal digits of a code point. -/
def codeDigits (n : Nat) : List Char :=
  Nat.toDigits 16 n

/-- A character as it stands between two `quote` marks. -/
def escape (quote c : Char) : List Char :=
  if c = '\x00' then ['\\', '0']
  else if c = '\t' then ['\\', 't']
  else if c = '\r' then ['\\', 'r']
  else if c = '\n' then ['\\', 'n']
  else if c = '\\' ∨ c = quote then ['\\', c]
  else if isVisible c then [c]
  else ['\\', 'u', '\x7b'] ++ codeDigits c.toNat ++ ['\x7d']

/-- A character between single quotes. -/
def char (c : Char) : String :=
  String.ofList ('\'' :: escape '\'' c ++ ['\''])

/-- A text between double quotes. -/
def text (s : String) : String :=
  String.ofList ('"' :: s.toList.flatMap (escape '"') ++ ['"'])

end Quoted

end HeaderChain
