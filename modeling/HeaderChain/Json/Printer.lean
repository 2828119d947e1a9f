import HeaderChain.Double.Shortest
import HeaderChain.Json.Text

/-!
# Writing JSON Text

From trees to text, without blanks and with members in their order.

Only sound trees have a written form. The leaves that name no value are
written as `null`, which keeps the function total and is never looked at.

## Main definitions

* `Json.chars`: The characters of a value.
* `Json.render`: The same as text.
-/

namespace HeaderChain

namespace Json

mutual

/-- The characters of a value. -/
def chars : Json → List Char
  | .null => ['n', 'u', 'l', 'l']
  | .bool true => ['t', 'r', 'u', 'e']
  | .bool false => ['f', 'a', 'l', 's', 'e']
  | .integer n => Decimal.intDigits n
  | .real x => (Double.text x).toList
  | .string s => quote s
  | .list [] _ => ['[', ']']
  | .list (item :: more) _ => '[' :: chars item ++ itemChars more
  | .object [] _ => ['{', '}']
  | .object ((key, item) :: more) _ => '{' :: chars key ++ ':' :: chars item ++ memberChars more
  | .tooLarge => ['n', 'u', 'l', 'l']
  | .loneSurrogate => ['n', 'u', 'l', 'l']
  | .broken => ['n', 'u', 'l', 'l']

/-- The characters of the items after the first, and the closing
    bracket. -/
def itemChars : List Json → List Char
  | [] => [']']
  | item :: more => ',' :: chars item ++ itemChars more

/-- The characters of the members after the first, and the closing
    brace. -/
def memberChars : List (Json × Json) → List Char
  | [] => ['}']
  | (key, item) :: more => ',' :: chars key ++ ':' :: chars item ++ memberChars more

end

/-- A value as text. -/
def render (j : Json) : String :=
  String.ofList j.chars

end Json

end HeaderChain
