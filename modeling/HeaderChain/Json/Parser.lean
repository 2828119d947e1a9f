import HeaderChain.Json.Number
import HeaderChain.Json.Text

/-!
# Reading JSON Text

From text to trees.

The parser never refuses. A value that cannot be read is a broken leaf, a
list or object that is not properly closed says so, and in both cases what
follows is left alone, since no reader gets past the fault. Every call
takes characters or one unit of fuel, and the length of the text is fuel
enough.

## Main definitions

* `readValue`: Takes a value off the front of a text.
* `parse`: The value of a whole text, and whether nothing but blanks
  follows it.
-/

namespace HeaderChain

namespace Json

/-- Whether a character may stand between tokens. -/
def isBlank (c : Char) : Bool :=
  c == ' ' || c == '\n' || c == '\t' || c == '\r'

/-- Drops the blanks at the front of a text. -/
def skipBlanks (cs : List Char) : List Char :=
  cs.dropWhile isBlank

/-- What follows a word, if the text starts with it. -/
def word? (word cs : List Char) : Option (List Char) :=
  if word.isPrefixOf cs then some (cs.drop word.length) else none

/-- Takes a value without parts off the front of a text. -/
def scalar (cs : List Char) : Json × List Char :=
  match cs with
  | '"' :: rest =>
    match body? rest with
    | none => (.broken, cs)
    | some (ps, rest) =>
      match join? ps with
      | none => (.loneSurrogate, rest)
      | some chars => (.string (String.ofList chars), rest)
  | 'n' :: rest =>
    match word? ['u', 'l', 'l'] rest with
    | none => (.broken, cs)
    | some rest => (.null, rest)
  | 't' :: rest =>
    match word? ['r', 'u', 'e'] rest with
    | none => (.broken, cs)
    | some rest => (.bool true, rest)
  | 'f' :: rest =>
    match word? ['a', 'l', 's', 'e'] rest with
    | none => (.broken, cs)
    | some rest => (.bool false, rest)
  | cs =>
    match numeral? cs with
    | none => (.broken, cs)
    | some (n, rest) => (n.toJson, rest)

mutual

/-- Takes a value off the front of a text. -/
def readValue : Nat → List Char → Json × List Char
  | 0, cs => (.broken, cs)
  | fuel + 1, cs =>
    match skipBlanks cs with
    | '[' :: cs =>
      match skipBlanks cs with
      | ']' :: rest => (.list [] true, rest)
      | cs =>
        let (items, closed, rest) := readItems fuel cs
        (.list items closed, rest)
    | '{' :: cs =>
      match skipBlanks cs with
      | '}' :: rest => (.object [] true, rest)
      | cs =>
        let (members, closed, rest) := readMembers fuel cs
        (.object members closed, rest)
    | cs => scalar cs

/-- Takes the items of a list, one or more, and its closing bracket. -/
def readItems : Nat → List Char → List Json × Bool × List Char
  | 0, cs => ([], false, cs)
  | fuel + 1, cs =>
    let (item, rest) := readValue fuel cs
    match skipBlanks rest with
    | ',' :: rest =>
      let (more, closed, rest) := readItems fuel rest
      (item :: more, closed, rest)
    | ']' :: rest => ([item], true, rest)
    | rest => ([item], false, rest)

/-- Takes the members of an object, one or more, and its closing brace. -/
def readMembers : Nat → List Char → List (Json × Json) × Bool × List Char
  | 0, cs => ([], false, cs)
  | fuel + 1, cs =>
    let (key, rest) := readValue fuel cs
    match skipBlanks rest with
    | ':' :: rest =>
      let (item, rest) := readValue fuel rest
      match skipBlanks rest with
      | ',' :: rest =>
        let (more, closed, rest) := readMembers fuel rest
        ((key, item) :: more, closed, rest)
      | '}' :: rest => ([(key, item)], true, rest)
      | rest => ([(key, item)], false, rest)
    | rest => ([(key, .broken)], false, rest)

end

/-- The value of a text, and whether nothing but blanks follows it. -/
def parse (text : String) : Json × Bool :=
  let (j, rest) := readValue (2 * text.length + 2) text.toList
  (j, (skipBlanks rest).isEmpty)

end Json

end HeaderChain
