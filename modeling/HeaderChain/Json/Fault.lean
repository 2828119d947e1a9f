import HeaderChain.Double.Shortest
import HeaderChain.Json.Tree
import HeaderChain.Text.Hex

/-!
# Faults of JSON Text

Why a JSON text does not give the value it was read for.

A text may be no JSON at all, and that has no further wording. Or it is
JSON of the wrong shape, and then the cause says what was found, what was
expected or which name is at fault.

## Main definitions

* `Json.Fault`: The causes.
* `Json.Fault.message`: Their wording.
* `Json.wrongKind`: The fault of a value of the wrong kind.
-/

namespace HeaderChain

namespace Json

/-- Why a value could not be read. -/
inductive Fault
  /-- The text is no JSON, or not closed where it should be. -/
  | malformed
  /-- A value of another kind stands here. -/
  | wrongKind (found expected : String)
  /-- An integer beyond the range of the type. -/
  | outOfRange (n : Int) (expected : String)
  /-- A complete record lacks a part. -/
  | missingField (name : String)
  /-- A record gives a part twice. -/
  | duplicateField (name : String)
  /-- A name is none of the alternatives. -/
  | unknownVariant (name : String) (variants : List String)
  /-- A record written as a list has too few parts. -/
  | tooShort (count : Nat) (record : String) (size : Nat)
  /-- A string is no hash. -/
  | badHash (fault : Hex.Fault)
  deriving DecidableEq

/-- A name in backward quotes. -/
def named (name : String) : String :=
  "`" ++ name ++ "`"

/-- The alternatives among which a name was looked for. -/
def alternatives : List String → String
  | [a] => named a
  | [a, b] => named a ++ " or " ++ named b
  | variants => "one of " ++ ", ".intercalate (variants.map named)

/-- The wording of a fault. A malformed text has none of its own. -/
def Fault.message : Fault → String
  | .malformed => ""
  | .wrongKind found expected => "invalid type: " ++ found ++ ", expected " ++ expected
  | .outOfRange n expected =>
    "invalid value: integer " ++ named (Decimal.ofInt n) ++ ", expected " ++ expected
  | .missingField name => "missing field " ++ named name
  | .duplicateField name => "duplicate field " ++ named name
  | .unknownVariant name variants =>
    "unknown variant " ++ named name ++ ", expected " ++ alternatives variants
  | .tooShort count record size =>
    "invalid length " ++ Decimal.ofNat count ++ ", expected struct " ++ record ++ " with " ++
      Decimal.ofNat size ++ " elements"
  | .badHash fault => fault.message

/-- What a value is, in the words of a message. A text that names no value
    has none. -/
def description? : Json → Option String
  | .null => some "null"
  | .bool true => some ("boolean " ++ named "true")
  | .bool false => some ("boolean " ++ named "false")
  | .integer n => some ("integer " ++ named (Decimal.ofInt n))
  | .real x => some ("floating point " ++ named (Double.text x))
  | .string s => some ("string " ++ Quoted.text s)
  | .list _ _ => some "sequence"
  | .object _ _ => some "map"
  | .tooLarge => none
  | .loneSurrogate => none
  | .broken => none

/-- The fault of a value that is not of the expected kind. Lists and objects
    are told by their opening bracket, so what is wrong inside them does not
    count. -/
def wrongKind (expected : String) (j : Json) : Fault :=
  match description? j with
  | some found => .wrongKind found expected
  | none => .malformed

end Json

end HeaderChain
