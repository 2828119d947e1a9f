import HeaderChain.Text.Decimal
import HeaderChain.Text.Quoted

/-!
# Hexadecimal Text

Byte strings as pairs of hexadecimal digits, high half first.

Writing uses lower case. Reading takes either case, works on the UTF-8
bytes of the text and reports the first thing wrong with it: an odd number
of bytes, then a length other than the expected one, then the first byte
that is no digit. Since everything before that byte was an ASCII digit, its
position counts characters and bytes alike.

## Main definitions

* `encode`: The lower-case hexadecimal form of a byte string.
* `utf8`: The UTF-8 bytes of a text.
* `decode`: Reads a text of an expected size.
* `Fault`: What can be wrong with a text, and how it is worded.
-/

namespace HeaderChain

namespace Hex

/-- Why a text is not the hexadecimal form of the expected number of
    bytes. -/
inductive Fault
  /-- The text has an odd number of bytes. -/
  | oddLength
  /-- The text has an even number of bytes, but not two for each byte
      expected. -/
  | wrongLength
  /-- The first byte that is no hexadecimal digit, with its position. -/
  | notADigit (byte : UInt8) (position : Nat)
  deriving DecidableEq

/-- The wording of a fault. A byte that is no digit is shown as the
    character of that code. -/
def Fault.message : Fault → String
  | .oddLength => "Odd number of digits"
  | .wrongLength => "Invalid string length"
  | .notADigit byte position =>
    "Invalid character " ++ Quoted.char (Char.ofNat byte.toNat) ++ " at position " ++
      Decimal.ofNat position

/-- The digit for a value below sixteen. -/
def digit (n : Nat) : Char :=
  if n < 10 then Char.ofNat (48 + n) else Char.ofNat (87 + n)

/-- The two digits of a byte, high half first. -/
def pair (byte : UInt8) : List Char :=
  [digit (byte.toNat / 16), digit (byte.toNat % 16)]

/-- The lower-case hexadecimal form of a byte string. -/
def encode (bytes : List UInt8) : String :=
  String.ofList (bytes.flatMap pair)

/-- The UTF-8 bytes of a text. -/
def utf8 (text : String) : List UInt8 :=
  text.toList.flatMap String.utf8EncodeChar

/-- The value of a hexadecimal digit of either case. -/
def value? (byte : UInt8) : Option Nat :=
  let n := byte.toNat
  if 48 ≤ n ∧ n ≤ 57 then some (n - 48)
  else if 97 ≤ n ∧ n ≤ 102 then some (n - 87)
  else if 65 ≤ n ∧ n ≤ 70 then some (n - 55)
  else none

/-- The value of the digit at `position`. -/
def valueAt (position : Nat) (byte : UInt8) : Except Fault Nat :=
  match value? byte with
  | some n => .ok n
  | none => .error (.notADigit byte position)

/-- Reads digits two by two, the first of them standing at `position`. -/
def pairs (position : Nat) : List UInt8 → Except Fault (List UInt8)
  | high :: low :: rest => do
    let h ← valueAt position high
    let l ← valueAt (position + 1) low
    let bytes ← pairs (position + 2) rest
    return UInt8.ofNat (16 * h + l) :: bytes
  | _ => .ok []

/-- Reads the hexadecimal form of exactly `size` bytes. -/
def decode (size : Nat) (text : String) : Except Fault (List UInt8) :=
  let bytes := utf8 text
  if bytes.length % 2 = 1 then .error .oddLength
  else if bytes.length ≠ 2 * size then .error .wrongLength
  else pairs 0 bytes

/-- Reads hexadecimal text of whatever even length it has. -/
def decodeAny (text : String) : Except Fault (List UInt8) :=
  decode ((utf8 text).length / 2) text

end Hex

end HeaderChain
