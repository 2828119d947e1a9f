import HeaderChain.Double.Exact
import HeaderChain.Text.Decimal

/-!
# Configuration Values

Loosely typed values from a configuration, and the integers they stand for.

A configuration may spell an integer as a number, a truth value or a text.
Numbers with a fraction are rounded, a half going away from zero, and held
within the range of the type, whereas integers, and texts that spell them,
have to be in range. Whatever stands for no integer is an error, which the
reader of a setting takes as if the setting were missing.

## Main definitions

* `ConfigValue`: A value of a configuration.
* `ConfigValue.toInt64?`, `ConfigValue.toUInt32?`: The integers.
* `Configuration`: Values by name.
-/

namespace HeaderChain

/-- A value of a configuration. -/
inductive ConfigValue
  /-- No value. -/
  | nothing
  /-- A truth value. -/
  | flag (b : Bool)
  /-- A whole number of 64 bits, signed or not. -/
  | whole (n : Int)
  /-- A number with a fraction or beyond 64 bits. -/
  | real (x : Float)
  /-- A text. -/
  | text (s : String)
  /-- A list. -/
  | list (values : List ConfigValue)
  /-- A table of values by name. -/
  | table (entries : List (String × ConfigValue))
  deriving Inhabited

/-- Values by name. -/
abbrev Configuration :=
  List (String × ConfigValue)

namespace ConfigValue

/-- A text in lower case, as far as it is ASCII. -/
def lower (s : String) : List Char :=
  s.toList.map Char.toLower

/-- The truth value that a text spells. -/
def spelledFlag? (s : String) : Option Bool :=
  let word := lower s
  if word = ['t', 'r', 'u', 'e'] ∨ word = ['o', 'n'] ∨ word = ['y', 'e', 's'] then some true
  else if word = ['f', 'a', 'l', 's', 'e'] ∨ word = ['o', 'f', 'f'] ∨ word = ['n', 'o'] then
    some false
  else none

/-- The number that a run of one digit or more spells. -/
def spelledDigits? (cs : List Char) : Option Nat :=
  if cs.isEmpty then none
  else if cs.all Decimal.isDigit then some (Decimal.value cs)
  else none

/-- The integer that a text spells: digits behind at most one sign, of which
    the minus is allowed only if `negatives` are. -/
def spelledInt? (negatives : Bool) (s : String) : Option Int :=
  match s.toList with
  | '+' :: cs => (spelledDigits? cs).map Int.ofNat
  | '-' :: cs => if negatives then (spelledDigits? cs).map fun n : Nat => -(n : Int) else none
  | cs => (spelledDigits? cs).map Int.ofNat

/-- The integer from `low` to `high` that a value stands for. -/
def toInt? (low high : Int) : ConfigValue → Option Int
  | .flag b => some (if b then 1 else 0)
  | .whole n => if low ≤ n ∧ n ≤ high then some n else none
  | .real x => some ((Double.Exact.ofDouble x).clamp low high)
  | .text s =>
    match spelledFlag? s with
    | some b => some (if b then 1 else 0)
    | none => (spelledInt? (decide (low < 0)) s).filter fun n => decide (low ≤ n ∧ n ≤ high)
  | _ => none

/-- The signed 64-bit integer that a value stands for. -/
def toInt64? (value : ConfigValue) : Option Int64 :=
  (toInt? Int64.minValue.toInt Int64.maxValue.toInt value).map Int64.ofInt

/-- The unsigned 32-bit integer that a value stands for. It is first read as
    one of 64 bits, so numbers are held within that range, and then has to
    fit. -/
def toUInt32? (value : ConfigValue) : Option UInt32 :=
  ((toInt? 0 (UInt64.size - 1) value).filter fun n => n < (UInt32.size : Int)).map
    fun n => UInt32.ofNat n.toNat

end ConfigValue

end HeaderChain
