import HeaderChain.Json.Fault
import HeaderChain.Json.Parser

/-!
# Reading Records from JSON

How typed values are read from a JSON tree.

A record is written as an object, its parts in any order and among parts
that do not concern it, or as a list of all its parts in their declared
order. Its members are judged in the order of the text and the first fault
decides: a part given twice, a part whose value is at fault, a stranger
that is no JSON. Only a complete object is asked for the parts it lacks.

So a record is read in two passes. `parts` makes the judgement, with one
test per declared part, and gives the values found by name. The parts are
then taken from there, in the declared order.

## Main definitions

* `Reader`: A typed reader of trees.
* `Field`: A declared part and the test of its value.
* `parts`: The judgement of a record.
* `required`, `optional`: A part of a judged record.
* `readVariant`: One of several alternatives.
* `readText`: Reads a whole text.
-/

namespace HeaderChain

namespace Json

/-- A typed reader of trees. -/
abbrev Reader (α : Type) :=
  Json → Except Fault α

/-- A declared part of a record, with the test its value must pass. -/
structure Field where
  /-- The name of the part. -/
  name : String
  /-- The first fault of a value, if there is one. -/
  test : Reader Unit

/-- The part of that name, tested by the reader of its type. -/
def field {α : Type} (name : String) (read : Reader α) : Field :=
  ⟨name, fun j => (read j).map fun _ => ()⟩

/-- The values of a record's parts by name. -/
abbrev Parts :=
  List (String × Json)

/-- Judges the members of an object in their order. Gives the values of the
    declared parts, on top of those already `seen`. -/
def memberParts (fields : List Field) (closed : Bool) :
    Parts → List (Json × Json) → Except Fault Parts
  | seen, [] => if closed then .ok seen else .error .malformed
  | seen, (.string name, value) :: rest =>
    match fields.find? (·.name == name) with
    | none => if value.sound then memberParts fields closed seen rest else .error .malformed
    | some field =>
      if (seen.lookup name).isSome then .error (.duplicateField name)
      else match field.test value with
        | .error fault => .error fault
        | .ok () => memberParts fields closed ((name, value) :: seen) rest
  | _, _ :: _ => .error .malformed

/-- Judges the items of a list, one per declared part. The `count` of those
    already judged and the `size` of the record go into the fault of a list
    that is too short. -/
def itemParts (record : String) (size : Nat) (closed : Bool) :
    Nat → List Field → List Json → Except Fault Parts
  | _, [], [] => if closed then .ok [] else .error .malformed
  | _, [], _ :: _ => .error .malformed
  | count, _ :: _, [] =>
    if closed then .error (.tooShort count record size) else .error .malformed
  | count, field :: fields, item :: items =>
    match field.test item with
    | .error fault => .error fault
    | .ok () => (itemParts record size closed (count + 1) fields items).map ((field.name, item) :: ·)

/-- Judges a record and gives the values of its parts. -/
def parts (record : String) (fields : List Field) : Reader Parts
  | .object members closed => memberParts fields closed [] members
  | .list items closed => itemParts record fields.length closed 0 fields items
  | j => .error (wrongKind ("struct " ++ record) j)

/-- A part that must be there. -/
def required {α : Type} (found : Parts) (name : String) (read : Reader α) : Except Fault α :=
  match found.lookup name with
  | none => .error (.missingField name)
  | some j => read j

/-- A part that may be left out. -/
def optional {α : Type} (found : Parts) (name : String) (read : Reader (Option α)) :
    Except Fault (Option α) :=
  match found.lookup name with
  | none => .ok none
  | some j => read j

/-- A value that may be `null`. -/
def nullable {α : Type} (read : Reader α) : Reader (Option α)
  | .null => .ok none
  | j => (read j).map some

/-- A truth value. -/
def readBool : Reader Bool
  | .bool b => .ok b
  | j => .error (wrongKind "a boolean" j)

/-- A string. -/
def readString : Reader String
  | .string s => .ok s
  | j => .error (wrongKind "a string" j)

/-- An integer from `low` to `high`, of the type of the given name. -/
def readInteger (name : String) (low high : Int) : Reader Int
  | .integer n => if low ≤ n ∧ n ≤ high then .ok n else .error (.outOfRange n name)
  | j => .error (wrongKind name j)

/-- A byte. -/
def readUInt8 (j : Json) : Except Fault UInt8 :=
  (readInteger "u8" 0 (UInt8.size - 1) j).map fun n => UInt8.ofNat n.toNat

/-- A 32-bit unsigned integer. -/
def readUInt32 (j : Json) : Except Fault UInt32 :=
  (readInteger "u32" 0 (UInt32.size - 1) j).map fun n => UInt32.ofNat n.toNat

/-- A 64-bit unsigned integer. -/
def readUInt64 (j : Json) : Except Fault UInt64 :=
  (readInteger "u64" 0 (UInt64.size - 1) j).map fun n => UInt64.ofNat n.toNat

/-- A 64-bit signed integer. -/
def readInt64 (j : Json) : Except Fault Int64 :=
  (readInteger "i64" Int64.minValue.toInt Int64.maxValue.toInt j).map Int64.ofInt

/-- Reads every item of a list. -/
def readItemsWith {α : Type} (read : Reader α) : List Json → Except Fault (List α)
  | [] => .ok []
  | item :: rest => do
    let a ← read item
    let more ← readItemsWith read rest
    return a :: more

/-- A list of any length. -/
def readList {α : Type} (read : Reader α) : Reader (List α)
  | .list items closed =>
    match readItemsWith read items with
    | .error fault => .error fault
    | .ok as => if closed then .ok as else .error .malformed
  | j => .error (wrongKind "a sequence" j)

/-- Reads one of several alternatives: a bare name, or an object with one
    member whose name says which it is. The name is judged first, then the
    value, and only then whether anything follows. What is neither a name nor
    led by one is no form of an alternative at all. -/
def readVariant {α : Type} (variants : List String) (bare : String → Except Fault α)
    (carrying : String → Reader α) : Reader α
  | .string name =>
    if variants.contains name then bare name else .error (.unknownVariant name variants)
  | .object ((.string name, value) :: rest) closed =>
    if variants.contains name then
      match carrying name value with
      | .error fault => .error fault
      | .ok a => if rest.isEmpty && closed then .ok a else .error .malformed
    else .error (.unknownVariant name variants)
  | _ => .error .malformed

/-- The value of an alternative that carries nothing. -/
def readUnit : Reader Unit
  | .null => .ok ()
  | j => .error (wrongKind "unit" j)

/-- Reads a whole text. What follows a value counts only if the value itself
    is good. -/
def readText {α : Type} (read : Reader α) (text : String) : Except Fault α :=
  let (j, alone) := parse text
  match read j with
  | .error fault => .error fault
  | .ok a => if alone then .ok a else .error .malformed

end Json

end HeaderChain
