/-!
# JSON Trees

JSON values as they stand in a text, faults included.

A reader that knows what it wants stops at the first thing wrong with a
text, and that may be a wrong value long before the text stops being JSON.
So the tree does not refuse a text: it keeps what could be read, and marks
the place where the text breaks off. Whoever walks the tree in order meets
the faults in the order of the text.

Two leaves stand for text that has the form of a value and still names
none: a number beyond the doubles, and a string with half a surrogate pair.
They may be skipped but not read.

## Main definitions

* `Json`: The tree.
* `Json.Sound`: Nothing is broken in it, so it may be skipped.
* `Json.get?`: The value of a member.
-/

namespace HeaderChain

/-- A JSON value as it stands in a text. -/
inductive Json
  /-- The value `null`. -/
  | null
  /-- A truth value. -/
  | bool (b : Bool)
  /-- A whole number without fraction or exponent that fits 64 bits. -/
  | integer (n : Int)
  /-- Any other number. -/
  | real (x : Float)
  /-- A number beyond the doubles. -/
  | tooLarge
  /-- A string. -/
  | string (s : String)
  /-- A string with half a surrogate pair. -/
  | loneSurrogate
  /-- A list, and whether it is properly closed after the last item kept. -/
  | list (items : List Json) (closed : Bool)
  /-- An object, and whether it is properly closed after the last member
      kept. -/
  | object (members : List (Json × Json)) (closed : Bool)
  /-- The text is no JSON from here on. -/
  | broken
  deriving Inhabited

namespace Json

/-- A whole list. -/
def ofList (items : List Json) : Json :=
  .list items true

/-- A whole object. -/
def ofMembers (members : List (String × Json)) : Json :=
  .object (members.map fun (name, value) => (.string name, value)) true

/-- Whether a key is a string, readable or not. -/
def isText : Json → Bool
  | .string _ => true
  | .loneSurrogate => true
  | _ => false

mutual

/-- Whether nothing in a value is broken, so that it may be skipped. -/
def sound : Json → Bool
  | .list items closed => soundItems items && closed
  | .object members closed => soundMembers members && closed
  | .broken => false
  | _ => true

/-- Whether nothing in a list of values is broken. -/
def soundItems : List Json → Bool
  | [] => true
  | item :: rest => sound item && soundItems rest

/-- Whether every key is a string and nothing in the values is broken. -/
def soundMembers : List (Json × Json) → Bool
  | [] => true
  | (key, value) :: rest => isText key && sound value && soundMembers rest

end

/-- The value of the last member of that name. -/
def get? (j : Json) (name : String) : Option Json :=
  match j with
  | .object members _ => go members none
  | _ => none
where
  /-- Walks the members with the last value found so far. -/
  go : List (Json × Json) → Option Json → Option Json
    | [], found => found
    | (.string key, value) :: rest, found => go rest (if key = name then some value else found)
    | _ :: rest, found => go rest found

end Json

end HeaderChain
