/-!
# JSON values

Objects keep their fields in the order of the text and may hold a key more than once, because
readers decide what a repeated key means. A number is an integer if it is written in full, without
fraction or exponent; any other number is kept as it is written.

A text can hold values that are well formed but beyond representation: containers nested too
deeply, numbers too large, texts with half a surrogate pair, objects with such a text for a key.
They are kept as `unreadable`, so that a reader may still pass over them in a field that it does
not know.
-/

namespace EnemyBehavior

/-- A JSON value. -/
inductive Json where
  | null
  | bool (value : Bool)
  | int (value : Int)
  /-- A number with a fraction or an exponent, or minus zero. -/
  | real (literal : String)
  | string (value : String)
  | array (items : List Json)
  | object (fields : List (String × Json))
  /-- A well-formed value that cannot be represented. -/
  | unreadable

namespace Json

/-- A field of an object. -/
abbrev Field := String × Json

/-- The last value of a key. -/
def field? (key : String) : Json → Option Json
  | object fields => fields.reverse.lookup key
  | _ => none

/-! ## Unreadable parts -/

mutual

/-- No part of the value is unreadable. -/
def isReadable : Json → Bool
  | unreadable => false
  | array items => areReadable items
  | object fields => areReadableFields fields
  | _ => true
termination_by structural v => v

/-- No part of the items is unreadable. -/
def areReadable : List Json → Bool
  | [] => true
  | v :: vs => v.isReadable && areReadable vs
termination_by structural vs => vs

/-- No part of the values of the fields is unreadable. -/
def areReadableFields : List Field → Bool
  | [] => true
  | (_, v) :: fs => v.isReadable && areReadableFields fs
termination_by structural fs => fs

end

/-! ## Repeated keys -/

/-- Keeps, of the fields with equal keys, the last one. -/
def lastOfEach : List Field → List Field
  | [] => []
  | f :: fs => if fs.any (·.1 == f.1) then lastOfEach fs else f :: lastOfEach fs

mutual

/-- The value in which the last of repeated keys has won, at every depth. -/
def withoutRepeats : Json → Json
  | array items => .array (withoutRepeatsItems items)
  | object fields => .object (lastOfEach (withoutRepeatsFields fields))
  | v => v
termination_by structural v => v

/-- The items, each without repeated keys. -/
def withoutRepeatsItems : List Json → List Json
  | [] => []
  | v :: vs => v.withoutRepeats :: withoutRepeatsItems vs
termination_by structural vs => vs

/-- The fields, each value without repeated keys. -/
def withoutRepeatsFields : List Field → List Field
  | [] => []
  | (k, v) :: fs => (k, v.withoutRepeats) :: withoutRepeatsFields fs
termination_by structural fs => fs

end

end Json

end EnemyBehavior
