import EnemyBehavior.Json
import EnemyBehavior.Words

/-!
# Reading values out of JSON

The data types of this library are written as JSON objects, and read back from them. In an object
the order of the fields is free, unknown keys are ignored, and a known key may stand only once. Most
records may also be given as an array of their fields in order, of which none may be missing unless
it has a default. Both forms are a `Body`.
-/

namespace EnemyBehavior

/-- Why a value could not be read. -/
inductive ReadError where
  /-- The text is no JSON. -/
  | malformed
  /-- The value is not of the kind named. -/
  | expected (what : String)
  /-- An integer lies outside the range of its field. -/
  | outOfRange (value : Int)
  | missing (field : String)
  | repeated (field : String)
  /-- There is no such name among those allowed. -/
  | unknownName (name : String)
  /-- Some part of the value is beyond representation. -/
  | unreadable
  /-- There are more than this number of fields in an array. -/
  | tooLong (fields : Nat)
deriving DecidableEq

/-- The text a reading error is reported with. -/
def ReadError.message : ReadError → String
  | malformed => "not a JSON text"
  | expected what => s!"expected {what}"
  | outOfRange value => s!"{value} is out of range"
  | missing field => s!"missing field {field}"
  | repeated field => s!"repeated field {field}"
  | unknownName name => s!"unknown name {name}"
  | unreadable => "a value beyond representation"
  | tooLong fields => s!"more than {fields} fields"

namespace Json

/-- What a reader makes of a value. -/
abbrev Reader (α : Type) := Json → Except ReadError α

/-- Refuses a value with an unreadable part. -/
def readable (v : Json) : Except ReadError Unit :=
  if v.isReadable then .ok () else .error .unreadable

/-! ## Scalars -/

/-- Reads an unsigned 32-bit word. -/
def toUInt32 : Reader UInt32
  | int i => (exactUInt32? i).elim (.error (.outOfRange i)) .ok
  | _ => .error (.expected "an integer")

/-- Reads an unsigned 64-bit word. -/
def toUInt64 : Reader UInt64
  | int i => (exactUInt64? i).elim (.error (.outOfRange i)) .ok
  | _ => .error (.expected "an integer")

/-- Reads a signed 64-bit word. -/
def toInt64 : Reader Int64
  | int i => if FitsInt64 i then .ok (Int64.ofInt i) else .error (.outOfRange i)
  | _ => .error (.expected "an integer")

/-- Reads a truth value. -/
def toBool : Reader Bool
  | bool b => .ok b
  | _ => .error (.expected "true or false")

/-- Reads a text. -/
def toText : Reader String
  | string s => .ok s
  | _ => .error (.expected "a text")

/-- The value with a name. -/
def named {α : Type} (name : α → String) (values : List α) (s : String) : Except ReadError α :=
  match values.find? (name · == s) with
  | some a => .ok a
  | none => .error (.unknownName s)

/-- Reads the name of one of several values. A name may also be the only key of an object, with
value null or an empty object. -/
def toNamed {α : Type} (name : α → String) (values : List α) : Reader α
  | string s => named name values s
  | object [(s, null)] => named name values s
  | object [(s, object [])] => named name values s
  | _ => .error (.expected "a name")

/-! ## Compound values -/

def toList {α : Type} (read : Reader α) : Reader (List α)
  | array items => items.mapM read
  | _ => .error (.expected "an array")

/-- Reads a value that may be null. -/
def toOption {α : Type} (read : Reader α) : Reader (Option α)
  | null => .ok none
  | v => (read v).map some

/-! ## Records -/

/-- The fields of a record, by name or by place. -/
inductive Body where
  | named (fields : List Field)
  | placed (items : List Json)

def body : Reader Body
  | object fields => .ok (.named fields)
  | array items => .ok (.placed items)
  | _ => .error (.expected "an object or an array")

namespace Body

/-- The value of a field, if it is there. -/
def get? (b : Body) (place : Nat) (name : String) : Except ReadError (Option Json) :=
  match b with
  | named fields =>
    match fields.filter (·.1 == name) with
    | [] => .ok none
    | [f] => .ok (some f.2)
    | _ => .error (.repeated name)
  | placed items => .ok items[place]?

/-- Reads a field that must be there. -/
def required {α : Type} (b : Body) (place : Nat) (name : String) (read : Reader α) :
    Except ReadError α := do
  match ← b.get? place name with
  | some v => read v
  | none => .error (.missing name)

/-- Reads a field that may be null. By name it may also be missing. -/
def optional {α : Type} (b : Body) (place : Nat) (name : String) (read : Reader α) :
    Except ReadError (Option α) := do
  match ← b.get? place name, b with
  | some v, _ => v.toOption read
  | none, named _ => .ok none
  | none, placed _ => .error (.missing name)

/-- Reads a field that may be missing, and then has a default. -/
def withDefault {α : Type} (b : Body) (place : Nat) (name : String) (default : α)
    (read : Reader α) : Except ReadError α := do
  match ← b.get? place name with
  | some v => read v
  | none => .ok default

/-- Refuses an array of more than `size` fields. -/
def sized (b : Body) (size : Nat) : Except ReadError Unit :=
  match b with
  | named _ => .ok ()
  | placed items => if items.length ≤ size then .ok () else .error (.tooLong size)

/-- The variant that the tag names, and the fields behind it. In an array the tag comes first. -/
def tagged (b : Body) (name : String) : Except ReadError (String × Body) := do
  let tag ← b.required 0 name toText
  match b with
  | named fields => .ok (tag, named fields)
  | placed items => .ok (tag, placed (items.drop 1))

end Body

/-! ## Writing -/

/-- Writes a value that may be missing. -/
def ofOption {α : Type} (write : α → Json) : Option α → Json
  | none => null
  | some a => write a

/-- Writes a list. -/
def ofList {α : Type} (write : α → Json) (as : List α) : Json := array (as.map write)

/-- Writes an unsigned 32-bit word. -/
def ofUInt32 (w : UInt32) : Json := int w.toNat

/-- Writes an unsigned 64-bit word. -/
def ofUInt64 (w : UInt64) : Json := int w.toNat

/-- Writes a signed 64-bit word. -/
def ofInt64 (w : Int64) : Json := int w.toInt

/-- Writes a natural number. -/
def ofNat (n : Nat) : Json := int n

end Json

end EnemyBehavior
