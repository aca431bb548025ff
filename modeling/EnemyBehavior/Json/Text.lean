import EnemyBehavior.Json.Token

/-!
# JSON texts

`compact` and `pretty` write a value; `parse?` reads a text.

The parser is a machine over tokens with a stack of the containers that are open. Of a text that
nests more than `maxNesting` containers, the containers beyond that depth are unreadable. An object
is unreadable if one of its keys is.
-/

namespace EnemyBehavior.Json

/-! ## Writing -/

/-- Puts `separator` between the parts. -/
def joinTokens (separator : Token) : List (List Token) → List Token
  | [] => []
  | [part] => part
  | part :: parts => part ++ separator :: joinTokens separator parts

mutual

/-- The tokens of a value. -/
def tokens : Json → List Token
  | null => [.null]
  | bool b => [.bool b]
  | int i => [.int i]
  | real literal => [.real literal]
  | string s => [.string s]
  | unreadable => []
  | array items => .openArray :: joinTokens .comma (tokensOfItems items) ++ [.closeArray]
  | object fields => .openObject :: joinTokens .comma (tokensOfFields fields) ++ [.closeObject]
termination_by structural v => v

/-- The tokens of each item. -/
def tokensOfItems : List Json → List (List Token)
  | [] => []
  | v :: vs => v.tokens :: tokensOfItems vs
termination_by structural vs => vs

/-- The tokens of each field. -/
def tokensOfFields : List Field → List (List Token)
  | [] => []
  | (k, v) :: fs => (.string k :: .colon :: v.tokens) :: tokensOfFields fs
termination_by structural fs => fs

end

/-- The text of a value without blanks. -/
def compact (v : Json) : String := String.ofList (v.tokens.flatMap Token.chars)

/-- A new line at a depth of nesting, two blanks a level. -/
def lineBreak (depth : Nat) : String := String.ofList ('\n' :: List.replicate (2 * depth) ' ')

mutual

/-- The text of a value at a depth of nesting, one line for each item and field. -/
def prettyAt (depth : Nat) : Json → String
  | array [] => "[]"
  | object [] => "\x7b\x7d"
  | array (v :: vs) =>
    "[" ++ lineBreak (depth + 1) ++ prettyAt (depth + 1) v ++ prettyItems (depth + 1) vs
      ++ lineBreak depth ++ "]"
  | object ((k, v) :: fs) =>
    "\x7b" ++ lineBreak (depth + 1) ++ String.ofList (quote k) ++ ": " ++ prettyAt (depth + 1) v
      ++ prettyFields (depth + 1) fs ++ lineBreak depth ++ "\x7d"
  | null => "null"
  | bool b => if b then "true" else "false"
  | int i => toString i
  | real literal => literal
  | string s => String.ofList (quote s)
  | unreadable => ""
termination_by structural v => v

/-- The texts of the items behind the first. -/
def prettyItems (depth : Nat) : List Json → String
  | [] => ""
  | v :: vs => "," ++ lineBreak depth ++ prettyAt depth v ++ prettyItems depth vs
termination_by structural vs => vs

/-- The texts of the fields behind the first. -/
def prettyFields (depth : Nat) : List Field → String
  | [] => ""
  | (k, v) :: fs =>
    "," ++ lineBreak depth ++ String.ofList (quote k) ++ ": " ++ prettyAt depth v
      ++ prettyFields depth fs
termination_by structural fs => fs

end

/-- The text of a value with indentation. -/
def pretty (v : Json) : String := v.prettyAt 0

/-! ## Reading -/

/-- The most containers that are read inside one another. -/
def maxNesting : Nat := 127

/-- A key as it is read; none if it is unreadable. -/
abbrev Key := Option String

/-- The object with these fields, unreadable if one of the keys is. -/
def objectOf (fields : List (Key × Json)) : Json :=
  match fields.mapM fun (key, v) => key.map (·, v) with
  | some fields => .object fields
  | none => .unreadable

/-- A container that is open, with what it holds so far, last first. An object waits for the value
of a key. -/
inductive Frame where
  | array (items : List Json)
  | object (fields : List (Key × Json)) (key : Key)

/-- What the parser waits for. The stack holds the containers around it, innermost first. -/
inductive Parser where
  | value (stack : List Frame)
  /-- An array has just been opened. -/
  | firstItem (stack : List Frame)
  /-- An object has just been opened. -/
  | firstKey (stack : List Frame)
  | key (fields : List (Key × Json)) (stack : List Frame)
  | colon (fields : List (Key × Json)) (key : Key) (stack : List Frame)
  /-- The comma or the end behind an item. -/
  | moreItems (items : List Json) (stack : List Frame)
  /-- The comma or the end behind a field. -/
  | moreFields (fields : List (Key × Json)) (stack : List Frame)
  | done (value : Json)

namespace Parser

/-- Puts a complete value into the innermost container. -/
def deliver (v : Json) : List Frame → Parser
  | [] => .done v
  | .array items :: stack => .moreItems (v :: items) stack
  | .object fields k :: stack => .moreFields ((k, v) :: fields) stack

/-- Puts a container that has been closed into the container around it. -/
def close (v : Json) (stack : List Frame) : Parser :=
  deliver (if stack.length < maxNesting then v else .unreadable) stack

/-- Reads the first token of a value. -/
def valueStep (stack : List Frame) : Token → Option Parser
  | .null => some (deliver .null stack)
  | .bool b => some (deliver (.bool b) stack)
  | .int i => some (deliver (.int i) stack)
  | .real literal => some (deliver (.real literal) stack)
  | .string s => some (deliver (.string s) stack)
  | .hugeNumber | .brokenString => some (deliver .unreadable stack)
  | .openArray => some (.firstItem stack)
  | .openObject => some (.firstKey stack)
  | .closeArray | .closeObject | .comma | .colon => none

/-- The key that a token is. -/
def key? : Token → Option Key
  | .string k => some (some k)
  | .brokenString => some none
  | _ => none

/-- Reads one token. -/
def step : Parser → Token → Option Parser
  | .value stack, t => valueStep stack t
  | .firstItem stack, t =>
    if t = .closeArray then some (close (.array []) stack) else valueStep (.array [] :: stack) t
  | .firstKey stack, .closeObject => some (close (.object []) stack)
  | .firstKey stack, t => (key? t).map (.colon [] · stack)
  | .key fields stack, t => (key? t).map (.colon fields · stack)
  | .colon fields k stack, .colon => some (.value (.object fields k :: stack))
  | .moreItems items stack, .comma => some (.value (.array items :: stack))
  | .moreItems items stack, .closeArray => some (close (.array items.reverse) stack)
  | .moreFields fields stack, .comma => some (.key fields stack)
  | .moreFields fields stack, .closeObject => some (close (objectOf fields.reverse) stack)
  | _, _ => none

/-- The value at the end of the text. -/
def finish : Parser → Option Json
  | .done v => some v
  | _ => none

end Parser

/-- The value of a sequence of tokens. -/
def ofTokens? (ts : List Token) : Option Json :=
  (ts.foldlM Parser.step (.value [])).bind Parser.finish

/-- The value of a text. -/
def parse? (text : String) : Option Json := (tokens? text.toList).bind ofTokens?

end EnemyBehavior.Json
