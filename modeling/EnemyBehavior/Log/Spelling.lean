import EnemyBehavior.Shape
import EnemyBehavior.TurnMap

/-!
# How values are spelled in log lines

A value with named parts is spelled `Name { part: value, … }`, or by its name alone if it has no
parts. Names of values are capitalised. A value that may be missing is spelled `None` or
`Some(value)`, and truth values and numbers as usual.
-/

namespace EnemyBehavior.Spelling

/-! ## Building blocks -/

/-- Writes the parts with a comma between them. -/
def commas (parts : List String) : String := ", ".intercalate parts

/-- A list. -/
def list (items : List String) : String := "[" ++ commas items ++ "]"

/-- A set, or the entries of a map. -/
def set (members : List String) : String := "\x7b" ++ commas members ++ "\x7d"

/-- A value with named parts. -/
def record (name : String) (parts : List (String × String)) : String :=
  if parts.isEmpty then name
  else name ++ " \x7b " ++ commas (parts.map fun part => part.1 ++ ": " ++ part.2) ++ " \x7d"

/-- A value that may be missing. -/
def option (value : Option String) : String :=
  match value with
  | none => "None"
  | some text => "Some(" ++ text ++ ")"

/-- A truth value. -/
def truth (b : Bool) : String := if b then "true" else "false"

/-- A set of words. -/
def words (ws : List UInt32) : String := set (ws.map toString)

/-- A list of words. -/
def wordList (ws : List UInt32) : String := list (ws.map toString)

/-- A mask in binary digits. -/
def binary (mask : UInt64) : String := "0b" ++ String.ofList (Nat.toDigits 2 mask.toNat)

/-- The characters of a name with each word capitalised and joined. `start` holds at the first
character of a word. -/
def capitalised : (start : Bool) → List Char → List Char
  | _, [] => []
  | start, c :: cs =>
    if c = '_' then capitalised true cs
    else (if start then c.toUpper else c) :: capitalised false cs

/-- The name `orb_change` as `OrbChange`. -/
def typeName (name : String) : String := String.ofList (capitalised true name.toList)

/-! ## Values -/

/-- A parameter. -/
def scalar : Scalar → String
  | .number i => toString i
  | .optional i => option (i.map toString)
  | .numbers is => list (is.map toString)
  | .flag b => truth b
  | .word name => typeName name

/-- The parts of a flat value. -/
def parts (s : Shape) : List (String × String) := s.fields.map fun f => (f.1, scalar f.2)

/-- A flat value. -/
def shape (s : Shape) : String := record (typeName s.name) (parts s)

mutual

/-- An action. -/
def action : Action → String
  | .mk skillId k condition =>
    record "Action" [("skill_id", toString skillId), ("kind", kind k),
      ("condition", option (condition.map fun c => shape c.shape))]
termination_by structural a => a

/-- A kind of action. -/
def kind : ActionKind → String
  | .effect e => shape e.shape
  | .skillSet skills onDeath =>
    record (typeName skillSetName) [("skills", list (actionTexts skills)),
      ("on_death", truth onDeath)]
termination_by structural k => k

/-- Each of several actions. -/
def actionTexts : List Action → List String
  | [] => []
  | a :: as => action a :: actionTexts as
termination_by structural as => as

end

def actions (as : List Action) : String := list (actionTexts as)

/-- A node. -/
def node : Node → String
  | .action a => "Action(" ++ action a ++ ")"
  | n => shape n.shape

/-- What is done on a turn, by ascending HP. -/
def turnMap (m : TurnMap) : String :=
  set (m.entries.reverse.map fun e => toString e.1 ++ ": " ++ actions e.2)

end EnemyBehavior.Spelling
