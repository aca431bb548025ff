import EnemyBehavior.Decimal
import EnemyBehavior.Log

/-!
# Command lines

The arguments of the program: one input file, and options that may stand before or after it. An
option that takes a value takes it from the next argument or behind an equals sign. Behind `--` all
arguments are files. The version can be asked for instead; it is given at once, so that errors
further right do not matter.

Arguments are read one by one. What concerns all of them (that there is a file, that two options
exclude each other) is checked at the end.
-/

namespace EnemyBehavior

/-! ## Options -/

/-- The options that take a value. -/
inductive ValueOption where
  | level | enemy | debugFilter | logLevel
deriving DecidableEq

/-- The options that take none. -/
inductive SwitchOption where
  | allLevels | pretty
deriving DecidableEq

/-- What a long option name stands for. -/
inductive OptionName where
  | value (option : ValueOption)
  | switch (option : SwitchOption)
  | version
  | help
deriving DecidableEq

/-- The option with a long name. -/
def OptionName.ofLong? : String → Option OptionName
  | "level" => some (.value .level)
  | "enemy" => some (.value .enemy)
  | "debug-filter" => some (.value .debugFilter)
  | "log-level" => some (.value .logLevel)
  | "all-levels" => some (.switch .allLevels)
  | "pretty" => some (.switch .pretty)
  | "version" => some .version
  | "help" => some .help
  | _ => none

/-- The command as far as its arguments have been read. -/
structure CommandLine where
  input : Option String
  level : Option UInt32
  allLevels : Bool
  /-- The enemies to simulate; all if there are none. -/
  enemies : List UInt32
  debugFilter : Option String
  logLevel : Option String
  pretty : Bool
deriving DecidableEq

/-- Why a command line is refused. -/
inductive UsageError where
  | missingInput
  | emptyInput
  | unexpectedInput (text : String)
  | unknownOption (text : String)
  | missingValue (option : ValueOption)
  | unexpectedValue (text : String)
  | invalidNumber (text : String)
  | repeatedOption (text : String)
  | conflictingLevels
deriving DecidableEq

/-- The text a refused command line is reported with. -/
def UsageError.message : UsageError → String
  | missingInput => "no input file is given"
  | emptyInput => "the name of the input file is empty"
  | unexpectedInput text => "unexpected argument " ++ text
  | unknownOption text => "unknown option " ++ text
  | missingValue _ => "an option needs a value"
  | unexpectedValue text => "unexpected value of option " ++ text
  | invalidNumber text => "not a number of 32 bits: " ++ text
  | repeatedOption text => "option given twice: " ++ text
  | conflictingLevels => "a level and all levels exclude each other"

/-- What a command line asks for. -/
inductive Command where
  | summarize (line : CommandLine)
  | version
  | help
deriving DecidableEq

/-! ## Values -/

/-- Reads a 32-bit number: decimal digits, perhaps with a sign in front. -/
def parseNumber? (text : String) : Option UInt32 :=
  let magnitude? (digits : List Char) : Option Nat :=
    if Decimal.isDigits digits then some (Decimal.value digits) else none
  let value? : Option Int :=
    match text.toList with
    | '+' :: digits => (magnitude? digits).map Int.ofNat
    | '-' :: digits => (magnitude? digits).map fun n => -Int.ofNat n
    | digits => (magnitude? digits).map Int.ofNat
  value?.bind exactUInt32?

/-- Puts a single value into a place that must be empty. -/
def setOnce {α : Type} (name : String) (place : Option α) (value : α) :
    Except UsageError (Option α) :=
  match place with
  | none => .ok (some value)
  | some _ => .error (.repeatedOption name)

/-- Turns a switch on that must be off. -/
def switchOn (name : String) (place : Bool) : Except UsageError Bool :=
  if place then .error (.repeatedOption name) else .ok true

namespace CommandLine

def empty : CommandLine := ⟨none, none, false, [], none, none, false⟩

def number (text : String) : Except UsageError UInt32 :=
  match parseNumber? text with
  | some n => .ok n
  | none => .error (.invalidNumber text)

/-- Gives an option its value. -/
def withValue (c : CommandLine) (option : ValueOption) (text : String) :
    Except UsageError CommandLine := do
  match option with
  | .level => return { c with level := ← setOnce "--level" c.level (← number text) }
  | .enemy => return { c with enemies := c.enemies ++ [← number text] }
  | .debugFilter => return { c with debugFilter := ← setOnce "--debug-filter" c.debugFilter text }
  | .logLevel => return { c with logLevel := ← setOnce "--log-level" c.logLevel text }

/-- Turns a switch on. -/
def withSwitch (c : CommandLine) (option : SwitchOption) : Except UsageError CommandLine := do
  match option with
  | .allLevels => return { c with allLevels := ← switchOn "--all-levels" c.allLevels }
  | .pretty => return { c with pretty := ← switchOn "--pretty" c.pretty }

def withInput (c : CommandLine) (text : String) : Except UsageError CommandLine :=
  match c.input with
  | none => if text.isEmpty then .error .emptyInput else .ok { c with input := some text }
  | some _ => .error (.unexpectedInput text)

def withInputs (c : CommandLine) (texts : List String) : Except UsageError CommandLine :=
  texts.foldlM withInput c

/-- Checks a command whose arguments have all been read. -/
def checked (c : CommandLine) : Except UsageError CommandLine :=
  if c.input.isNone then .error .missingInput
  else if c.level.isSome && c.allLevels then .error .conflictingLevels
  else .ok c

/-! ## Arguments -/

/-- What an argument is by its looks. A lone dash is text. -/
inductive Argument where
  /-- The sign behind which all arguments are files. -/
  | endOfOptions
  | long (name : String) (value : Option String)
  | short (letters : List Char)
  | text (text : String)
deriving DecidableEq

/-- The look of an argument. -/
def Argument.ofString (s : String) : Argument :=
  match s.toList with
  | ['-', '-'] => .endOfOptions
  | '-' :: '-' :: cs =>
    let name := String.ofList (cs.takeWhile (· != '='))
    match cs.dropWhile (· != '=') with
    | [] => .long name none
    | _ :: value => .long name (some (String.ofList value))
  | ['-'] => .text s
  | '-' :: letters => .short letters
  | _ => .text s

/-- Reads the remaining arguments. `pending` is an option that waits for its value. -/
def parseFrom (c : CommandLine) (pending : Option ValueOption) :
    List String → Except UsageError Command
  | [] =>
    match pending with
    | some option => .error (.missingValue option)
    | none => c.checked.map .summarize
  | s :: rest =>
    match pending, Argument.ofString s with
    | some option, .text text => do (← c.withValue option text).parseFrom none rest
    | some option, _ => .error (.missingValue option)
    | none, .text text => do (← c.withInput text).parseFrom none rest
    -- what follows is no option, whatever it looks like
    | none, .endOfOptions => do return .summarize (← (← c.withInputs rest).checked)
    | none, .short ('V' :: _) => .ok .version
    | none, .short ('h' :: _) => .ok .help
    | none, .short _ => .error (.unknownOption s)
    | none, .long name value =>
      match OptionName.ofLong? name, value with
      | none, _ => .error (.unknownOption s)
      | some (.value option), some text => do (← c.withValue option text).parseFrom none rest
      | some (.value option), none => c.parseFrom (some option) rest
      | some _, some _ => .error (.unexpectedValue s)
      | some (.switch option), none => do (← c.withSwitch option).parseFrom none rest
      | some .version, none => .ok .version
      | some .help, none => .ok .help

def parse (arguments : List String) : Except UsageError Command := empty.parseFrom none arguments

/-! ## Settings -/

/-- Which events are logged. -/
def logSettings (c : CommandLine) : LogSettings where
  limit := Severity.ofName (c.logLevel.getD "info")
  filters := c.debugFilter.map filtersOfText

def levelOptions (c : CommandLine) : LevelOptions := ⟨c.level, c.allLevels⟩

/-- The enemies that the command asks for. -/
def chosen (c : CommandLine) (enemies : List Enemy) : List Enemy :=
  if c.enemies.isEmpty then enemies else enemies.filter (·.enemyId ∈ c.enemies)

end CommandLine

end EnemyBehavior
