import EnemyBehavior.Ascending
import EnemyBehavior.Decimal
import EnemyBehavior.Event

/-!
# Log lines

Events that are severe enough are written to the log, one line each. Filters narrow the chatty
severities further: an event passes if its target starts with one of them, where the target is its
topic or else the part it comes from.

A line consists of the coloured severity, a context, the target, the message, and the part the event
comes from if the target is a topic. The context repeats the numbers of the enemy and of the turn
that the message mentions.
-/

namespace EnemyBehavior

/-! ## Severities -/

namespace Severity

/-- The rank of a severity; chatty severities rank high. -/
def rank : Severity → Nat
  | error => 1
  | warn => 2
  | info => 3
  | debug => 4
  | trace => 5

/-- The name of a severity. -/
def name : Severity → String
  | error => "ERROR"
  | warn => "WARN"
  | info => "INFO"
  | debug => "DEBUG"
  | trace => "TRACE"

/-- The name of a severity, filled up with blanks to the longest one. -/
def paddedName (s : Severity) : String := s.name.pushn ' ' (5 - s.name.length)

/-- The terminal sequence for the colour of a severity. -/
def colour : Severity → String
  | error => "\x1b[31m"
  | warn => "\x1b[33m"
  | info => "\x1b[32m"
  | debug => "\x1b[36m"
  | trace => "\x1b[35m"

/-- Severities that filters narrow. -/
def isChatty : Severity → Bool
  | debug | trace => true
  | _ => false

/-- The most verbose severity that is logged; without one nothing is. Names are taken in any case,
and any other text means `info`. -/
def ofName (text : String) : Option Severity :=
  let lower := text.toLower
  if lower = "off" then none
  else if lower = "error" then some error
  else if lower = "warn" then some warn
  else if lower = "debug" then some debug
  else if lower = "trace" then some trace
  else some info

/-- The name of the most verbose severity that is logged. -/
def limitName (limit : Option Severity) : String := (limit.map name).getD "OFF"

end Severity

/-! ## Filters -/

/-- The white space of Unicode. -/
def isWhiteSpace (c : Char) : Bool :=
  let n := c.toNat
  (9 ≤ n && n ≤ 13) || n == 0x20 || n == 0x85 || n == 0xA0 || n == 0x1680
    || (0x2000 ≤ n && n ≤ 0x200A) || n == 0x2028 || n == 0x2029 || n == 0x202F || n == 0x205F
    || n == 0x3000

/-- The text without white space at its ends. -/
def trimmed (text : List Char) : List Char :=
  ((text.dropWhile isWhiteSpace).reverse.dropWhile isWhiteSpace).reverse

/-- The parts of a text between commas. -/
def commaParts : List Char → List (List Char)
  | [] => [[]]
  | c :: cs =>
    if c = ',' then [] :: commaParts cs
    else
      match commaParts cs with
      | [] => [[c]]
      | part :: parts => (c :: part) :: parts

/-- The filters in a comma-separated text, ascending. -/
def filtersOfText (text : String) : List String :=
  ascending <| ((commaParts text.toList).map trimmed |>.filter (!·.isEmpty)).map String.ofList

/-- Which events are logged. -/
structure LogSettings where
  limit : Option Severity
  /-- Without filters all events of the severity are logged. -/
  filters : Option (List String)
deriving DecidableEq

/-- The target of an event. -/
def Event.target (e : Event) : String := (e.topic?.map Topic.name).getD e.source.path

/-- Whether the settings let an event through. -/
def LogSettings.shows (settings : LogSettings) (e : Event) : Bool :=
  settings.limit.any (fun limit => e.severity.rank ≤ limit.rank)
    && (!e.severity.isChatty || settings.filters.all fun filters =>
      filters.any fun filter => filter.toList.isPrefixOf e.target.toList)

/-! ## Lines -/

/-- What follows the first occurrence of `key` in a text. -/
def afterFirst? (key : List Char) : List Char → Option (List Char)
  | [] => if key.isEmpty then some [] else none
  | c :: cs =>
    if key.isPrefixOf (c :: cs) then some ((c :: cs).drop key.length) else afterFirst? key cs

/-- The number that follows the first occurrence of `key` in a text, if it is a 32-bit word. -/
def numberAfter? (key : String) (text : List Char) : Option UInt32 := do
  let digits := (← afterFirst? key.toList text).takeWhile Char.isDigit
  if digits.isEmpty then none else exactUInt32? (Decimal.value digits)

/-- The context of a message: the enemy and the turn it mentions. A message that starts with the
mark of an enemy needs none. -/
def logContext (message : String) : String :=
  let text := message.toList
  -- the message has named its enemy already
  if "[E".toList.isPrefixOf text then ""
  else
    let enemy := (numberAfter? "Enemy " text).map fun n => "[E" ++ Decimal.padded 5 n.toNat ++ "]"
    let turn := (numberAfter? "Turn " text).map fun n => "[T" ++ Decimal.padded 2 n.toNat ++ "]"
    let context := enemy.getD "" ++ turn.getD ""
    if context.isEmpty then "" else context ++ " "

/-- The log line of an event. -/
def Event.logLine (e : Event) : String :=
  let message := e.message
  e.severity.colour ++ e.severity.paddedName ++ "\x1b[0m " ++ logContext message
    ++ e.target ++ ": " ++ message
    ++ if e.target = e.source.path then "" else " [" ++ e.source.path ++ "]"

/-- The log of a sequence of events. -/
def LogSettings.log (settings : LogSettings) (events : List Event) : List String :=
  (events.filter settings.shows).map Event.logLine

end EnemyBehavior
