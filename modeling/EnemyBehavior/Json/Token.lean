import EnemyBehavior.Decimal
import EnemyBehavior.Json

/-!
# JSON tokens

The text of a JSON value is a sequence of tokens with blanks between them. `Token.text` writes one
token, and `Lexer` reads a text into tokens.

The lexer is a machine that takes one character at a time. Characters of names and numbers gather
until another character ends the word; only then the word is judged. So two words that touch are
one word, and refused if there is no such word.
-/

namespace EnemyBehavior.Json

/-- A JSON token. -/
inductive Token where
  | openArray | closeArray | openObject | closeObject | comma | colon
  | null
  | bool (value : Bool)
  | int (value : Int)
  | real (literal : String)
  | string (value : String)
  /-- A number too large for a double. -/
  | hugeNumber
  /-- A quoted text with half a surrogate pair. -/
  | brokenString
deriving DecidableEq

/-! ## Writing -/

/-- The hexadecimal digit of a value below 16. -/
def hexDigit (n : Nat) : Char := if n < 10 then Char.ofNat (48 + n) else Char.ofNat (87 + n)

/-- A character as it stands inside a quoted text. -/
def escapeChar (c : Char) : List Char :=
  if c = '"' then ['\\', '"']
  else if c = '\\' then ['\\', '\\']
  else if 32 ≤ c.toNat then [c]
  else if c = '\n' then ['\\', 'n']
  else if c = '\r' then ['\\', 'r']
  else if c = '\t' then ['\\', 't']
  else if c.toNat = 8 then ['\\', 'b']
  else if c.toNat = 12 then ['\\', 'f']
  else ['\\', 'u', '0', '0', hexDigit (c.toNat / 16), hexDigit (c.toNat % 16)]

/-- A quoted text. -/
def quote (s : String) : List Char := '"' :: s.toList.flatMap escapeChar ++ ['"']

/-- A token as it is written. One beyond representation is not. -/
def Token.chars : Token → List Char
  | openArray => ['[']
  | closeArray => [']']
  | openObject => ['\x7b']
  | closeObject => ['\x7d']
  | comma => [',']
  | colon => [':']
  | null => "null".toList
  | bool true => "true".toList
  | bool false => "false".toList
  | int i => (toString i).toList
  | real literal => literal.toList
  | string s => quote s
  | hugeNumber | brokenString => []

/-! ## Names and numbers -/

/-- Digits of which the first is zero only if it is the only one. -/
def isWholePart : List Char → Bool
  | [] => false
  | ['0'] => true
  | d :: ds => d != '0' && (d :: ds).all Char.isDigit

/-- A number as it is written. -/
structure NumberText where
  negative : Bool
  whole : List Char
  fraction : List Char
  exponent : Int
  /-- There is neither a fraction nor an exponent. -/
  inFull : Bool
deriving DecidableEq

/-- The value of an exponent. Without one it is zero. -/
def exponent? : List Char → Option Int
  | [] => some 0
  | e :: cs =>
    if e = 'e' ∨ e = 'E' then
      match cs with
      | '+' :: ds => if Decimal.isDigits ds then some (Decimal.value ds) else none
      | '-' :: ds => if Decimal.isDigits ds then some (-Decimal.value ds) else none
      | ds => if Decimal.isDigits ds then some (Decimal.value ds) else none
    else none

/-- The parts of a number behind its sign. -/
def magnitude? (negative : Bool) (text : List Char) : Option NumberText :=
  let whole := text.takeWhile Char.isDigit
  if isWholePart whole then
    match text.dropWhile Char.isDigit with
    | [] => some ⟨negative, whole, [], 0, true⟩
    | '.' :: cs =>
      let fraction := cs.takeWhile Char.isDigit
      if fraction.isEmpty then none
      else (exponent? (cs.dropWhile Char.isDigit)).map (⟨negative, whole, fraction, ·, false⟩)
    | cs => (exponent? cs).map (⟨negative, whole, [], ·, false⟩)
  else none

/-- The parts of a number. -/
def numberText? : List Char → Option NumberText
  | '-' :: text => magnitude? true text
  | text => magnitude? false text

/-- The token of a number with these parts. -/
def NumberText.token (n : NumberText) (text : List Char) : Token :=
  let whole := Decimal.value n.whole
  if Decimal.exceedsDouble n.whole n.fraction n.exponent then .hugeNumber
  else if n.inFull && !(n.negative && whole == 0) then
    .int (if n.negative then -(whole : Int) else whole)
  else .real (String.ofList text)

/-- The token of a name or a number. -/
def bareToken? (word : List Char) : Option Token :=
  if word = "null".toList then some .null
  else if word = "true".toList then some (.bool true)
  else if word = "false".toList then some (.bool false)
  else (numberText? word).map (·.token word)

/-! ## Quoted texts -/

/-- The first half of a surrogate pair. -/
def isHighSurrogate (code : Nat) : Bool := 0xD800 ≤ code && code < 0xDC00

/-- The second half of a surrogate pair. -/
def isLowSurrogate (code : Nat) : Bool := 0xDC00 ≤ code && code < 0xE000

/-- The text of character codes among which surrogates stand for a character in pairs, and only in
pairs. -/
def textOfCodes? : List Nat → Option (List Char)
  | [] => some []
  | code :: codes =>
    if isHighSurrogate code then
      match codes with
      | [] => none
      | low :: codes =>
        if isLowSurrogate low then
          (textOfCodes? codes).map
            (Char.ofNat (0x10000 + (code - 0xD800) * 0x400 + (low - 0xDC00)) :: ·)
        else none
    else if isLowSurrogate code then none
    else (textOfCodes? codes).map (Char.ofNat code :: ·)

/-- The token of a quoted text with these character codes. -/
def quotedToken (codes : List Nat) : Token :=
  match textOfCodes? codes with
  | some text => .string (String.ofList text)
  | none => .brokenString

/-! ## Reading -/

/-- What the lexer is inside of. Gathered characters and codes are kept last first. -/
inductive LexerMode where
  | gap
  /-- A name or a number. -/
  | bare (word : List Char)
  /-- A quoted text. -/
  | quoted (codes : List Nat)
  /-- A quoted text, behind a backslash. -/
  | escape (codes : List Nat)
  /-- A quoted text, inside the four digits of a character code. -/
  | code (codes : List Nat) (digits : List Nat)
deriving DecidableEq

/-- The tokens read so far, last first, and what the lexer is inside of. -/
structure Lexer where
  tokens : List Token
  mode : LexerMode
deriving DecidableEq

namespace Lexer

/-- The four blanks of JSON. -/
def isBlank (c : Char) : Bool := c == ' ' || c == '\t' || c == '\n' || c == '\r'

/-- The characters of names and numbers. -/
def isBare (c : Char) : Bool := c.isAlphanum || c == '-' || c == '+' || c == '.'

/-- The token that is one character. -/
def punctuation? : Char → Option Token
  | '[' => some .openArray
  | ']' => some .closeArray
  | '\x7b' => some .openObject
  | '\x7d' => some .closeObject
  | ',' => some .comma
  | ':' => some .colon
  | _ => none

/-- The value of a hexadecimal digit. -/
def hexValue? (c : Char) : Option Nat :=
  if '0' ≤ c ∧ c ≤ '9' then some (c.toNat - 48)
  else if 'a' ≤ c ∧ c ≤ 'f' then some (c.toNat - 87)
  else if 'A' ≤ c ∧ c ≤ 'F' then some (c.toNat - 55)
  else none

/-- The code of the character that a one-letter escape stands for. -/
def escaped? : Char → Option Nat
  | '"' => some 34
  | '\\' => some 92
  | '/' => some 47
  | 'b' => some 8
  | 'f' => some 12
  | 'n' => some 10
  | 'r' => some 13
  | 't' => some 9
  | _ => none

/-- Reads a character that no token extends to. -/
def gapStep (tokens : List Token) (c : Char) : Option Lexer :=
  if isBlank c then some ⟨tokens, .gap⟩
  else if c = '"' then some ⟨tokens, .quoted []⟩
  else if isBare c then some ⟨tokens, .bare [c]⟩
  else (punctuation? c).map fun t => ⟨t :: tokens, .gap⟩

/-- Reads one character. -/
def step (l : Lexer) (c : Char) : Option Lexer :=
  match l.mode with
  | .gap => gapStep l.tokens c
  | .bare word =>
    if isBare c then some { l with mode := .bare (c :: word) }
    -- the word ends here; `c` is read as behind a gap
    else (bareToken? word.reverse).bind fun t => gapStep (t :: l.tokens) c
  | .quoted codes =>
    if c = '"' then some ⟨quotedToken codes.reverse :: l.tokens, .gap⟩
    else if c = '\\' then some { l with mode := .escape codes }
    else if c.toNat < 32 then none
    else some { l with mode := .quoted (c.toNat :: codes) }
  | .escape codes =>
    if c = 'u' then some { l with mode := .code codes [] }
    else (escaped? c).map fun code => { l with mode := .quoted (code :: codes) }
  | .code codes digits =>
    (hexValue? c).map fun d =>
      match digits with
      -- the fourth digit completes the code
      | [d2, d1, d0] =>
        { l with mode := .quoted ((((d0 * 16 + d1) * 16 + d2) * 16 + d) :: codes) }
      | _ => { l with mode := .code codes (d :: digits) }

/-- The tokens at the end of the text. A quoted text must have been closed. -/
def finish (l : Lexer) : Option (List Token) :=
  match l.mode with
  | .gap => some l.tokens.reverse
  | .bare word => (bareToken? word.reverse).map fun t => (t :: l.tokens).reverse
  | _ => none

end Lexer

/-- The tokens of a text. -/
def tokens? (text : List Char) : Option (List Token) :=
  (text.foldlM Lexer.step ⟨[], .gap⟩).bind Lexer.finish

end EnemyBehavior.Json
