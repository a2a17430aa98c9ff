import DocTypes.Json.Numeral

/-!
# JSON tokens

`Json.scan` cuts a text into JSON tokens. It is a machine that reads one character
at a time, so it ends because the text does. Where the text cannot be a token it
puts `Token.malformed` and nothing after it: whoever reads the tokens from the left
meets a fault of the text exactly at the place where it stands.

A number keeps its own spelling, and beside it its value if that is a word (see
`Json.Numeral`). Digits are not preceded by a superfluous zero. A number too large for
double precision is malformed, because no reader can hold it.
-/

namespace DocTypes.Json

/-- A token of a JSON text. -/
inductive Token where
  | objectOpen
  | objectClose
  | arrayOpen
  | arrayClose
  | comma
  | colon
  | text (content : String)
  /-- A number as it is spelt, and its value if it is digits alone and fits a word. -/
  | number (spelling : String) (natural : Option Nat)
  | boolean (value : Bool)
  | null
  /-- Characters that begin no token. -/
  | malformed
  deriving DecidableEq, Repr

/-- The token of a number that has been read to its end. -/
def Numeral.token (x : Numeral) : Token :=
  if x.overflows then .malformed else .number (String.ofList x.spelling.reverse) x.natural?

/-! ## The machine -/

/-- Where the machine stands between two characters. -/
inductive Scan where
  /-- Between tokens. -/
  | between
  /-- Inside a text, with the characters so far in reverse. -/
  | text (read : List Char)
  /-- After a backslash in a text. -/
  | escape (read : List Char)
  /-- After `\u` and `count` hexadecimal digits; `high` is the first half of a pair. -/
  | hex (read : List Char) (high : Option Nat) (count value : Nat)
  /-- After the first half of a surrogate pair: a backslash is due. -/
  | pairSlash (read : List Char) (high : Nat)
  /-- After the backslash that follows a first half: a `u` is due. -/
  | pairMark (read : List Char) (high : Nat)
  /-- After a minus sign: a digit is due. -/
  | minus (x : Numeral)
  /-- After a leading zero. -/
  | zero (x : Numeral)
  /-- In the whole part. -/
  | whole (x : Numeral)
  /-- After the point: a digit is due. -/
  | point (x : Numeral)
  /-- In the fraction. -/
  | fraction (x : Numeral)
  /-- After the exponent mark: a sign or a digit is due. -/
  | exponentMark (x : Numeral)
  /-- After the sign of the exponent: a digit is due. -/
  | exponentSign (x : Numeral)
  /-- In the exponent. -/
  | exponent (x : Numeral)
  /-- Inside a word, with the characters still due and the token it stands for. -/
  | word (due : List Char) (token : Token)
  /-- After a fault. -/
  | failed
  deriving Repr

/-- Blanks between tokens: space, tab, line feed, carriage return. -/
def isBlank (c : Char) : Bool := c == ' ' || c == '\t' || c == '\n' || c == '\r'

/-- The value of a hexadecimal digit. -/
def hexValue? (c : Char) : Option Nat :=
  if '0' ≤ c && c ≤ '9' then some (c.toNat - '0'.toNat)
  else if 'a' ≤ c && c ≤ 'f' then some (c.toNat - 'a'.toNat + 10)
  else if 'A' ≤ c && c ≤ 'F' then some (c.toNat - 'A'.toNat + 10)
  else none

/-- The character a one-letter escape stands for. -/
def escaped? : Char → Option Char
  | '"' => some '"'
  | '\\' => some '\\'
  | '/' => some '/'
  | 'b' => some '\x08'
  | 'f' => some '\x0c'
  | 'n' => some '\n'
  | 'r' => some '\r'
  | 't' => some '\t'
  | _ => none

namespace Scan

/-- A fault: the token that says so, and no way back. -/
def fail : List Token × Scan := ([.malformed], .failed)

/-- Read a character between tokens. -/
def start (c : Char) : List Token × Scan :=
  if isBlank c then ([], .between)
  else match c with
    | '\x7b' => ([.objectOpen], .between)
    | '\x7d' => ([.objectClose], .between)
    | '[' => ([.arrayOpen], .between)
    | ']' => ([.arrayClose], .between)
    | ',' => ([.comma], .between)
    | ':' => ([.colon], .between)
    | '"' => ([], .text [])
    | 't' => ([], .word ['r', 'u', 'e'] (.boolean true))
    | 'f' => ([], .word ['a', 'l', 's', 'e'] (.boolean false))
    | 'n' => ([], .word ['u', 'l', 'l'] .null)
    | '-' => ([], .minus (Numeral.pushMark {} c))
    | '0' => ([], .zero (Numeral.pushWhole {} c))
    | c => if c.isDigit then ([], .whole (Numeral.pushWhole {} c)) else fail

/-- A number ends before `c`. -/
def endNumber (x : Numeral) (c : Char) : List Token × Scan :=
  match x.token with
  | .malformed => fail
  | token => let (tokens, next) := start c; (token :: tokens, next)

/-- Read a character after the whole part or the fraction of a number. -/
def afterDigits (x : Numeral) (c : Char) : List Token × Scan :=
  if c == 'e' || c == 'E' then ([], .exponentMark (x.pushMark c)) else endNumber x c

/-- Read a character after the whole part of a number. -/
def afterWhole (x : Numeral) (c : Char) : List Token × Scan :=
  if c == '.' then ([], .point (x.pushPoint c)) else afterDigits x c

/-- The four hexadecimal digits of an escape are complete. -/
def unit (read : List Char) (high : Option Nat) (value : Nat) : List Token × Scan :=
  match high with
  | some high =>
    if 0xDC00 ≤ value && value ≤ 0xDFFF then
      ([], .text (Char.ofNat (0x10000 + (high - 0xD800) * 0x400 + (value - 0xDC00)) :: read))
    else fail
  | none =>
    if 0xDC00 ≤ value && value ≤ 0xDFFF then fail
    else if 0xD800 ≤ value && value ≤ 0xDBFF then ([], .pairSlash read value)
    else ([], .text (Char.ofNat value :: read))

/-- Read one character: the tokens that are complete now, and the next state. -/
def step : Scan → Char → List Token × Scan
  | .between, c => start c
  | .text read, c =>
    if c == '"' then ([.text (String.ofList read.reverse)], .between)
    else if c == '\\' then ([], .escape read)
    else if c.toNat < 0x20 then fail
    else ([], .text (c :: read))
  | .escape read, c =>
    if c == 'u' then ([], .hex read none 0 0)
    else match escaped? c with
      | some e => ([], .text (e :: read))
      | none => fail
  | .hex read high count value, c =>
    match hexValue? c with
    | none => fail
    | some d =>
      if count == 3 then unit read high (value * 16 + d)
      else ([], .hex read high (count + 1) (value * 16 + d))
  | .pairSlash read high, c => if c == '\\' then ([], .pairMark read high) else fail
  | .pairMark read high, c => if c == 'u' then ([], .hex read (some high) 0 0) else fail
  | .minus x, c =>
    if c == '0' then ([], .zero (x.pushWhole c))
    else if c.isDigit then ([], .whole (x.pushWhole c))
    else fail
  | .zero x, c => if c.isDigit then fail else afterWhole x c
  | .whole x, c => if c.isDigit then ([], .whole (x.pushWhole c)) else afterWhole x c
  | .point x, c => if c.isDigit then ([], .fraction (x.pushFraction c)) else fail
  | .fraction x, c => if c.isDigit then ([], .fraction (x.pushFraction c)) else afterDigits x c
  | .exponentMark x, c =>
    if c == '-' then ([], .exponentSign { x.pushMark c with exponentNegative := true })
    else if c == '+' then ([], .exponentSign (x.pushMark c))
    else if c.isDigit then ([], .exponent (x.pushExponent c))
    else fail
  | .exponentSign x, c => if c.isDigit then ([], .exponent (x.pushExponent c)) else fail
  | .exponent x, c => if c.isDigit then ([], .exponent (x.pushExponent c)) else endNumber x c
  | .word [] _, _ => fail
  | .word [d] token, c => if c == d then ([token], .between) else fail
  | .word (d :: due) token, c => if c == d then ([], .word due token) else fail
  | .failed, _ => ([], .failed)

/-- The text ends here: what was still being read is a token or a fault. -/
def finish : Scan → List Token
  | .between | .failed => []
  | .zero x | .whole x | .fraction x | .exponent x => [x.token]
  | _ => [.malformed]

end Scan

/-- The tokens so far, in reverse, and the state, after one more character. -/
def advance (read : List Token × Scan) (c : Char) : List Token × Scan :=
  let (tokens, next) := read.2.step c
  (tokens.reverse ++ read.1, next)

/-- The tokens of a text, up to its first fault. -/
def scan (text : String) : List Token :=
  let (tokens, last) := text.toList.foldl advance ([], .between)
  tokens.reverse ++ last.finish

end DocTypes.Json
