import RegistrySync.Json.Numeral
import RegistrySync.Text.Hex

/-!
JSON tokens. The lexer reads one character at a time; a string with half of a surrogate pair is a
token without a text.
-/

namespace RegistrySync.Json

inductive Token where
  | openBrace
  | closeBrace
  | openBracket
  | closeBracket
  | comma
  | colon
  | null
  | bool (b : Bool)
  | number (digits : String)
  | text (s : Option String)
  deriving DecidableEq, Repr

namespace Token

/-- A string that is being read: its characters, last first, whether all of them are characters,
and the first half of a surrogate pair whose second half has to follow at once. -/
structure Open where
  chars : List Char
  isSound : Bool
  half : Option Nat

namespace Open

def empty : Open := ⟨[], true, none⟩

def push (o : Open) (c : Char) : Open :=
  ⟨c :: o.chars, o.isSound && o.half.isNone, none⟩

def pushUnit (o : Open) (n : Nat) : Open :=
  match o.half with
  | some high =>
    if 0xDC00 ≤ n ∧ n < 0xE000 then
      ⟨Char.ofNat (0x10000 + 0x400 * (high - 0xD800) + (n - 0xDC00)) :: o.chars, o.isSound, none⟩
    else ⟨o.chars, false, none⟩
  | none =>
    if 0xD800 ≤ n ∧ n < 0xDC00 then ⟨o.chars, o.isSound, some n⟩
    else if 0xDC00 ≤ n ∧ n < 0xE000 then ⟨o.chars, false, none⟩
    else ⟨Char.ofNat n :: o.chars, o.isSound, none⟩

def close (o : Open) : Token :=
  .text (if o.isSound && o.half.isNone then some (String.ofList o.chars.reverse) else none)

end Open

inductive State where
  | between
  | word (chars : List Char)
  | number (chars : List Char)
  | text (o : Open)
  | escape (o : Open)
  | unit (o : Open) (count value : Nat)

def isBlank (c : Char) : Bool :=
  c = ' ' || c = '\t' || c = '\n' || c = '\r'

def isNumeric (c : Char) : Bool :=
  Numeral.isDigit c || c = '-' || c = '+' || c = '.' || Numeral.isMark c

def isLetter (c : Char) : Bool := 'a' ≤ c && c ≤ 'z'

def ofWord? (s : List Char) : Option Token :=
  if s = "null".toList then some .null
  else if s = "true".toList then some (.bool true)
  else if s = "false".toList then some (.bool false)
  else none

def ofNumeral? (s : List Char) : Option Token :=
  if Numeral.accepts s then some (.number (String.ofList s)) else none

def ofPunctuation? (c : Char) : Option Token :=
  if c = '\x7b' then some .openBrace
  else if c = '\x7d' then some .closeBrace
  else if c = '[' then some .openBracket
  else if c = ']' then some .closeBracket
  else if c = ',' then some .comma
  else if c = ':' then some .colon
  else none

def begin (c : Char) : Option (List Token × State) :=
  match ofPunctuation? c with
  | some t => some ([t], .between)
  | none =>
    if isBlank c then some ([], .between)
    else if c = '"' then some ([], .text .empty)
    else if isLetter c then some ([], .word [c])
    else if isNumeric c then some ([], .number [c])
    else none

def ofEscape? (c : Char) : Option Char :=
  if c = '"' ∨ c = '\\' ∨ c = '/' then some c
  else if c = 'b' then some '\x08'
  else if c = 'f' then some '\x0c'
  else if c = 'n' then some '\n'
  else if c = 'r' then some '\r'
  else if c = 't' then some '\t'
  else none

def step (s : State) (c : Char) : Option (List Token × State) :=
  match s with
  | .between => begin c
  | .word chars =>
    if isLetter c then some ([], .word (c :: chars)) else do
      let t ← ofWord? chars.reverse
      let (ts, s) ← begin c
      return (t :: ts, s)
  | .number chars =>
    if isNumeric c then some ([], .number (c :: chars)) else do
      let t ← ofNumeral? chars.reverse
      let (ts, s) ← begin c
      return (t :: ts, s)
  | .text o =>
    if c = '"' then some ([o.close], .between)
    else if c = '\\' then some ([], .escape o)
    else if c.toNat < 32 then none
    else some ([], .text (o.push c))
  | .escape o =>
    if c = 'u' then some ([], .unit o 0 0)
    else do return ([], .text (o.push (← ofEscape? c)))
  | .unit o count value => do
    let value := 16 * value + (← Hex.value? c)
    return ([], if count < 3 then .unit o (count + 1) value else .text (o.pushUnit value))

def finish : State → Option (List Token)
  | .between => some []
  | .word chars => (ofWord? chars.reverse).map ([·])
  | .number chars => (ofNumeral? chars.reverse).map ([·])
  | _ => none

def lexFrom (s : State) : List Char → Option (List Token)
  | [] => finish s
  | c :: rest => do
    let (ts, s) ← step s c
    return ts ++ (← lexFrom s rest)

def lex : List Char → Option (List Token) :=
  lexFrom .between

end Token
end RegistrySync.Json
