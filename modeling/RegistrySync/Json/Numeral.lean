/-!
JSON numbers: which texts are numbers, and which numbers are too large for a floating one.
-/

namespace RegistrySync.Json.Numeral

inductive State where
  | start
  | minus
  | zero
  | whole
  | point
  | fraction
  | mark
  | sign
  | exponent
  deriving DecidableEq

def isDigit (c : Char) : Bool := '0' ≤ c && c ≤ '9'

def isMark (c : Char) : Bool := c = 'e' || c = 'E'

/-- A whole part has no leading zeros. -/
def step : State → Char → Option State
  | .start, c =>
    if c = '-' then some .minus
    else if c = '0' then some .zero
    else if isDigit c then some .whole
    else none
  | .minus, c => if c = '0' then some .zero else if isDigit c then some .whole else none
  | .zero, c => if c = '.' then some .point else if isMark c then some .mark else none
  | .whole, c =>
    if isDigit c then some .whole
    else if c = '.' then some .point
    else if isMark c then some .mark
    else none
  | .point, c => if isDigit c then some .fraction else none
  | .fraction, c =>
    if isDigit c then some .fraction else if isMark c then some .mark else none
  | .mark, c =>
    if isDigit c then some .exponent else if c = '+' || c = '-' then some .sign else none
  | .sign, c => if isDigit c then some .exponent else none
  | .exponent, c => if isDigit c then some .exponent else none

def accepts (cs : List Char) : Bool :=
  match cs.foldlM step .start with
  | some .zero | some .whole | some .fraction | some .exponent => true
  | _ => false

def value (digits : List Char) : Nat :=
  digits.foldl (fun n c => if isDigit c then 10 * n + (c.toNat - 48) else n) 0

/-- Whether the magnitude of a number stays below the floating range, which ends at two to the
power 1024. -/
def isFinite (cs : List Char) : Bool :=
  let mantissa := cs.takeWhile fun c => !isMark c
  let power := cs.drop (mantissa.length + 1)
  let fraction := (mantissa.dropWhile (· ≠ '.')).drop 1
  let digits := value mantissa
  let size : Int := if power.head? = some '-' then -value power else value power
  let scale := size - fraction.length
  if digits = 0 || scale + mantissa.length < 300 then true
  else if scale > 400 then false
  else digits * Nat.pow 10 scale.toNat < Nat.pow 2 1024 * Nat.pow 10 (-scale).toNat

end RegistrySync.Json.Numeral
