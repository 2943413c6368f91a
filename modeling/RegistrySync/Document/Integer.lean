import RegistrySync.Document.Value
import RegistrySync.Text.Hex

/-!
Integers of 64 bits in a document: JSON writes them in decimal, YAML in decimal, hexadecimal, octal
or binary.
-/

namespace RegistrySync.Integer

def fits (n : Int) : Bool :=
  -0x8000000000000000 ≤ n && n < 0x8000000000000000

def digits? (base : Nat) (cs : List Char) : Option Nat :=
  if cs.isEmpty then none
  else cs.foldlM (fun n c => do
    let d ← Hex.value? c
    if d < base then some (base * n + d) else none) 0

def signed : List Char → Bool × List Char
  | '-' :: cs => (true, cs)
  | '+' :: cs => (false, cs)
  | cs => (false, cs)

def ofMagnitude? (negative : Bool) (n : Option Nat) : Option Int := do
  let magnitude ← n
  let value : Int := if negative then -magnitude else magnitude
  if fits value then return value else none

/-- A number that starts with a zero and goes on with a digit is text. -/
def ofScalar? (cs : List Char) : Option Int :=
  let (negative, magnitude) := signed cs
  match magnitude with
  | '0' :: 'x' :: cs => ofMagnitude? negative (digits? 16 cs)
  | '0' :: 'o' :: cs => ofMagnitude? negative (digits? 8 cs)
  | '0' :: 'b' :: cs => ofMagnitude? negative (digits? 2 cs)
  | '0' :: _ :: _ => none
  | cs => ofMagnitude? negative (digits? 10 cs)

/-- A minus zero, a fraction or an exponent makes a number a floating one. -/
def ofNumber? : List Char → Option Int
  | ['-', '0'] => none
  | '-' :: cs => ofMagnitude? true (digits? 10 cs)
  | cs => ofMagnitude? false (digits? 10 cs)

end RegistrySync.Integer

namespace RegistrySync.Value

def integer? : Value → Option Int
  | number digits => Integer.ofNumber? digits.toList
  | v => do Integer.ofScalar? (← v.typedText? intTag).toList

end RegistrySync.Value
