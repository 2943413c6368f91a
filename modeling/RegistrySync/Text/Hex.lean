/-!
Hexadecimal digits: the value of a digit, and the lower and upper case digit of a value.
-/

namespace RegistrySync.Hex

/-- Values above fifteen have no digit and are written as the last one. -/
def lower (n : Nat) : Char :=
  if n < 10 then Char.ofNat (n + 48) else if n < 16 then Char.ofNat (n + 87) else 'f'

def upper (n : Nat) : Char :=
  if n < 10 then Char.ofNat (n + 48) else if n < 16 then Char.ofNat (n + 55) else 'F'

/-- Either case is read. -/
def value? (c : Char) : Option Nat :=
  if '0' ≤ c ∧ c ≤ '9' then some (c.toNat - 48)
  else if 'a' ≤ c ∧ c ≤ 'f' then some (c.toNat - 87)
  else if 'A' ≤ c ∧ c ≤ 'F' then some (c.toNat - 55)
  else none

def ofByte (b : UInt8) : List Char :=
  [lower (b.toNat / 16), lower (b.toNat % 16)]

def ofBytes (bytes : List UInt8) : String :=
  String.ofList (bytes.flatMap ofByte)

/-- Reads pairs of digits; an odd count or another character is refused. -/
def toBytes? : List Char → Option (List UInt8)
  | [] => some []
  | high :: low :: rest => do
    let h ← value? high
    let l ← value? low
    let bytes ← toBytes? rest
    return UInt8.ofNat (16 * h + l) :: bytes
  | [_] => none

end RegistrySync.Hex
