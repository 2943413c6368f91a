import RegistrySync.Document.Value
import RegistrySync.Json.Numeral

/-!
Values that can be kept without knowing what they are for: all their text is text, their numbers are
in range, and they are not nested too deeply, if there is a limit to that.
-/

namespace RegistrySync.Value

mutual

/-- Whether a value can be kept where there is room for some levels more, or for any number. -/
def isKept (room : Option Nat) : Value → Bool
  | number digits => Json.Numeral.isFinite digits.toList
  | array items | sequence items => room ≠ some 0 && areKept (room.map (· - 1)) items
  | object members => room ≠ some 0 && areMembersKept (room.map (· - 1)) members
  | malformed => false
  | null | bool _ | text _ | scalar _ _ _ => true

def areKept (room : Option Nat) : List Value → Bool
  | [] => true
  | v :: rest => isKept room v && areKept room rest

def areMembersKept (room : Option Nat) : List (String × Value) → Bool
  | [] => true
  | (_, v) :: rest => isKept room v && areMembersKept room rest

end

end RegistrySync.Value
