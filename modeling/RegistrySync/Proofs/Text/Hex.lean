import RegistrySync.Text.Hex

/-!
A hexadecimal digit of either case is read as the value it was written for.
-/

namespace RegistrySync.Hex

theorem value?_lower {n : Nat} (h : n < 16) : value? (lower n) = some n := by
  revert n
  decide

theorem value?_upper {n : Nat} (h : n < 16) : value? (upper n) = some n := by
  revert n
  decide

end RegistrySync.Hex
