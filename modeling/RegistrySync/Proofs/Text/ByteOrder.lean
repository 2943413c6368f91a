import Mathlib.Data.String.Basic
import Mathlib.Tactic.SplitIfs

/-!
The order of texts is the order of their UTF-8 bytes.
-/

namespace RegistrySync.Text

def bytes (s : String) : List UInt8 :=
  s.toUTF8.data.toList

theorem bytes_eq_flatMap (s : String) : bytes s = s.toList.flatMap String.utf8EncodeChar := by
  have hchars : s.toByteArray = s.toList.utf8Encode := by
    rw [← String.toByteArray_ofList, String.ofList_toList]
  rw [bytes, String.toUTF8_eq_toByteArray, hchars]
  exact List.toList_data_toByteArray

/-- A smaller character has the smaller bytes up to the first byte that differs, so whatever follows
the two does not matter. -/
theorem utf8EncodeChar_append_lt {c d : Char} (h : c < d) (xs ys : List UInt8)
    : String.utf8EncodeChar c ++ xs < String.utf8EncodeChar d ++ ys := by
  have hval : c.val.toNat < d.val.toNat := UInt32.lt_iff_toNat_lt.mp h
  have hd : d.val.toNat < 0x110000 := by
    cases d.valid <;> omega
  have htail : ∀ n, (n % 64 + 128) % 256 = n % 64 + 128 := by omega
  have hlead : ∀ n, (n % 8 + 240) % 256 = n % 8 + 240 := by omega
  -- omega relates the digits of a number only if each is a digit of the one before
  have hdigit₂ : ∀ n, n / 4096 = n / 64 / 64 := by omega
  have hdigit₃ : ∀ n, n / 262144 = n / 64 / 64 / 64 := by omega
  unfold String.utf8EncodeChar
  generalize c.val.toNat = v at hval
  generalize d.val.toNat = w at hval hd
  dsimp only
  split_ifs
  all_goals
    simp only [List.cons_append, List.nil_append, List.cons_lt_cons_iff, UInt8.lt_iff_toNat_lt,
      ← UInt8.toNat_inj, UInt8.toNat_ofNat', Nat.reducePow, htail, hlead, hdigit₂, hdigit₃]
    omega

theorem flatMap_utf8EncodeChar_lt {cs ds : List Char} (h : cs < ds)
    : cs.flatMap String.utf8EncodeChar < ds.flatMap String.utf8EncodeChar := by
  induction h with
  | nil =>
    next d ds =>
    rw [List.flatMap_nil, List.flatMap_cons]
    cases hd : String.utf8EncodeChar d with
    | nil => exact absurd hd String.utf8EncodeChar_ne_nil
    | cons byte rest => exact List.nil_lt_cons _ _
  | rel h =>
    rw [List.flatMap_cons, List.flatMap_cons]
    exact utf8EncodeChar_append_lt h _ _
  | cons _ ih =>
    rw [List.flatMap_cons, List.flatMap_cons]
    exact List.append_left_lt ih

theorem bytes_lt_of_lt {s t : String} (h : s < t) : bytes s < bytes t := by
  rw [bytes_eq_flatMap, bytes_eq_flatMap]
  exact flatMap_utf8EncodeChar_lt (String.lt_iff_toList_lt.mp h)

theorem bytes_lt_iff (s t : String) : bytes s < bytes t ↔ s < t := by
  constructor
  . intro h
    rcases lt_trichotomy s t with hst | rfl | hts
    . exact hst
    . exact absurd h (List.lt_irrefl _)
    . exact absurd h (List.lt_asymm (bytes_lt_of_lt hts))
  . exact bytes_lt_of_lt

end RegistrySync.Text
