import Mathlib.Data.List.TakeWhile
import RegistrySync.Text.Timestamp

/-!
Points in time as they are mostly written: in UTC, with digits of fixed width and nothing between
the parts but their separators. Each part is read back and leaves what follows it.
-/

namespace RegistrySync.Timestamp

open Json.Numeral (isDigit value)

/-! ### Digits -/

/-- The last digits of a number, as many as a width has. -/
def digitsOf : Nat → Nat → List Char
  | 0, _ => []
  | width + 1, n => digitsOf width (n / 10) ++ [Nat.digitChar (n % 10)]

theorem digitChar_spec {d : Nat} (h : d < 10)
    : isDigit d.digitChar = true ∧ d.digitChar.toNat - 48 = d ∧ isSpace d.digitChar = false := by
  revert d
  decide

theorem digitChar_ne_sign {d : Nat} (h : d < 10) : d.digitChar ≠ '-' ∧ d.digitChar ≠ '+' := by
  revert d
  decide

theorem length_digitsOf (width n : Nat) : (digitsOf width n).length = width := by
  induction width generalizing n with
  | zero => rfl
  | succ width ih => rw [digitsOf, List.length_append, ih, List.length_singleton]

theorem exists_of_mem_digitsOf {width n : Nat} {c : Char} (h : c ∈ digitsOf width n)
    : ∃ d < 10, d.digitChar = c := by
  induction width generalizing n with
  | zero => nomatch h
  | succ width ih =>
    rw [digitsOf, List.mem_append, List.mem_singleton] at h
    rcases h with h | rfl
    . exact ih h
    . exact ⟨n % 10, Nat.mod_lt n (by decide), rfl⟩

theorem isDigit_of_mem_digitsOf {width n : Nat} {c : Char} (h : c ∈ digitsOf width n)
    : isDigit c = true := by
  obtain ⟨d, hd, rfl⟩ := exists_of_mem_digitsOf h
  exact (digitChar_spec hd).1

theorem exists_cons_eq_digitsOf {width : Nat} (hwidth : 0 < width) (n : Nat)
    : ∃ d < 10, ∃ cs, d.digitChar :: cs = digitsOf width n := by
  match hdigits : digitsOf width n with
  | [] =>
    have hlength := length_digitsOf width n
    rw [hdigits] at hlength
    exact absurd hlength (Nat.ne_of_lt hwidth)
  | c :: cs =>
    obtain ⟨d, hd, rfl⟩ := exists_of_mem_digitsOf (hdigits ▸ List.mem_cons_self (a := c))
    exact ⟨d, hd, cs, rfl⟩

theorem value_digitsOf {width n : Nat} (h : n < Nat.pow 10 width)
    : value (digitsOf width n) = n := by
  induction width generalizing n with
  | zero => exact (Nat.lt_one_iff.mp h).symm
  | succ width ih =>
    have hbound : n < Nat.pow 10 width * 10 := h
    obtain ⟨hdigit, hvalue, -⟩ := digitChar_spec (Nat.mod_lt n (by decide : 10 > 0))
    have hrest : value (digitsOf width (n / 10)) = n / 10 := ih (Nat.div_lt_of_lt_mul (by omega))
    unfold value at hrest ⊢
    rw [digitsOf, List.foldl_append, hrest, List.foldl_cons, List.foldl_nil, if_pos hdigit, hvalue,
      Nat.div_add_mod]

/-! ### Parts of a time -/

namespace Reader

theorem run_bind_of_eq {α β : Type} {r : Reader α} {f : α → Reader β} {cs rest : List Char} {a : α}
    (h : r.run cs = some (a, rest)) : (r >>= f).run cs = (f a).run rest := by
  rw [StateT.run_bind, h]
  rfl

theorem run_skip_cons {ignored : Char → Bool} {c : Char} (h : ignored c = false) (rest : List Char)
    : (skip ignored).run (c :: rest) = some ((), c :: rest) :=
  congrArg (fun cs => some ((), cs)) (List.dropWhile_cons_of_neg (by simp [h]))

theorem run_skip_digitsOf {width : Nat} (hwidth : 0 < width) (n : Nat) (rest : List Char)
    : (skip isSpace).run (digitsOf width n ++ rest) = some ((), digitsOf width n ++ rest) := by
  obtain ⟨d, hd, cs, hdigits⟩ := exists_cons_eq_digitsOf hwidth n
  rw [← hdigits]
  exact run_skip_cons (digitChar_spec hd).2.2 _

theorem run_digits {width n : Nat} (hwidth : 0 < width) (h : n < Nat.pow 10 width) (rest : List Char)
    : (digits width).run (digitsOf width n ++ rest) = some (n, rest) := by
  have hlength := length_digitsOf width n
  have htaken : ((digitsOf width n ++ rest).take width).takeWhile isDigit = digitsOf width n := by
    rw [List.take_left' hlength]
    exact List.takeWhile_eq_self_iff.mpr fun _ => isDigit_of_mem_digitsOf
  have hsome : (digitsOf width n).isEmpty = false := by
    rw [List.isEmpty_eq_false_iff, ← List.length_pos_iff, hlength]
    exact hwidth
  simp only [digits, StateT.run_bind, StateT.run_get, Option.pure_def, Option.bind_eq_bind,
    Option.bind_some, htaken, hsome]
  simp [value_digitsOf h]

theorem run_number {low high n : Nat} (hlow : low ≤ n) (hhigh : n ≤ high) (h : n < 100)
    (rest : List Char) : (number low high).run (digitsOf 2 n ++ rest) = some (n, rest) := by
  rw [number, run_bind_of_eq (run_skip_digitsOf (by decide) n rest),
    run_bind_of_eq (run_digits (by decide) h rest), if_pos (by simp [hlow, hhigh])]
  rfl

theorem run_year {n : Nat} (h : n < 10000) (rest : List Char)
    : year.run (digitsOf 4 n ++ rest) = some ((n : Int), rest) := by
  have hskip := run_skip_digitsOf (by decide : 0 < 4) n rest
  have hdigits := run_digits (by decide : 0 < 4) h rest
  obtain ⟨d, hd, cs, heq⟩ := exists_cons_eq_digitsOf (by decide : 0 < 4) n
  rw [← heq, List.cons_append] at hskip hdigits ⊢
  simp only [year, StateT.run_bind, StateT.run_get, Option.pure_def, Option.bind_eq_bind, hskip,
    Option.bind_some]
  split
  next h => exact absurd (List.cons.inj h).1 (digitChar_ne_sign hd).1
  next h => exact absurd (List.cons.inj h).1 (digitChar_ne_sign hd).2
  next => simp [hdigits]

theorem run_oneOf {wanted : List Char} {c : Char} (h : c ∈ wanted) (rest : List Char)
    : (oneOf wanted).run (c :: rest) = some (c, rest) := by
  simp [oneOf, h]

theorem run_separator {c : Char} (h : isSpace c = false) (rest : List Char)
    : (separator c).run (c :: rest) = some ((), rest) := by
  rw [separator, run_bind_of_eq (run_skip_cons h rest),
    run_bind_of_eq (run_oneOf List.mem_cons_self rest)]
  rfl

end Reader

/-- A time in UTC. -/
def written (year month day hour minute second : Nat) : List Char :=
  digitsOf 4 year ++ '-' :: (digitsOf 2 month ++ '-' :: (digitsOf 2 day ++ 'T' ::
    (digitsOf 2 hour ++ ':' :: (digitsOf 2 minute ++ ':' :: (digitsOf 2 second ++ ['Z'])))))

open Reader in
theorem accepts_written {year month day hour minute second : Nat} (hyear : year < 10000)
    (hmonth : 1 ≤ month ∧ month ≤ 12) (hday : 1 ≤ day ∧ day ≤ daysIn year month)
    (hhour : hour ≤ 23) (hminute : minute ≤ 59) (hsecond : second ≤ 60)
    : accepts (written year month day hour minute second) = true := by
  have hdays : daysIn year month ≤ 31 := by
    unfold daysIn
    split <;> split <;> omega
  have hrange : isInRange year month day (60 * hour + minute - 0) = true := by
    simp only [isInRange, Bool.and_eq_true, Bool.not_eq_true', Bool.and_eq_false_iff,
      decide_eq_true_eq, decide_eq_false_iff_not]
    simp only [minYear, maxYear]
    omega
  have hdash : isSpace '-' = false := by decide
  have hcolon : isSpace ':' = false := by decide
  have hfraction : fraction.run ['Z'] = some ((), ['Z']) := by decide
  have hoffset : offset.run ['Z'] = some (0, []) := by decide
  have htime : time.run (written year month day hour minute second) = some ((), []) := by
    unfold time written
    rw [run_bind_of_eq (run_year hyear _), run_bind_of_eq (run_separator hdash _),
      run_bind_of_eq (run_number hmonth.1 hmonth.2 (by omega) _),
      run_bind_of_eq (run_separator hdash _),
      run_bind_of_eq (run_number hday.1 hday.2 (by omega) _),
      run_bind_of_eq (run_oneOf List.mem_cons_self _),
      run_bind_of_eq (run_number (Nat.zero_le _) hhour (by omega) _),
      run_bind_of_eq (run_separator hcolon _),
      run_bind_of_eq (run_number (Nat.zero_le _) hminute (by omega) _),
      run_bind_of_eq (run_separator hcolon _),
      run_bind_of_eq (run_number (Nat.zero_le _) hsecond (by omega) _),
      run_bind_of_eq hfraction, run_bind_of_eq hoffset, if_pos hrange]
    rfl
  unfold accepts
  rw [htime]
  rfl

end RegistrySync.Timestamp
