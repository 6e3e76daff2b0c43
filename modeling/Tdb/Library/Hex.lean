import Mathlib.Data.List.Basic
import Mathlib.Tactic.IntervalCases

namespace Tdb.Library.Hex

def upperDigit (d : Nat) : Char :=
  (Nat.digitChar d).toUpper

-- The lowest `width` hexadecimal digits of a number.
def fixed : Nat → Nat → List Char
  | 0, _ => []
  | width + 1, n => fixed width (n / 16) ++ [upperDigit (n % 16)]

-- All of its digits, with zeros in front up to the width.
def padded (width n : Nat) : List Char :=
  List.replicate (width - (Nat.toDigits 16 n).length) '0' ++ (Nat.toDigits 16 n).map Char.toUpper

def digitValue (c : Char) : Nat :=
  if c.isDigit then c.toNat - '0'.toNat else c.toNat - 'A'.toNat + 10

def value (digits : List Char) : Nat :=
  digits.foldl (fun n c => 16 * n + digitValue c) 0

theorem digitValue_upperDigit {d : Nat} (h : d < 16) : digitValue (upperDigit d) = d := by
  interval_cases d <;> rfl

theorem exists_of_mem_toDigits {n : Nat} {c : Char} (h : c ∈ Nat.toDigits 16 n) :
    ∃ d < 16, c = Nat.digitChar d := by
  induction n using Nat.strongRecOn with
  | ind n ih =>
      rw [Nat.toDigits_eq_if (by decide)] at h
      split at h
      · rename_i hlt
        exact ⟨n, hlt, List.mem_singleton.mp h⟩
      · rcases List.mem_append.mp h with h | h
        · exact ih (n / 16) (by omega) h
        · exact ⟨n % 16, Nat.mod_lt n (by decide), List.mem_singleton.mp h⟩

theorem toDigits_ascii {n : Nat} {c : Char} (h : c ∈ Nat.toDigits 16 n) :
    c.toNat < 0x80 ∧ c.toUpper.toNat < 0x80 := by
  obtain ⟨d, hd, rfl⟩ := exists_of_mem_toDigits h
  interval_cases d <;> decide

theorem toDigits_toUpper (n : Nat) :
    (Nat.toDigits 16 n).map Char.toUpper =
      (if n < 16 then [] else (Nat.toDigits 16 (n / 16)).map Char.toUpper) ++
        [upperDigit (n % 16)] := by
  rw [Nat.toDigits_eq_if (by decide)]
  split
  · rename_i hlt
    rw [Nat.mod_eq_of_lt hlt]
    rfl
  · rw [List.map_append]
    rfl

theorem value_concat (digits : List Char) (c : Char) :
    value (digits ++ [c]) = 16 * value digits + digitValue c := by
  simp [value]

theorem value_toDigits (n : Nat) : value ((Nat.toDigits 16 n).map Char.toUpper) = n := by
  induction n using Nat.strongRecOn with
  | ind n ih =>
      rw [toDigits_toUpper, value_concat, digitValue_upperDigit (Nat.mod_lt n (by decide))]
      split
      · simp only [value, List.foldl_nil]
        omega
      · rw [ih (n / 16) (by omega)]
        omega

theorem value_zeros_append (k : Nat) (digits : List Char) :
    value (List.replicate k '0' ++ digits) = value digits := by
  induction k with
  | zero => rfl
  | succ k ih =>
      rw [List.replicate_succ, List.cons_append]
      exact ih

-- The zeros in front do not hide which number it is.
theorem padded_injective (width : Nat) : Function.Injective (padded width) := by
  intro m n h
  have hvalue := congrArg value h
  unfold padded at hvalue
  rwa [value_zeros_append, value_zeros_append, value_toDigits, value_toDigits] at hvalue

theorem padded_of_lt {width n : Nat} (h : n < 16) :
    padded (width + 1) n = List.replicate width '0' ++ [upperDigit n] := by
  unfold padded
  rw [Nat.toDigits_of_lt_base h]
  rfl

theorem padded_succ {width : Nat} (hwidth : 0 < width) (n : Nat) :
    padded (width + 1) n = padded width (n / 16) ++ [upperDigit (n % 16)] := by
  by_cases h : n < 16
  · obtain ⟨width, rfl⟩ : ∃ w, width = w + 1 := ⟨width - 1, by omega⟩
    rw [padded_of_lt h, Nat.div_eq_of_lt h, Nat.mod_eq_of_lt h, padded_of_lt (by decide),
      List.replicate_succ']
    rfl
  · have hlength := congrArg List.length (toDigits_toUpper n)
    rw [if_neg h, List.length_append, List.length_map, List.length_map] at hlength
    unfold padded
    rw [hlength, List.length_singleton, Nat.add_sub_add_right, toDigits_toUpper n, if_neg h,
      ← List.append_assoc]

-- A number that fits the width has exactly that many digits.
theorem padded_eq_fixed {width n : Nat} (hwidth : 0 < width) (h : n < 16 ^ width) :
    padded width n = fixed width n := by
  induction width generalizing n with
  | zero => cases hwidth
  | succ width ih =>
      by_cases hzero : width = 0
      · subst hzero
        have hlt : n < 16 := h
        rw [padded_of_lt hlt]
        simp [fixed, Nat.mod_eq_of_lt hlt]
      · have hpos : 0 < width := by omega
        have hquotient : n / 16 < 16 ^ width := by
          rw [Nat.div_lt_iff_lt_mul (by decide), ← Nat.pow_succ]
          exact h
        rw [padded_succ hpos, ih hpos hquotient]
        rfl

theorem length_fixed (width n : Nat) : (fixed width n).length = width := by
  induction width generalizing n with
  | zero => rfl
  | succ width ih =>
      unfold fixed
      rw [List.length_append, ih, List.length_singleton]

-- The digits of a number that fits give it back.
theorem value_fixed {width n : Nat} (hwidth : 0 < width) (h : n < 16 ^ width) :
    value (fixed width n) = n := by
  rw [← padded_eq_fixed hwidth h]
  unfold padded
  rw [value_zeros_append, value_toDigits]

end Tdb.Library.Hex
