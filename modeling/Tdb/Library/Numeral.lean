import Mathlib.Data.List.Basic
import Mathlib.Data.Nat.Basic

namespace Tdb.Library.Numeral

-- Decimal digits and nothing else, at least one of them.
def readDigits (digits : List Char) : Option Nat :=
  if digits.isEmpty || !digits.all Char.isDigit then none
  else some (Nat.ofDigitChars 10 digits 0)

-- A natural number below the bound. A plus sign may stand in front.
def readUnsigned (bound : Nat) (text : String) : Option Nat :=
  let digits := match text.toList with
    | '+' :: rest => rest
    | chars => chars
  (readDigits digits).filter fun n => n < bound

-- An integer from `-bound` up to the bound, itself left out.
def readSigned (bound : Nat) (text : String) : Option Int :=
  match text.toList with
  | '-' :: rest => ((readDigits rest).filter fun n => n ≤ bound).map fun n => -Int.ofNat n
  | '+' :: rest => ((readDigits rest).filter fun n => n < bound).map Int.ofNat
  | chars => ((readDigits chars).filter fun n => n < bound).map Int.ofNat

theorem readDigits_toDigits (n : Nat) : readDigits (Nat.toDigits 10 n) = some n := by
  have hdigits : ∀ c ∈ Nat.toDigits 10 n, c.isDigit = true := fun c hc =>
    Nat.isDigit_of_mem_toDigits (by decide) (by decide) hc
  have hnonempty : (Nat.toDigits 10 n).isEmpty = false := by
    rw [List.isEmpty_eq_false_iff]
    exact Nat.toDigits_ne_nil
  unfold readDigits
  rw [hnonempty, List.all_eq_true.mpr hdigits, Nat.ofDigitChars_ten_toDigits]
  rfl

theorem toDigits_head (n : Nat) : ∃ c cs, Nat.toDigits 10 n = c :: cs ∧ c ≠ '+' ∧ c ≠ '-' := by
  cases hdigits : Nat.toDigits 10 n with
  | nil => exact absurd hdigits Nat.toDigits_ne_nil
  | cons c cs =>
      have hdigit : c.isDigit = true :=
        Nat.isDigit_of_mem_toDigits (b := 10) (n := n) (by decide) (by decide)
          (hdigits ▸ List.mem_cons_self ..)
      refine ⟨c, cs, rfl, ?_, ?_⟩
      all_goals
        rintro rfl
        exact absurd hdigit (by decide)

-- A number is read back from its digits if it is in range.
theorem readUnsigned_repr (bound n : Nat) :
    readUnsigned bound n.repr = if n < bound then some n else none := by
  obtain ⟨c, cs, hdigits, hplus, _⟩ := toDigits_head n
  have hread := readDigits_toDigits n
  unfold readUnsigned
  rw [Nat.toList_repr]
  rw [hdigits] at hread ⊢
  split
  · rename_i rest heq
    exact absurd (List.head_eq_of_cons_eq heq) hplus
  · dsimp only
    rw [hread, Option.filter_some]
    simp only [decide_eq_true_eq]

theorem readSigned_repr (bound : Nat) (i : Int) :
    readSigned bound i.repr = if -bound ≤ i ∧ i < bound then some i else none := by
  cases i with
  | ofNat n =>
      obtain ⟨c, cs, hdigits, hplus, hminus⟩ := toDigits_head n
      have hread := readDigits_toDigits n
      have hrange : -(bound : Int) ≤ Int.ofNat n ∧ Int.ofNat n < bound ↔ n < bound := by
        rw [Int.ofNat_eq_natCast]
        omega
      unfold readSigned
      rw [Int.repr, Nat.toList_repr]
      rw [hdigits] at hread ⊢
      split
      · rename_i rest heq
        exact absurd (List.head_eq_of_cons_eq heq) hminus
      · rename_i rest heq
        exact absurd (List.head_eq_of_cons_eq heq) hplus
      · rw [hread, Option.filter_some]
        simp only [hrange]
        by_cases hn : n < bound
        · simp [hn]
        · rw [if_neg hn, if_neg (by simpa using hn)]
          rfl
  | negSucc n =>
      have hread := readDigits_toDigits (n + 1)
      have hchars : (Int.repr (Int.negSucc n)).toList = '-' :: Nat.toDigits 10 (n + 1) := by
        rw [Int.repr]
        simp
      unfold readSigned
      rw [hchars]
      simp only [hread]
      by_cases hn : n + 1 ≤ bound
      · have hrange : -(bound : Int) ≤ Int.negSucc n ∧ Int.negSucc n < bound := by omega
        simp only [Option.filter_some, hn, decide_true, if_true, Option.map_some, hrange, and_self]
        rfl
      · have hrange : ¬(-(bound : Int) ≤ Int.negSucc n ∧ Int.negSucc n < bound) := by omega
        rw [if_neg hrange, Option.filter_some, if_neg (by simpa using hn)]
        rfl

end Tdb.Library.Numeral
