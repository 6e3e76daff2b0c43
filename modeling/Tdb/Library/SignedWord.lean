import Mathlib.Tactic.Basic

namespace Tdb.Library.SignedWord

variable {m : Nat}

-- The whole numbers that a signed word of `m` states stands for.
def Holds (m : Nat) (x : Int) : Prop :=
  -m ≤ 2 * x ∧ 2 * x < m

theorem bmod_eq_self_iff (hm : 0 < m) (x : Int) : Int.bmod x m = x ↔ Holds m x := by
  rw [Int.bmod_eq_iff hm, Int.sub_self]
  unfold Holds
  constructor
  · rintro ⟨hlow, hhigh, _⟩
    omega
  · rintro ⟨hlow, hhigh⟩
    exact ⟨by omega, by omega, Int.dvd_zero _⟩

variable {a b : Nat}

-- An unsigned word is read as a signed one: the upper half of its values stand for negative ones.
theorem bmod_natCast (ha : a < m) :
    Int.bmod a m = if 2 * a < m then (a : Int) else (a : Int) - m := by
  rw [Int.bmod_eq_iff (by omega)]
  split
  · rw [Int.sub_self]
    exact ⟨by omega, by omega, Int.dvd_zero _⟩
  · exact ⟨by omega, by omega, -1, by omega⟩

theorem bmod_natCast_eq_iff (ha : a < m) : Int.bmod a m = a ↔ 2 * a < m := by
  rw [bmod_natCast ha]
  split <;> omega

-- A difference that wraps around is right as long as a word can hold the right one.
theorem wrapped_sub_eq_iff (hm : 0 < m) (x y : Int) :
    Int.bmod (Int.bmod x m - Int.bmod y m) m = x - y ↔ Holds m (x - y) := by
  rw [← Int.sub_bmod]
  exact bmod_eq_self_iff hm (x - y)

-- A difference that is checked is right as long as both words are read from the same half.
theorem checked_sub_eq_iff (ha : a < m) (hb : b < m) :
    (Holds m (Int.bmod a m - Int.bmod b m) ∧ Int.bmod a m - Int.bmod b m = a - b) ↔
      (2 * a < m ↔ 2 * b < m) := by
  unfold Holds
  rw [bmod_natCast ha, bmod_natCast hb]
  by_cases hlow : 2 * a < m
  · rw [if_pos hlow]
    by_cases hlow' : 2 * b < m
    · rw [if_pos hlow']
      exact iff_of_true ⟨by omega, rfl⟩ (iff_of_true hlow hlow')
    · rw [if_neg hlow']
      exact iff_of_false (by omega) fun h => hlow' (h.mp hlow)
  · rw [if_neg hlow]
    by_cases hlow' : 2 * b < m
    · rw [if_pos hlow']
      exact iff_of_false (by omega) fun h => hlow (h.mpr hlow')
    · rw [if_neg hlow']
      exact iff_of_true (by omega) (iff_of_false hlow hlow')

end Tdb.Library.SignedWord
