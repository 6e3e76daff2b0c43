import Mathlib.Algebra.Order.Field.Power
import Mathlib.Data.Int.Log
import Mathlib.Data.Rat.Floor

namespace Tdb.Library

section Rounding

-- The numbers m * 2 ^ e whose m has at most `precision` bits and whose e is at least `low`.
def Fits (precision : ℕ) (low : ℤ) (q : ℚ) : Prop :=
  ∃ m e : ℤ, |m| < 2 ^ precision ∧ low ≤ e ∧ q = m * 2 ^ e

-- To the nearest integer, halves to the even one.
def roundEven (x : ℚ) : ℤ :=
  if x - ⌊x⌋ < 1 / 2 then ⌊x⌋
  else if 1 / 2 < x - ⌊x⌋ then ⌊x⌋ + 1
  else if ⌊x⌋ % 2 = 0 then ⌊x⌋
  else ⌊x⌋ + 1

-- The exponent of the last bit that is kept of x.
def lastBit (precision : ℕ) (low : ℤ) (x : ℚ) : ℤ :=
  max (Int.log 2 |x| + 1 - precision) low

def rounded (precision : ℕ) (low : ℤ) (x : ℚ) : ℚ :=
  roundEven (x / 2 ^ lastBit precision low x) * 2 ^ lastBit precision low x

theorem roundEven_cases (x : ℚ) :
    roundEven x = ⌊x⌋ ∨ (roundEven x = ⌊x⌋ + 1 ∧ (⌊x⌋ : ℚ) < x) := by
  have hfloor := Int.floor_le x
  unfold roundEven
  split_ifs with hbelow habove heven
  · exact Or.inl rfl
  · exact Or.inr ⟨rfl, by linarith⟩
  · exact Or.inl rfl
  · exact Or.inr ⟨rfl, by linarith⟩

theorem le_roundEven {n : ℤ} {x : ℚ} (h : (n : ℚ) ≤ x) : n ≤ roundEven x := by
  have hfloor := Int.le_floor.mpr h
  rcases roundEven_cases x with hx | ⟨hx, _⟩ <;> omega

theorem roundEven_le {n : ℤ} {x : ℚ} (h : x ≤ n) : roundEven x ≤ n := by
  rcases roundEven_cases x with hx | ⟨hx, hlt⟩
  · rw [hx]
    exact_mod_cast (Int.floor_le x).trans h
  · have hbelow : ⌊x⌋ < n := by exact_mod_cast hlt.trans_le h
    omega

variable {precision : ℕ} {low : ℤ}

theorem two_zpow_pos (e : ℤ) : (0 : ℚ) < 2 ^ e :=
  zpow_pos (by norm_num) e

-- A multiple of the last bit of x on one side of x stays on that side of the rounded x.
theorem multiple_le_rounded {n : ℤ} {x : ℚ} (h : n * 2 ^ lastBit precision low x ≤ x) :
    n * 2 ^ lastBit precision low x ≤ rounded precision low x := by
  have hpos := two_zpow_pos (lastBit precision low x)
  have hn := le_roundEven ((le_div_iff₀ hpos).mpr h)
  exact mul_le_mul_of_nonneg_right (by exact_mod_cast hn) hpos.le

theorem rounded_le_multiple {n : ℤ} {x : ℚ} (h : x ≤ n * 2 ^ lastBit precision low x) :
    rounded precision low x ≤ n * 2 ^ lastBit precision low x := by
  have hpos := two_zpow_pos (lastBit precision low x)
  have hn := roundEven_le ((div_le_iff₀ hpos).mpr h)
  exact mul_le_mul_of_nonneg_right (by exact_mod_cast hn) hpos.le

theorem eq_multiple {m e k : ℤ} (h : k ≤ e) : ∃ n : ℤ, (m : ℚ) * 2 ^ e = n * 2 ^ k := by
  refine ⟨m * 2 ^ (e - k).toNat, ?_⟩
  have hexp : e = ((e - k).toNat : ℤ) + k := by omega
  conv_lhs => rw [hexp, zpow_add₀ (by norm_num), zpow_natCast]
  push_cast
  ring

theorem abs_mul_zpow_lt {m e : ℤ} (hm : |m| < 2 ^ precision) :
    |(m : ℚ) * 2 ^ e| < 2 ^ (precision + e) := by
  rw [abs_mul, abs_of_pos (two_zpow_pos e), zpow_add₀ (by norm_num), zpow_natCast]
  have hm' : |(m : ℚ)| < 2 ^ precision := by exact_mod_cast hm
  exact mul_lt_mul_of_pos_right hm' (two_zpow_pos e)

-- A number with its last bit below that of x is smaller than the leading bit of x, which is a
-- multiple of the last bit of x.
theorem below_leading {m e : ℤ} {x : ℚ} (hm : |m| < 2 ^ precision) (hlow : low ≤ e)
    (hx : x ≠ 0) (he : e < lastBit precision low x) :
    |(m : ℚ) * 2 ^ e| < 2 ^ Int.log 2 |x| ∧ (2 : ℚ) ^ Int.log 2 |x| ≤ |x| := by
  have hlast : lastBit precision low x = Int.log 2 |x| + 1 - precision := by
    unfold lastBit at he ⊢
    omega
  constructor
  · apply (abs_mul_zpow_lt hm).trans_le
    exact zpow_le_zpow_right₀ (by norm_num) (by omega)
  · exact_mod_cast Int.zpow_log_le_self (by norm_num) (abs_pos.mpr hx)

@[simp] theorem rounded_zero : rounded precision low 0 = 0 := by
  have hzero : roundEven 0 = 0 := by
    unfold roundEven
    norm_num
  unfold rounded
  rw [zero_div, hzero, Int.cast_zero, zero_mul]

-- Rounding does not pass a number that fits.
theorem le_rounded (hprecision : 0 < precision) {q x : ℚ} (hq : Fits precision low q)
    (hx : 0 ≤ x) (hle : q ≤ x) : q ≤ rounded precision low x := by
  obtain ⟨m, e, hm, hlow, rfl⟩ := hq
  by_cases hzero : x = 0
  · rw [hzero, rounded_zero]
    exact hzero ▸ hle
  · by_cases he : lastBit precision low x ≤ e
    · obtain ⟨n, hn⟩ := eq_multiple (m := m) he
      rw [hn] at hle ⊢
      exact multiple_le_rounded hle
    · obtain ⟨hbelow, hleading⟩ := below_leading hm hlow hzero (not_le.mp he)
      have hlast : lastBit precision low x ≤ Int.log 2 |x| := by
        unfold lastBit at he ⊢
        omega
      obtain ⟨n, hn⟩ := eq_multiple (m := 1) hlast
      rw [abs_of_nonneg hx] at hleading hbelow hn
      rw [Int.cast_one, one_mul] at hn
      have hrounded : (2 : ℚ) ^ Int.log 2 x ≤ rounded precision low x := by
        rw [hn] at hleading ⊢
        exact multiple_le_rounded hleading
      exact (le_abs_self _).trans (hbelow.le.trans hrounded)

theorem rounded_le {q x : ℚ} (hq : Fits precision low q) (hx : 0 ≤ x) (hle : x ≤ q) :
    rounded precision low x ≤ q := by
  obtain ⟨m, e, hm, hlow, rfl⟩ := hq
  by_cases hzero : x = 0
  · rw [hzero, rounded_zero]
    exact hzero ▸ hle
  · have he : lastBit precision low x ≤ e := by
      by_contra he
      obtain ⟨hbelow, hleading⟩ := below_leading hm hlow hzero (not_le.mp he)
      rw [abs_of_nonneg hx] at hleading hbelow
      have habs := le_abs_self ((m : ℚ) * 2 ^ e)
      linarith
    obtain ⟨n, hn⟩ := eq_multiple (m := m) he
    rw [hn] at hle ⊢
    exact rounded_le_multiple hle

theorem rounded_of_fits {q : ℚ} (hq : Fits precision low q) : rounded precision low q = q := by
  by_cases hzero : q = 0
  · rw [hzero, rounded_zero]
  · obtain ⟨m, e, hm, hlow, heq⟩ := hq
    have he : lastBit precision low q ≤ e := by
      by_contra he
      obtain ⟨hbelow, hleading⟩ := below_leading hm hlow hzero (not_le.mp he)
      rw [← heq] at hbelow
      linarith
    obtain ⟨n, hn⟩ := eq_multiple (m := m) he
    have hmultiple : q = n * 2 ^ lastBit precision low q := heq.trans hn
    apply le_antisymm
    · conv_rhs => rw [hmultiple]
      exact rounded_le_multiple hmultiple.le
    · conv_lhs => rw [hmultiple]
      exact multiple_le_rounded hmultiple.ge

theorem abs_roundEven_le {n : ℕ} {x : ℚ} (h : |x| ≤ n) : |roundEven x| ≤ n := by
  obtain ⟨hlow, hhigh⟩ := abs_le.mp h
  apply abs_le.mpr
  constructor
  · exact le_roundEven (by exact_mod_cast hlow)
  · exact roundEven_le (by exact_mod_cast hhigh)

-- Rounding up to the next power of two takes one bit again.
theorem fits_rounded (hprecision : 0 < precision) (x : ℚ) :
    Fits precision low (rounded precision low x) := by
  have hpos := two_zpow_pos (lastBit precision low x)
  have hlow : low ≤ lastBit precision low x := le_max_right _ _
  have hscaled : |x / 2 ^ lastBit precision low x| ≤ (2 ^ precision : ℕ) := by
    rw [abs_div, abs_of_pos hpos, div_le_iff₀ hpos]
    have hlog : |x| < 2 ^ (Int.log 2 |x| + 1) := by
      exact_mod_cast Int.lt_zpow_succ_log_self (by norm_num) |x|
    push_cast
    rw [← zpow_natCast, ← zpow_add₀ (by norm_num)]
    apply hlog.le.trans
    apply zpow_le_zpow_right₀ (by norm_num)
    unfold lastBit
    omega
  have habs := abs_roundEven_le hscaled
  push_cast at habs
  by_cases hlt : |roundEven (x / 2 ^ lastBit precision low x)| < 2 ^ precision
  · exact ⟨_, _, hlt, hlow, rfl⟩
  · have hpow : (2 : ℤ) ^ precision = 2 * 2 ^ (precision - 1) := by
      rw [← pow_succ', Nat.sub_add_cancel hprecision]
    have hhalf : (0 : ℤ) < 2 ^ (precision - 1) := by positivity
    have hup : (2 : ℚ) ^ (lastBit precision low x + 1) = 2 * 2 ^ lastBit precision low x := by
      rw [zpow_add_one₀ (by norm_num)]
      ring
    rcases eq_or_eq_neg_of_abs_eq (habs.antisymm (not_lt.mp hlt)) with heq | heq
    · refine ⟨2 ^ (precision - 1), lastBit precision low x + 1, ?_, by omega, ?_⟩
      · rw [abs_of_pos hhalf]
        omega
      · unfold rounded
        rw [heq, hpow, hup]
        push_cast
        ring
    · refine ⟨-2 ^ (precision - 1), lastBit precision low x + 1, ?_, by omega, ?_⟩
      · rw [abs_neg, abs_of_pos hhalf]
        omega
      · unfold rounded
        rw [heq, hpow, hup]
        push_cast
        ring

end Rounding

def IsBinary64 (q : ℚ) : Prop :=
  Fits 53 (-1074) q ∧ |q| < 2 ^ 1024

theorem IsBinary64.neg {q : ℚ} (h : IsBinary64 q) : IsBinary64 (-q) := by
  obtain ⟨⟨m, e, hm, hlow, heq⟩, hrange⟩ := h
  refine ⟨⟨-m, e, by rwa [abs_neg], hlow, ?_⟩, by rwa [abs_neg]⟩
  rw [heq]
  push_cast
  ring

-- The zeros of both signs are one value here.
inductive Double where
  | finite (q : {q : ℚ // IsBinary64 q})
  | infinite (negative : Bool)
  | nan
deriving DecidableEq

namespace Double

-- To the nearest double, ties to the even one.
def round (x : ℚ) : Double :=
  if hrange : |rounded 53 (-1074) x| < 2 ^ 1024 then
    .finite ⟨rounded 53 (-1074) x, fits_rounded (by norm_num) x, hrange⟩
  else
    .infinite (decide (x < 0))

def neg : Double → Double
  | .finite q => .finite ⟨-q, q.2.neg⟩
  | .infinite negative => .infinite !negative
  | .nan => .nan

def add : Double → Double → Double
  | .finite p, .finite q => .round (p + q)
  | .finite _, .infinite negative => .infinite negative
  | .infinite negative, .finite _ => .infinite negative
  | .infinite negative, .infinite negative' =>
      if negative = negative' then .infinite negative else .nan
  | _, _ => .nan

def sub (a b : Double) : Double :=
  a.add b.neg

-- Division by a positive whole number.
def divNat : Double → ℕ → Double
  | .finite q, n => .round (q / n)
  | d, _ => d

def lt : Double → Double → Bool
  | .finite p, .finite q => decide (p.val < q.val)
  | .finite _, .infinite negative => !negative
  | .infinite negative, .finite _ => negative
  | .infinite negative, .infinite negative' => negative && !negative'
  | _, _ => false

-- As `==` compares: NaN differs from itself.
def same (a b : Double) : Bool :=
  decide (a = b ∧ a ≠ .nan)

def ofNat (n : ℕ) : Double :=
  .round n

theorem round_cases (x : ℚ) :
    (∃ h, round x = .finite ⟨rounded 53 (-1074) x, h⟩) ∨ ∃ negative, round x = .infinite negative := by
  unfold round
  split
  · rename_i hrange
    exact Or.inl ⟨⟨fits_rounded (by norm_num) x, hrange⟩, rfl⟩
  · exact Or.inr ⟨_, rfl⟩

end Double

section Naturals

theorem fits_natCast_iff {precision n : ℕ} {low : ℤ} (hlow : low ≤ 0) :
    Fits precision low n ↔ ∃ m k : ℕ, m < 2 ^ precision ∧ n = m * 2 ^ k := by
  constructor
  · rintro ⟨m, e, hm, _, heq⟩
    have hm' : m.natAbs < 2 ^ precision := by
      have hcast : (m.natAbs : ℤ) < (2 ^ precision : ℕ) := by
        rw [Int.natCast_natAbs]
        exact_mod_cast hm
      exact_mod_cast hcast
    have habs : (n : ℚ) = (m.natAbs : ℚ) * 2 ^ e := by
      rw [← Nat.abs_cast, heq, abs_mul, abs_of_pos (two_zpow_pos e), Nat.cast_natAbs]
      push_cast
      rfl
    by_cases he : 0 ≤ e
    · obtain ⟨k, rfl⟩ := Int.eq_ofNat_of_zero_le he
      refine ⟨m.natAbs, k, hm', ?_⟩
      rw [zpow_natCast] at habs
      exact_mod_cast habs
    · refine ⟨n, 0, ?_, by simp⟩
      have hle : (n : ℚ) ≤ m.natAbs := by
        rw [habs]
        apply mul_le_of_le_one_right (Nat.cast_nonneg _)
        exact zpow_le_one_of_nonpos₀ (by norm_num) (by omega)
      exact (by exact_mod_cast hle : n ≤ m.natAbs).trans_lt hm'
  · rintro ⟨m, k, hm, heq⟩
    refine ⟨m, k, ?_, by omega, ?_⟩
    · rw [Nat.abs_cast]
      exact_mod_cast hm
    · rw [heq, zpow_natCast]
      push_cast
      rfl

theorem rounded_natCast_isNat (precision : ℕ) {low : ℤ} (hlow : low ≤ 0) (n : ℕ) :
    ∃ r : ℕ, rounded precision low n = r := by
  by_cases hsmall : n < 2 ^ precision
  · exact ⟨n, rounded_of_fits ((fits_natCast_iff hlow).mpr ⟨n, 0, hsmall, by simp⟩)⟩
  · have hlog : (precision : ℤ) ≤ Int.log 2 |(n : ℚ)| := by
      rw [Nat.abs_cast, Int.log_natCast]
      exact_mod_cast Nat.le_log_of_pow_le (by norm_num) (not_lt.mp hsmall)
    have hlast : 0 ≤ lastBit precision low n := by
      unfold lastBit
      omega
    obtain ⟨k, hk⟩ := Int.eq_ofNat_of_zero_le hlast
    have hround : 0 ≤ roundEven ((n : ℚ) / 2 ^ lastBit precision low n) := by
      apply le_roundEven
      have hpos := two_zpow_pos (lastBit precision low n)
      push_cast
      positivity
    obtain ⟨m, hm⟩ := Int.eq_ofNat_of_zero_le hround
    refine ⟨m * 2 ^ k, ?_⟩
    unfold rounded
    rw [hm, hk, zpow_natCast]
    push_cast
    rfl

-- A whole number rounds to a whole number, and to itself exactly when its bits suffice.
theorem rounded_natCast {precision : ℕ} {low : ℤ} (hprecision : 0 < precision) (hlow : low ≤ 0)
    (n : ℕ) :
    ∃ r : ℕ, rounded precision low n = r ∧
      (r = n ↔ ∃ m k : ℕ, m < 2 ^ precision ∧ n = m * 2 ^ k) := by
  obtain ⟨r, hr⟩ := rounded_natCast_isNat precision hlow n
  refine ⟨r, hr, ?_⟩
  rw [← fits_natCast_iff hlow]
  constructor
  · intro hsame
    rw [← hsame, ← hr]
    exact fits_rounded hprecision n
  · intro hfits
    rw [rounded_of_fits hfits] at hr
    exact_mod_cast hr.symm

theorem abs_natCast_lt {n j k : ℕ} (h : n ≤ 2 ^ k) (hk : k < j) : |(n : ℚ)| < 2 ^ j := by
  have hlt : n < 2 ^ j := h.trans_lt (Nat.pow_lt_pow_right (by norm_num) hk)
  rw [Nat.abs_cast]
  exact_mod_cast hlt

theorem isBinary64_natCast {n : ℕ} (h : n ≤ 2 ^ 53) : IsBinary64 n := by
  constructor
  · rw [fits_natCast_iff (by norm_num)]
    by_cases hlt : n < 2 ^ 53
    · exact ⟨n, 0, hlt, by simp⟩
    · exact ⟨1, 53, by norm_num, by omega⟩
  · exact abs_natCast_lt h (by norm_num)

theorem Double.round_of_isBinary64 {q : ℚ} (h : IsBinary64 q) : Double.round q = .finite ⟨q, h⟩ := by
  have hround := rounded_of_fits h.1
  unfold Double.round
  rw [dif_pos (by rw [hround]; exact h.2)]
  simp only [hround]

-- Differences of whole numbers below 2 ^ 53 are exact.
theorem isBinary64_sub {m n : ℕ} (hm : m ≤ 2 ^ 53) (hn : n ≤ 2 ^ 53) : IsBinary64 ((m : ℚ) - n) := by
  rcases le_total n m with h | h
  · rw [← Nat.cast_sub h]
    exact isBinary64_natCast (by omega)
  · rw [← neg_sub, ← Nat.cast_sub h]
    exact (isBinary64_natCast (by omega)).neg

theorem Double.sub_ofNat {m n : ℕ} (hm : m ≤ 2 ^ 53) (hn : n ≤ 2 ^ 53) :
    (Double.ofNat m).sub (.ofNat n) = .finite ⟨(m : ℚ) - n, isBinary64_sub hm hn⟩ := by
  have hfinite : ∀ {k : ℕ} (hk : k ≤ 2 ^ 53), Double.ofNat k = .finite ⟨k, isBinary64_natCast hk⟩ :=
    fun hk => round_of_isBinary64 (isBinary64_natCast hk)
  rw [hfinite hm, hfinite hn, ← round_of_isBinary64 (isBinary64_sub hm hn), sub_eq_add_neg]
  rfl

-- Within the range of the exponents a whole number is read as a whole number.
theorem Double.ofNat_eq_finite {n k : ℕ} (h : n ≤ 2 ^ k) (hk : k < 1024) :
    ∃ (r : ℕ) (hr : IsBinary64 r), Double.ofNat n = .finite ⟨r, hr⟩ ∧
      (r = n ↔ ∃ m k : ℕ, m < 2 ^ 53 ∧ n = m * 2 ^ k) := by
  have hlow : (-1074 : ℤ) ≤ 0 := by norm_num
  obtain ⟨r, hr, hiff⟩ := rounded_natCast (show 0 < 53 by norm_num) hlow n
  have hpower : Fits 53 (-1074) ((2 ^ k : ℕ) : ℚ) :=
    (fits_natCast_iff (by norm_num)).mpr ⟨1, k, by norm_num, by simp⟩
  have hbound : (r : ℚ) ≤ (2 ^ k : ℕ) := by
    rw [← hr]
    exact rounded_le hpower (Nat.cast_nonneg n) (by exact_mod_cast h)
  have hle : r ≤ 2 ^ k := by exact_mod_cast hbound
  have hfits : IsBinary64 r := by
    constructor
    · rw [← hr]
      exact fits_rounded (by norm_num) _
    · exact abs_natCast_lt hle hk
  refine ⟨r, hfits, ?_, hiff⟩
  unfold Double.ofNat Double.round
  rw [dif_pos (by rw [hr]; exact hfits.2)]
  simp only [hr]

end Naturals

section Digits

namespace Double

theorem ofNat_of_le {n : ℕ} (h : n ≤ 2 ^ 53) : ofNat n = .finite ⟨n, isBinary64_natCast h⟩ :=
  round_of_isBinary64 (isBinary64_natCast h)

theorem ofNat_le {n k : ℕ} {q : {q : ℚ // IsBinary64 q}} (h : ofNat n = .finite q)
    (hn : n ≤ 2 ^ k) : q.val ≤ (2 ^ k : ℕ) := by
  have hpower : Fits 53 (-1074) ((2 ^ k : ℕ) : ℚ) :=
    (fits_natCast_iff (by norm_num)).mpr ⟨1, k, by norm_num, by simp⟩
  unfold ofNat round at h
  split at h
  · cases h
    exact rounded_le hpower (Nat.cast_nonneg n) (by exact_mod_cast hn)
  · cases h

-- Nothing else is rounded to a whole number below 2 ^ 53.
theorem ofNat_eq_iff_of_lt {m n : ℕ} (hn : n < 2 ^ 53) : ofNat m = ofNat n ↔ m = n := by
  refine ⟨fun h => ?_, fun h => by rw [h]⟩
  rw [ofNat_of_le hn.le] at h
  by_cases hm : m ≤ 2 ^ 53
  · rw [ofNat_of_le hm, Double.finite.injEq, Subtype.mk.injEq] at h
    exact_mod_cast h
  · have hpower : Fits 53 (-1074) ((2 ^ 53 : ℕ) : ℚ) := (isBinary64_natCast le_rfl).1
    have hle : ((2 ^ 53 : ℕ) : ℚ) ≤ rounded 53 (-1074) m :=
      le_rounded (by norm_num) hpower (Nat.cast_nonneg m) (by exact_mod_cast (not_le.mp hm).le)
    unfold ofNat round at h
    split at h
    · have hvalue : rounded 53 (-1074) m = n := congrArg Subtype.val (Double.finite.inj h)
      rw [hvalue] at hle
      exact absurd (by exact_mod_cast hle : 2 ^ 53 ≤ n) hn.not_ge
    · cases h

-- The two multiples of the unit next to a number, the nearer one first, and the even one of two
-- that are as near.
def multiples (v unit : ℕ) : List ℕ :=
  let below := v / unit
  if 2 * (v % unit) < unit ∨ 2 * (v % unit) = unit ∧ below % 2 = 0 then
    [below * unit, (below + 1) * unit]
  else
    [(below + 1) * unit, below * unit]

def shortestFrom (v : ℕ) : ℕ → ℕ
  | 0 => v
  | zeros + 1 =>
      match (multiples v (10 ^ (zeros + 1))).find? fun n => ofNat n = ofNat v with
      | some n => n
      | none => shortestFrom v zeros

-- The whole number that is read as the double of `v` and needs the fewest digits before its zeros.
def shortest (v : ℕ) : ℕ :=
  shortestFrom v (Nat.toDigits 10 v).length

theorem ofNat_shortestFrom (v zeros : ℕ) : ofNat (shortestFrom v zeros) = ofNat v := by
  induction zeros with
  | zero => rfl
  | succ zeros ih =>
      unfold shortestFrom
      split
      · rename_i n hfound
        have hread := List.find?_some hfound
        exact of_decide_eq_true hread
      · exact ih

theorem ofNat_shortest (v : ℕ) : ofNat (shortest v) = ofNat v :=
  ofNat_shortestFrom v _

end Double

end Digits

end Tdb.Library
