import Mathlib.Tactic.Basic

namespace Tdb.Library

variable {κ ν : Type*}

-- The `j`-th moment is the last one before moment `k` of which `p` holds.
structure LastBefore (p : Nat → Prop) (k j : Nat) : Prop where
  before : j < k
  holds : p j
  quiet : ∀ i, j < i → i < k → ¬p i

namespace LastBefore

variable {p : Nat → Prop} {k j : Nat}

-- From one such moment on there always is a last one.
theorem exists_of_holds (hj : p j) (hjk : j < k) : ∃ i, j ≤ i ∧ LastBefore p k i := by
  induction k with
  | zero => omega
  | succ k ih =>
      by_cases hk : p k
      · exact ⟨k, by omega, Nat.lt_succ_self k, hk, fun i _ _ => by omega⟩
      · have hne : j ≠ k := by
          rintro rfl
          exact hk hj
        obtain ⟨i, hji, hlast⟩ := ih (by omega)
        refine ⟨i, hji, Nat.lt_succ_of_lt hlast.before, hlast.holds, fun m him hmk => ?_⟩
        rcases Nat.lt_succ_iff_lt_or_eq.mp hmk with hlt | rfl
        · exact hlast.quiet m him hlt
        · exact hk

theorem le_of_holds (h : LastBefore p k j) {i : Nat} (hik : i < k) (hi : p i) : i ≤ j :=
  Nat.le_of_not_lt fun hlt => h.quiet i hlt hik hi

theorem unique (h : LastBefore p k j) {i : Nat} (hi : LastBefore p k i) : i = j :=
  Nat.le_antisymm (h.le_of_holds hi.before hi.holds) (hi.le_of_holds h.before h.holds)

end LastBefore

-- In a history of optional writes, the `j`-th is the last one to `key` before moment `k`.
structure LastWrite (writes : Nat → Option (κ × ν)) (key : κ) (k j : Nat) (value : ν) : Prop where
  before : j < k
  wrote : writes j = some (key, value)
  quiet : ∀ i, j < i → i < k → ∀ other, writes i ≠ some (key, other)

namespace LastWrite

variable {writes : Nat → Option (κ × ν)} {key : κ} {k j : Nat} {value : ν}

theorem succ (h : LastWrite writes key k j value) (hk : ∀ other, writes k ≠ some (key, other)) :
    LastWrite writes key (k + 1) j value where
  before := Nat.lt_succ_of_lt h.before
  wrote := h.wrote
  quiet i hi hlt other := by
    rcases Nat.lt_succ_iff_lt_or_eq.mp hlt with hik | rfl
    · exact h.quiet i hi hik other
    · exact hk other

theorem of_succ (h : LastWrite writes key (k + 1) j value)
    (hk : ∀ other, writes k ≠ some (key, other)) : LastWrite writes key k j value where
  before := by
    rcases Nat.lt_succ_iff_lt_or_eq.mp h.before with hjk | rfl
    · exact hjk
    · exact False.elim (hk value h.wrote)
  wrote := h.wrote
  quiet i hi hlt := h.quiet i hi (Nat.lt_succ_of_lt hlt)

theorem of_write (h : writes k = some (key, value)) : LastWrite writes key (k + 1) k value where
  before := Nat.lt_succ_self k
  wrote := h
  quiet i hi hlt := by omega

theorem eq_of_write {fresh : ν} (h : LastWrite writes key (k + 1) j value)
    (hk : writes k = some (key, fresh)) : value = fresh := by
  rcases Nat.lt_succ_iff_lt_or_eq.mp h.before with hjk | rfl
  · exact False.elim (h.quiet k hjk (Nat.lt_succ_self k) fresh hk)
  · have heq := h.wrote.symm.trans hk
    simp only [Option.some.injEq, Prod.mk.injEq, true_and] at heq
    exact heq

-- The last write to a key, whatever it writes.
theorem lastBefore_iff : LastBefore (fun i => ∃ value, writes i = some (key, value)) k j ↔
    ∃ value, LastWrite writes key k j value := by
  constructor
  · rintro ⟨hjk, ⟨value, hwrote⟩, hquiet⟩
    exact ⟨value, hjk, hwrote, fun i hji hik other hother => hquiet i hji hik ⟨other, hother⟩⟩
  · rintro ⟨value, h⟩
    exact ⟨h.before, ⟨value, h.wrote⟩,
      fun i hji hik ⟨other, hother⟩ => h.quiet i hji hik other hother⟩

end LastWrite

-- A store that starts empty and takes every write holds under each key the last one to it.
theorem lookup_eq_some_iff_lastWrite [DecidableEq κ] {writes : Nat → Option (κ × ν)}
    (lookup : Nat → κ → Option ν) (hempty : ∀ key, lookup 0 key = none)
    (hstep : ∀ k key, lookup (k + 1) key = match writes k with
      | some (written, value) => if written = key then some value else lookup k key
      | none => lookup k key)
    (k : Nat) (key : κ) (value : ν) :
    lookup k key = some value ↔ ∃ j, LastWrite writes key k j value := by
  induction k with
  | zero =>
      rw [hempty]
      constructor
      · intro h
        cases h
      · rintro ⟨j, h⟩
        exact absurd h.before (Nat.not_lt_zero j)
  | succ k ih =>
      rw [hstep]
      by_cases hwrite : ∃ fresh, writes k = some (key, fresh)
      · obtain ⟨fresh, hk⟩ := hwrite
        simp only [hk, if_true, Option.some.injEq]
        constructor
        · rintro rfl
          exact ⟨k, .of_write hk⟩
        · rintro ⟨j, h⟩
          exact (h.eq_of_write hk).symm
      · have hk : ∀ other, writes k ≠ some (key, other) := fun other h => hwrite ⟨other, h⟩
        have hsame : (match writes k with
            | some (written, value) => if written = key then some value else lookup k key
            | none => lookup k key) = lookup k key := by
          cases hw : writes k with
          | none => rfl
          | some pair =>
              obtain ⟨written, other⟩ := pair
              have hne : written ≠ key := by
                rintro rfl
                exact hk other hw
              simp only [hne, if_false]
        rw [hsame, ih]
        constructor
        · rintro ⟨j, h⟩
          exact ⟨j, h.succ hk⟩
        · rintro ⟨j, h⟩
          exact ⟨j, h.of_succ hk⟩

end Tdb.Library
