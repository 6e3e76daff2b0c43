import Tdb.Tracer
import Tdb.Tui

namespace Tdb.Tui

open Tdb.Library Tdb.Storage Tdb.Stats Tdb.Tracer

-- The mnemonics on which the panel's tests of letters agree with the two classifiers.
structure PlainlyNamed (m : String) : Prop where
  not_compare : m ≠ "cbz" ∧ m ≠ "cbnz" ∧ m ≠ "tbz" ∧ m ≠ "tbnz"
  b_branches : Text.startsWith m "b" = true → m = "b" ∨ m = "br" ∨ Text.startsWith m "b." = true
  st_first : Text.contains m "st" = true →
    Text.startsWith m "st" = true ∨ Text.startsWith m "b" = true ∨ Text.startsWith m "j" = true
  not_pushq : m ≠ "pushq"

section Letters

variable {m : String}

theorem startsWith_b_iff : Text.startsWith m "b" = true ↔ m.toList.head? = some 'b' :=
  Text.startsWith_char_iff m 'b'

theorem startsWith_j_iff : Text.startsWith m "j" = true ↔ m.toList.head? = some 'j' :=
  Text.startsWith_char_iff m 'j'

theorem isBranchMnemonic_iff :
    isBranchMnemonic m = true ↔ Text.startsWith m "j" = true ∨
      (m = "b" ∨ m = "br" ∨ Text.startsWith m "b." = true) ∨
        (m = "cbz" ∨ m = "cbnz" ∨ m = "tbz" ∨ m = "tbnz") := by
  simp only [isBranchMnemonic, Bool.or_eq_true, beq_iff_eq, or_assoc]

-- All listed stores but `push` and `pushq` start with "st".
theorem isStoreMnemonic_iff :
    isStoreMnemonic m = true ↔ Text.startsWith m "st" = true ∨ m = "push" ∨ m = "pushq" := by
  simp only [isStoreMnemonic, Bool.or_eq_true, beq_iff_eq]
  constructor
  · rintro (((((((((rfl | rfl) | rfl) | rfl) | rfl) | rfl) | rfl) | rfl) | rfl) | h)
    all_goals first
      | exact Or.inl h
      | exact Or.inr (Or.inl rfl)
      | exact Or.inr (Or.inr rfl)
      | exact Or.inl (by decide)
  · rintro (h | rfl | rfl)
    · exact Or.inr h
    · exact Or.inl (Or.inl (Or.inr rfl))
    · exact Or.inl (Or.inr rfl)

end Letters

section Labels

variable {entry : TraceEntry} (hcall : Text.contains entry.insnText "CALL" = false)
  (hret : Text.contains entry.insnText "RETURN" = false)
include hcall hret

theorem insnType_label :
    (insnType entry).1 =
      if Text.startsWith (mnemonicOf entry) "b" || Text.startsWith (mnemonicOf entry) "j" then
        "BRANCH"
      else if Text.contains (mnemonicOf entry) "str" || Text.contains (mnemonicOf entry) "st" ||
          mnemonicOf entry == "push" then
        "STORE"
      else if Text.contains (mnemonicOf entry) "ldr" || Text.contains (mnemonicOf entry) "ld" ||
          mnemonicOf entry == "pop" then
        "LOAD"
      else
        "" := by
  unfold insnType
  rw [hcall, hret]
  simp only [Bool.false_eq_true, if_false, apply_ite Prod.fst]
  rfl

theorem insnType_branch_iff :
    (insnType entry).1 = "BRANCH" ↔ Text.startsWith (mnemonicOf entry) "b" = true ∨
      Text.startsWith (mnemonicOf entry) "j" = true := by
  rw [insnType_label hcall hret, ← Bool.or_eq_true]
  split
  · rename_i hbranch
    simp [hbranch]
  · rename_i hbranch
    simp only [hbranch, Bool.false_eq_true, iff_false]
    split
    · decide
    · split <;> decide

theorem insnType_store_iff :
    (insnType entry).1 = "STORE" ↔ ¬(Text.startsWith (mnemonicOf entry) "b" = true ∨
      Text.startsWith (mnemonicOf entry) "j" = true) ∧
        (Text.contains (mnemonicOf entry) "st" = true ∨ mnemonicOf entry = "push") := by
  have hstore : (Text.contains (mnemonicOf entry) "str" ||
      Text.contains (mnemonicOf entry) "st" || mnemonicOf entry == "push") = true ↔
        (Text.contains (mnemonicOf entry) "st" = true ∨ mnemonicOf entry = "push") := by
    simp only [Bool.or_eq_true, beq_iff_eq]
    constructor
    · rintro ((h | h) | h)
      · exact Or.inl (Text.contains_trans h ⟨[], ['r'], rfl⟩)
      · exact Or.inl h
      · exact Or.inr h
    · rintro (h | h)
      · exact Or.inl (Or.inr h)
      · exact Or.inr h
  rw [insnType_label hcall hret, ← Bool.or_eq_true, ← hstore]
  split
  · rename_i hbranch
    simp [hbranch]
  · rename_i hbranch
    simp only [hbranch, Bool.false_eq_true]
    split
    · rename_i hstores
      simp [hstores]
    · rename_i hstores
      simp only [hstores, Bool.false_eq_true]
      split <;> decide

theorem branch_agrees_iff :
    ((insnType entry).1 = "BRANCH" ↔ isBranchMnemonic (mnemonicOf entry) = true) ↔
      ((mnemonicOf entry ≠ "cbz" ∧ mnemonicOf entry ≠ "cbnz" ∧ mnemonicOf entry ≠ "tbz" ∧
          mnemonicOf entry ≠ "tbnz") ∧
        (Text.startsWith (mnemonicOf entry) "b" = true → mnemonicOf entry = "b" ∨
          mnemonicOf entry = "br" ∨ Text.startsWith (mnemonicOf entry) "b." = true)) := by
  rw [insnType_branch_iff hcall hret, isBranchMnemonic_iff]
  generalize mnemonicOf entry = m
  constructor
  · intro h
    refine ⟨⟨?_, ?_, ?_, ?_⟩, fun hb => ?_⟩
    · rintro rfl
      exact absurd (h.mpr (by decide)) (by decide)
    · rintro rfl
      exact absurd (h.mpr (by decide)) (by decide)
    · rintro rfl
      exact absurd (h.mpr (by decide)) (by decide)
    · rintro rfl
      exact absurd (h.mpr (by decide)) (by decide)
    · rcases h.mp (Or.inl hb) with hj | hbranch | rfl | rfl | rfl | rfl
      · rw [startsWith_j_iff] at hj
        rw [startsWith_b_iff, hj] at hb
        cases hb
      · exact hbranch
      all_goals exact absurd hb (by decide)
  · rintro ⟨⟨hcbz, hcbnz, htbz, htbnz⟩, hb⟩
    constructor
    · rintro (h | h)
      · exact Or.inr (Or.inl (hb h))
      · exact Or.inl h
    · rintro (hj | (rfl | rfl | hdot) | h)
      · exact Or.inr hj
      · exact Or.inl (by decide)
      · exact Or.inl (by decide)
      · exact Or.inl (startsWith_b_iff.mpr (Text.head?_of_startsWith (by decide) hdot))
      · rcases h with h | h | h | h
        · exact absurd h hcbz
        · exact absurd h hcbnz
        · exact absurd h htbz
        · exact absurd h htbnz

theorem store_agrees_iff :
    ((insnType entry).1 = "STORE" ↔ isStoreMnemonic (mnemonicOf entry) = true) ↔
      ((Text.contains (mnemonicOf entry) "st" = true →
          Text.startsWith (mnemonicOf entry) "st" = true ∨
            Text.startsWith (mnemonicOf entry) "b" = true ∨
              Text.startsWith (mnemonicOf entry) "j" = true) ∧
        mnemonicOf entry ≠ "pushq") := by
  rw [insnType_store_iff hcall hret, isStoreMnemonic_iff]
  generalize mnemonicOf entry = m
  have hother : Text.startsWith m "st" = true →
      ¬(Text.startsWith m "b" = true ∨ Text.startsWith m "j" = true) := by
    intro h
    have hs : m.toList.head? = some 's' := Text.head?_of_startsWith (by decide) h
    rw [startsWith_b_iff, startsWith_j_iff, hs]
    decide
  constructor
  · intro h
    constructor
    · intro hst
      by_cases hbranch : Text.startsWith m "b" = true ∨ Text.startsWith m "j" = true
      · exact Or.inr hbranch
      · rcases h.mp ⟨hbranch, Or.inl hst⟩ with hfirst | rfl | rfl
        · exact Or.inl hfirst
        all_goals exact absurd hst (by decide)
    · rintro rfl
      exact absurd (h.mpr (by decide)) (by decide)
  · rintro ⟨hst, hpushq⟩
    constructor
    · rintro ⟨hbranch, h | h⟩
      · exact Or.inl ((hst h).resolve_right hbranch)
      · exact Or.inr (Or.inl h)
    · rintro (h | rfl | h)
      · exact ⟨hother h, Or.inl (Text.contains_of_startsWith h)⟩
      · decide
      · exact absurd h hpushq

end Labels

-- The three tests that mean to tell branches and stores agree on plainly named mnemonics only.
theorem insnType_agrees_iff {entry : TraceEntry}
    (hcall : Text.contains entry.insnText "CALL" = false)
    (hret : Text.contains entry.insnText "RETURN" = false) :
    (((insnType entry).1 = "BRANCH" ↔ isBranchMnemonic (mnemonicOf entry) = true) ∧
      ((insnType entry).1 = "STORE" ↔ isStoreMnemonic (mnemonicOf entry) = true)) ↔
      PlainlyNamed (mnemonicOf entry) := by
  rw [branch_agrees_iff hcall hret, store_agrees_iff hcall hret]
  constructor
  · rintro ⟨⟨hcompare, hb⟩, hst, hpushq⟩
    exact ⟨hcompare, hb, hst, hpushq⟩
  · intro h
    exact ⟨⟨h.not_compare, h.b_branches⟩, h.st_first, h.not_pushq⟩

theorem insnType_agrees_iff_str :
    let entry : TraceEntry := ⟨0, 0x1000, [], "str x0, [sp]", "\x7b\x7d", []⟩
    (((insnType entry).1 = "BRANCH" ↔ isBranchMnemonic (mnemonicOf entry) = true) ∧
      ((insnType entry).1 = "STORE" ↔ isStoreMnemonic (mnemonicOf entry) = true)) ↔
      PlainlyNamed (mnemonicOf entry) :=
  insnType_agrees_iff (by decide +kernel) (by decide +kernel)

-- `bic` clears bits: no branch for the statistics, BRANCH in the panel.
theorem insnType_bic_differs :
    ¬ ∀ entry : TraceEntry, Text.contains entry.insnText "CALL" = false →
      Text.contains entry.insnText "RETURN" = false →
        ((insnType entry).1 = "BRANCH" ↔ isBranchMnemonic (mnemonicOf entry) = true) ∧
          ((insnType entry).1 = "STORE" ↔ isStoreMnemonic (mnemonicOf entry) = true) := by
  intro h
  have hbic := (h ⟨0, 0x1000, [], "bic x0, x1, x2", "\x7b\x7d", []⟩ (by decide +kernel)
    (by decide +kernel)).1
  revert hbic
  decide +kernel

end Tdb.Tui
