import Tdb.Tracer.Step

namespace Tdb.Tracer

open Tdb.Library

section Markers

variable {pattern : String}

theorem not_contains_empty (hnonempty : pattern.toList ≠ []) :
    Text.contains "" pattern = false := by
  rw [← Bool.not_eq_true, Text.contains_iff]
  intro h
  exact hnonempty (List.infix_nil.mp h)

-- The separator " ; " is no part of a pattern without blanks, unless the pattern is ";".
theorem contains_fullText (hblank : ' ' ∉ pattern.toList) (hsemicolon : ¬pattern.toList <:+: [';'])
    (text annotation : String) :
    Text.contains (fullText text annotation) pattern =
      (Text.contains text pattern || Text.contains annotation pattern) := by
  unfold fullText
  split
  · rename_i hnone
    have hnonempty : pattern.toList ≠ [] := by
      intro h
      rw [h] at hsemicolon
      exact hsemicolon List.nil_infix
    rw [hnone, not_contains_empty hnonempty, Bool.or_false]
  · rw [Bool.eq_iff_iff, Bool.or_eq_true]
    simp only [Text.contains_iff]
    have hchars : (s!"{text} ; { annotation}").toList =
        text.toList ++ ' ' :: ([';'] ++ ' ' :: annotation.toList) := by
      simp [toString]
    rw [hchars, Text.infix_append_cons_iff hblank, Text.infix_append_cons_iff hblank]
    simp only [hsemicolon, false_or]

theorem contains_text (hblank : ' ' ∉ pattern.toList) (hnonempty : pattern.toList ≠ [])
    (insn : Insn) :
    Text.contains insn.text pattern =
      (Text.contains insn.mnemonicText pattern || Text.contains insn.operands pattern) := by
  unfold Insn.text
  split
  · rename_i hnone
    rw [hnone, not_contains_empty hnonempty, Bool.or_false]
  · rw [Bool.eq_iff_iff, Bool.or_eq_true]
    simp only [Text.contains_iff]
    have hchars : (s!"{insn.mnemonicText} {insn.operands}").toList =
        insn.mnemonicText.toList ++ ' ' :: insn.operands.toList := by
      simp [toString]
    rw [hchars, Text.infix_append_cons_iff hblank]

end Markers

section DetectCall

theorem notMem_digits {c : Char} (hc : c.isDigit = false) (n : Nat) : c ∉ Nat.toDigits 10 n := by
  intro h
  have hdigit : c.isDigit = true := Nat.isDigit_of_mem_toDigits (by decide) (by decide) h
  rw [hc] at hdigit
  cases hdigit

variable (arch : Arch) (callDepth : Nat) (mnemonic : String)

theorem isCall_not_isReturn {arch : Arch} {mnemonic : String} (h : isCall arch mnemonic = true) :
    isReturn arch mnemonic = false := by
  cases arch with
  | x86_64 =>
      simp only [isCall, Bool.or_eq_true, beq_iff_eq] at h
      rcases h with rfl | rfl <;> decide
  | aarch64 =>
      simp only [isCall, Bool.or_eq_true, beq_iff_eq] at h
      rcases h with ((rfl | rfl) | rfl) | rfl <;> decide

-- The annotation is one of three, told apart by the mnemonic.
theorem detectCall_cases :
    (isCall arch mnemonic = true ∧ isReturn arch mnemonic = false ∧
        ∃ n : Nat, (detectCall arch callDepth mnemonic).2 = "CALL [depth:" ++ n.repr ++ "]") ∨
      (isCall arch mnemonic = false ∧ isReturn arch mnemonic = true ∧
        ∃ n : Nat, (detectCall arch callDepth mnemonic).2 = "RETURN [depth:" ++ n.repr ++ "]") ∨
      (isCall arch mnemonic = false ∧ isReturn arch mnemonic = false ∧
        (detectCall arch callDepth mnemonic).2 = "") := by
  unfold detectCall
  cases hcall : isCall arch mnemonic with
  | true => exact Or.inl ⟨rfl, isCall_not_isReturn hcall, _, rfl⟩
  | false =>
      cases hret : isReturn arch mnemonic with
      | true => exact Or.inr (Or.inl ⟨rfl, rfl, _, rfl⟩)
      | false => exact Or.inr (Or.inr ⟨rfl, rfl, rfl⟩)

theorem annotation_contains_CALL :
    Text.contains (detectCall arch callDepth mnemonic).2 "CALL" = isCall arch mnemonic := by
  rcases detectCall_cases arch callDepth mnemonic with
    ⟨hcall, _, n, h⟩ | ⟨hcall, _, n, h⟩ | ⟨hcall, _, h⟩
  · rw [h, hcall, Text.contains_iff]
    exact ⟨[], (" [depth:" ++ n.repr ++ "]").toList, by simp⟩
  · rw [h, hcall, ← Bool.not_eq_true, Text.contains_iff]
    have hdigits : 'C' ∉ Nat.toDigits 10 n := notMem_digits (by decide) n
    refine Text.not_infix_of_notMem (show 'C' ∈ "CALL".toList by decide) ?_
    simp [hdigits]
  · rw [h, hcall]
    decide

theorem annotation_contains_RETURN :
    Text.contains (detectCall arch callDepth mnemonic).2 "RETURN" = isReturn arch mnemonic := by
  rcases detectCall_cases arch callDepth mnemonic with
    ⟨_, hret, n, h⟩ | ⟨_, hret, n, h⟩ | ⟨_, hret, h⟩
  · rw [h, hret, ← Bool.not_eq_true, Text.contains_iff]
    have hdigits : 'R' ∉ Nat.toDigits 10 n := notMem_digits (by decide) n
    refine Text.not_infix_of_notMem (show 'R' ∈ "RETURN".toList by decide) ?_
    simp [hdigits]
  · rw [h, hret, Text.contains_iff]
    exact ⟨[], (" [depth:" ++ n.repr ++ "]").toList, by simp⟩
  · rw [h, hret]
    decide

-- A marker stands in the entry's text when the instruction's own text has it or the
-- tracer has added it.
theorem entryText_contains_CALL (insn : Insn) :
    Text.contains (fullText insn.text (detectCall arch callDepth mnemonic).2) "CALL" =
      (Text.contains insn.text "CALL" || isCall arch mnemonic) := by
  rw [contains_fullText (by decide) (by decide), annotation_contains_CALL]

theorem entryText_contains_RETURN (insn : Insn) :
    Text.contains (fullText insn.text (detectCall arch callDepth mnemonic).2) "RETURN" =
      (Text.contains insn.text "RETURN" || isReturn arch mnemonic) := by
  rw [contains_fullText (by decide) (by decide), annotation_contains_RETURN]

end DetectCall

section Capstone

-- Capstone's text for an instruction: a mnemonic without blanks, and no capitals.
structure PlainText (insn : Insn) : Prop where
  mnemonic_word : Text.IsWord insn.mnemonicText
  mnemonic_lower : ∀ c ∈ insn.mnemonicText.toList, c.isUpper = false
  operands_lower : ∀ c ∈ insn.operands.toList, c.isUpper = false

theorem not_contains_of_lower {text pattern : String} {capital : Char}
    (hcapital : capital ∈ pattern.toList) (hupper : capital.isUpper = true)
    (hlower : ∀ c ∈ text.toList, c.isUpper = false) : Text.contains text pattern = false := by
  rw [← Bool.not_eq_true, Text.contains_iff]
  refine Text.not_infix_of_notMem hcapital fun hmem => ?_
  rw [hlower capital hmem] at hupper
  cases hupper

theorem PlainText.not_contains {insn : Insn} (h : PlainText insn) {pattern : String}
    {capital : Char} (hcapital : capital ∈ pattern.toList) (hupper : capital.isUpper = true)
    (hblank : ' ' ∉ pattern.toList) : Text.contains insn.text pattern = false := by
  rw [contains_text hblank (List.ne_nil_of_mem hcapital),
    not_contains_of_lower hcapital hupper h.mnemonic_lower,
    not_contains_of_lower hcapital hupper h.operands_lower]
  rfl

-- The mnemonic comes first in all four shapes of the text.
theorem PlainText.firstWord_fullText {insn : Insn} (h : PlainText insn) (note : String) :
    Text.firstWord (fullText insn.text note) = insn.mnemonicText := by
  have hshape : ∃ rest, fullText insn.text note = insn.mnemonicText ++ rest ∧
      ∀ c ∈ rest.toList.head?, Text.isWhitespace c = true := by
    unfold fullText Insn.text
    by_cases hoperands : insn.operands = "" <;> by_cases hnote : note = ""
    · exact ⟨"", by simp [hoperands, hnote], by simp⟩
    · exact ⟨" ; " ++ note, by simp [hoperands, hnote, toString, String.append_assoc],
        by simp; decide⟩
    · exact ⟨" " ++ insn.operands, by simp [hoperands, hnote, toString, String.append_assoc],
        by simp; decide⟩
    · exact ⟨" " ++ insn.operands ++ " ; " ++ note,
        by simp [hoperands, hnote, toString, String.append_assoc], by simp; decide⟩
  obtain ⟨rest, htext, hrest⟩ := hshape
  rw [htext]
  exact h.mnemonic_word.firstWord_append rest hrest

def CapstonePlain {arch : Arch} (env : Env arch) : Prop :=
  ∀ code addr insns, env.disasmAll code addr = .ok insns → ∀ insn ∈ insns, PlainText insn

-- The instruction that is seen is one that Capstone has answered with.
theorem exists_disasm_of_observe {arch : Arch} {env : Env arch} {task : MachTask}
    {seen : Observation arch} (hseen : observe env task = .ok seen) :
    ∃ code addr insns, env.disasmAll code addr = .ok insns ∧ seen.insn ∈ insns := by
  unfold Tracer.observe readInsn at hseen
  split at hseen
  · cases hseen
  · split at hseen
    · cases hseen
    · rename_i insn hinsn
      cases hseen
      split at hinsn
      · cases hinsn
      · split at hinsn
        · cases hinsn
        · rename_i found rest hdisasm
          cases hinsn
          exact ⟨_, _, _, hdisasm, List.mem_cons_self ..⟩
        · cases hinsn

theorem CapstonePlain.observe {arch : Arch} {env : Env arch} (h : CapstonePlain env)
    {task : MachTask} {seen : Observation arch} (hseen : observe env task = .ok seen) :
    PlainText seen.insn := by
  obtain ⟨code, addr, insns, hdisasm, hmem⟩ := exists_disasm_of_observe hseen
  exact h code addr insns hdisasm seen.insn hmem

def CapstoneAscii {arch : Arch} (env : Env arch) : Prop :=
  ∀ code addr insns, env.disasmAll code addr = .ok insns → ∀ insn ∈ insns,
    Text.IsAscii insn.text

theorem isAscii_repr (n : Nat) : Text.IsAscii n.repr := by
  intro c hc
  have hdigit : c ∈ Nat.toDigits 10 n := by simpa using hc
  have hisDigit : c.isDigit = true := Nat.isDigit_of_mem_toDigits (by decide) (by decide) hdigit
  unfold Char.isDigit at hisDigit
  rw [Bool.and_eq_true, decide_eq_true_eq, decide_eq_true_eq] at hisDigit
  exact (UInt32.le_iff_toNat_le.mp hisDigit.2).trans_lt (by decide)

-- The tracer adds nothing but ASCII to the text.
theorem isAscii_fullText (arch : Arch) (callDepth : Nat) (mnemonic : String) {text : String}
    (h : Text.IsAscii text) :
    Text.IsAscii (fullText text (detectCall arch callDepth mnemonic).2) := by
  have hannotation : Text.IsAscii (detectCall arch callDepth mnemonic).2 := by
    rcases detectCall_cases arch callDepth mnemonic with ⟨_, _, n, hn⟩ | ⟨_, _, n, hn⟩ | ⟨_, _, hn⟩
    · rw [hn]
      exact Text.IsAscii.append (Text.IsAscii.append (by decide) (isAscii_repr n)) (by decide)
    · rw [hn]
      exact Text.IsAscii.append (Text.IsAscii.append (by decide) (isAscii_repr n)) (by decide)
    · rw [hn]
      decide
  unfold fullText
  split
  · exact h
  · exact Text.IsAscii.append (Text.IsAscii.append h (by decide)) hannotation

end Capstone

end Tdb.Tracer
