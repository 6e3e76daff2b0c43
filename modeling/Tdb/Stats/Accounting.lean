import Tdb.Stats.Lemmas
import Tdb.Tracer.Markers
import Tdb.Tracer.Invariant

namespace Tdb.Stats

open Tdb.Library Tdb.Storage Tdb.Tracer

variable {arch : Arch}

theorem countP_of_forall₂ {α β : Type} {R : α → β → Prop} {p : α → Bool} {q : β → Bool}
    {left : List α} {right : List β} (h : List.Forall₂ R left right)
    (hpq : ∀ a b, b ∈ right → R a b → p a = q b) : left.countP p = right.countP q := by
  induction h with
  | nil => rfl
  | cons hab hrest ih =>
      rw [List.countP_cons, List.countP_cons, hpq _ _ (List.mem_cons_self ..) hab,
        ih fun a b hb => hpq a b (List.mem_cons_of_mem _ hb)]

-- Three classes that no item shares cover at most the whole list.
theorem countP_classes_le {α : Type} {p q r : α → Bool} (l : List α)
    (h : ∀ a ∈ l, (p a).toNat + (q a).toNat + (r a).toNat ≤ 1) :
    l.countP p + l.countP q + l.countP r ≤ l.length := by
  induction l with
  | nil => simp
  | cons a rest ih =>
      have hfirst := h a (List.mem_cons_self ..)
      have hrest := ih fun b hb => h b (List.mem_cons_of_mem a hb)
      have hnat : ∀ b : Bool, (if b = true then 1 else 0) = b.toNat := by decide
      simp only [List.countP_cons, List.length_cons, hnat]
      omega

section Classes

theorem isBranchMnemonic_of_isCall {mnemonic : String} (h : isCall arch mnemonic = true) :
    isBranchMnemonic mnemonic = false := by
  cases arch with
  | x86_64 =>
      simp only [isCall, Bool.or_eq_true, beq_iff_eq] at h
      rcases h with rfl | rfl <;> decide
  | aarch64 =>
      simp only [isCall, Bool.or_eq_true, beq_iff_eq] at h
      rcases h with ((rfl | rfl) | rfl) | rfl <;> decide

theorem isBranchMnemonic_of_isReturn {mnemonic : String} (h : isReturn arch mnemonic = true) :
    isBranchMnemonic mnemonic = false := by
  cases arch with
  | x86_64 =>
      simp only [isReturn, Bool.or_eq_true, beq_iff_eq] at h
      rcases h with rfl | rfl <;> decide
  | aarch64 =>
      simp only [isReturn, Bool.or_eq_true, beq_iff_eq] at h
      rcases h with (rfl | rfl) | rfl <;> decide

theorem classes_disjoint (arch : Arch) (mnemonic : String) :
    (isCall arch mnemonic).toNat + (isReturn arch mnemonic).toNat +
      (isBranchMnemonic mnemonic).toNat ≤ 1 := by
  cases hcall : isCall arch mnemonic with
  | true => simp [isCall_not_isReturn hcall, isBranchMnemonic_of_isCall hcall]
  | false =>
      cases hret : isReturn arch mnemonic with
      | true => simp [isBranchMnemonic_of_isReturn hret]
      | false => cases isBranchMnemonic mnemonic <;> simp

end Classes

section Entry

-- What the statistics read back from an entry's text is what the tracer saw.
variable {e : TraceEntry} {seen : Observation arch} (he : Records e seen)
  (hplain : PlainText seen.insn)
include he hplain

theorem Records.contains_CALL :
    Text.contains e.insnText "CALL" = isCall arch seen.insn.mnemonicText := by
  obtain ⟨callDepth, htext⟩ := he.insnText
  rw [htext, entryText_contains_CALL, hplain.not_contains (show 'C' ∈ "CALL".toList by decide)
    (by decide) (by decide), Bool.false_or]

theorem Records.contains_RETURN :
    Text.contains e.insnText "RETURN" = isReturn arch seen.insn.mnemonicText := by
  obtain ⟨callDepth, htext⟩ := he.insnText
  rw [htext, entryText_contains_RETURN, hplain.not_contains (show 'R' ∈ "RETURN".toList by decide)
    (by decide) (by decide), Bool.false_or]

theorem Records.mnemonicOf_eq : mnemonicOf e = seen.insn.mnemonicText := by
  obtain ⟨callDepth, htext⟩ := he.insnText
  rw [mnemonicOf, htext, hplain.firstWord_fullText]

end Entry

-- The counters of a trace against the instructions that were recorded.
structure CallAccounting (order : HashOrder) (db : TraceDb) (seen : List (Observation arch)) :
    Prop where
  recorded : List.Forall₂ Records db.getAll seen
  calls : (TraceStats.analyze order db).callCount =
    seen.countP fun s => isCall arch s.insn.mnemonicText
  returns : (TraceStats.analyze order db).retCount =
    seen.countP fun s => isReturn arch s.insn.mnemonicText
  jumps : (TraceStats.analyze order db).jumpCount =
    seen.countP fun s => isBranchMnemonic s.insn.mnemonicText
  one_class : ∀ e ∈ db.getAll, (Text.contains e.insnText "CALL").toNat +
    (Text.contains e.insnText "RETURN").toNat + (isBranchMnemonic (mnemonicOf e)).toNat ≤ 1
  total : (TraceStats.analyze order db).callCount + (TraceStats.analyze order db).retCount +
    (TraceStats.analyze order db).jumpCount ≤ (TraceStats.analyze order db).totalSteps

theorem callAccounting_of_records {order : HashOrder} {db : TraceDb}
    {seen : List (Observation arch)} (hrecorded : List.Forall₂ Records db.getAll seen)
    (hplain : ∀ s ∈ seen, PlainText s.insn) : CallAccounting order db seen := by
  have hclass : ∀ e ∈ db.getAll, (Text.contains e.insnText "CALL").toNat +
      (Text.contains e.insnText "RETURN").toNat + (isBranchMnemonic (mnemonicOf e)).toNat ≤ 1 := by
    intro e he
    obtain ⟨s, hs, hrec⟩ := exists_of_mem_forall₂ hrecorded he
    rw [Records.contains_CALL hrec (hplain s hs), Records.contains_RETURN hrec (hplain s hs),
      Records.mnemonicOf_eq hrec (hplain s hs)]
    exact classes_disjoint arch _
  refine ⟨hrecorded, ?_, ?_, ?_, hclass, ?_⟩
  · rw [analyze_callCount]
    exact countP_of_forall₂ hrecorded fun e s hs he => Records.contains_CALL he (hplain s hs)
  · rw [analyze_retCount]
    exact countP_of_forall₂ hrecorded fun e s hs he => Records.contains_RETURN he (hplain s hs)
  · rw [analyze_jumpCount]
    refine countP_of_forall₂ hrecorded fun e s hs he => ?_
    rw [Records.mnemonicOf_eq he (hplain s hs)]
  · rw [analyze_callCount, analyze_retCount, analyze_jumpCount, analyze_totalSteps,
      ← TraceDb.length_getAll]
    exact countP_classes_le db.getAll hclass

theorem new_run_callAccounting {taskForPid : Int32 → Int32 × MachPort}
    {buildCapstone : Except String Unit} {pid : Int32} {dbPath : String} {start : Tracer}
    (hnew : Tracer.new taskForPid buildCapstone pid dbPath = .ok start) {envs : List (Env arch)}
    (hcapstone : ∀ env ∈ envs, CapstonePlain env) (order : HashOrder) :
    CallAccounting order (run next start envs).db (observations start.task envs) := by
  obtain ⟨task, rfl⟩ := new_eq_ok hnew
  apply callAccounting_of_records
  · exact getAll_run_records (fresh_gapFree task pid dbPath) envs fresh_getAll
  · intro s hs
    obtain ⟨env, henv, hseen⟩ := (mem_observations_iff _ envs s).mp hs
    exact (hcapstone env henv).observe hseen

theorem new_run_callAccounting_scripted :
    let envs := [scripted { sp := 0x1000, pc := 0x4000 } (fun _ => 0)
      { bytes := [0, 0, 0, 0x94], mnemonic := some "bl", opStr := some "#0x4000" } (.ok ())
      (.ok (.exited 42 0))]
    CallAccounting .inKeyOrder (run next sampleStart envs).db
      (observations sampleStart.task envs) := by
  refine new_run_callAccounting new_sampleStart ?_ .inKeyOrder
  intro env henv code addr insns hinsns insn hinsn
  obtain rfl := List.mem_singleton.mp henv
  cases hinsns
  obtain rfl := List.mem_singleton.mp hinsn
  have hnone : ∀ (test : Char → Bool) (text : String),
      text.toList.all (fun c => !test c) = true → ∀ c ∈ text.toList, test c = false := by simp
  exact ⟨⟨by decide, hnone _ _ (by decide)⟩, hnone _ _ (by decide), hnone _ _ (by decide)⟩

end Tdb.Stats
