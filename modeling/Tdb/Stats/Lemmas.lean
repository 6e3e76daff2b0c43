import Mathlib.Algebra.BigOperators.Group.List.Basic
import Mathlib.Algebra.GroupWithZero.Nat
import Tdb.Stats
import Tdb.Storage.Lemmas

namespace Tdb.Stats

open Tdb.Library Tdb.Storage

section Fold

-- A counter of the tally that each entry grows by its own amount.
theorem foldl_add_sum (counter : Tally → Nat) (amount : TraceEntry → Nat)
    (hadd : ∀ tally e, counter (tally.add e) = counter tally + amount e)
    (entries : List TraceEntry) (tally : Tally) :
    counter (entries.foldl Tally.add tally) = counter tally + (entries.map amount).sum := by
  induction entries generalizing tally with
  | nil => rfl
  | cons e rest ih =>
      rw [List.foldl_cons, ih, hadd, List.map_cons, List.sum_cons, Nat.add_assoc]

theorem sum_indicator_eq_countP (test : TraceEntry → Bool) (entries : List TraceEntry) :
    (entries.map fun e => if test e then 1 else 0).sum = entries.countP test := by
  induction entries with
  | nil => rfl
  | cons e rest ih =>
      rw [List.map_cons, List.sum_cons, ih, List.countP_cons, Nat.add_comm]

theorem foldl_add_countP (counter : Tally → Nat) (test : TraceEntry → Bool)
    (hadd : ∀ tally e, counter (tally.add e) = counter tally + if test e then 1 else 0)
    (entries : List TraceEntry) (tally : Tally) :
    counter (entries.foldl Tally.add tally) = counter tally + entries.countP test := by
  rw [foldl_add_sum counter _ hadd, sum_indicator_eq_countP]

end Fold

section Counters

variable (order : HashOrder) (db : TraceDb)

@[simp] theorem analyze_totalSteps :
    (TraceStats.analyze order db).totalSteps = db.count := db.length_getAll

@[simp] theorem analyze_callCount :
    (TraceStats.analyze order db).callCount =
      db.getAll.countP fun e => Text.contains e.insnText "CALL" := by
  have h := foldl_add_countP Tally.callCount (fun e => Text.contains e.insnText "CALL")
    (fun tally e => by simp only [Tally.add]; split <;> rfl) db.getAll {}
  exact h.trans (Nat.zero_add _)

@[simp] theorem analyze_retCount :
    (TraceStats.analyze order db).retCount =
      db.getAll.countP fun e => Text.contains e.insnText "RETURN" := by
  have h := foldl_add_countP Tally.retCount (fun e => Text.contains e.insnText "RETURN")
    (fun tally e => by simp only [Tally.add]; split <;> rfl) db.getAll {}
  exact h.trans (Nat.zero_add _)

@[simp] theorem analyze_jumpCount :
    (TraceStats.analyze order db).jumpCount =
      db.getAll.countP fun e => isBranchMnemonic (mnemonicOf e) := by
  have h := foldl_add_countP Tally.jumpCount (fun e => isBranchMnemonic (mnemonicOf e))
    (fun tally e => by simp only [Tally.add]; split <;> rfl) db.getAll {}
  exact h.trans (Nat.zero_add _)

@[simp] theorem analyze_memChangeCount :
    (TraceStats.analyze order db).memChangeCount =
      (db.getAll.map fun e => e.memChanges.length).sum := by
  have h := foldl_add_sum Tally.memChangeCount (fun e => e.memChanges.length)
    (fun tally e => rfl) db.getAll {}
  exact h.trans (Nat.zero_add _)

end Counters

end Tdb.Stats
