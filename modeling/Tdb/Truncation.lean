import Tdb.Launcher.Release
import Tdb.Storage.SaveLoad
import Tdb.Tui.Theorems

namespace Tdb

open Tdb.Library Tdb.Storage Tdb.Stats Tdb.Tui Tdb.TraceLoop

section Row

variable {app : App} {i : Nat} {e : TraceEntry}

-- The row of an entry is drawn, with the text whole or as a beginning of it.
def RowShortened (app : App) (i : Nat) (e : TraceEntry) : Prop :=
  ∃ row, timelineRow app i = .ok row ∧ Text.Shortened e.insnText ".." row.insn

theorem rowShortened_iff (hentry : app.trace[i]? = some e) :
    RowShortened app i e ↔ (e.insnText.utf8ByteSize > 22 → Text.EndsAt e.insnText 20) := by
  rw [← Text.truncated_ok_iff 22 20 ".." (midCharacter e.insnText 20), ← insnShort_eq]
  unfold RowShortened timelineRow index
  rw [hentry]
  dsimp only
  cases hshort : insnShort e.insnText with
  | error panic => simp
  | ok insn =>
      rw [insnShort_eq] at hshort
      exact iff_of_true ⟨_, rfl, Text.truncated_shortened hshort⟩ ⟨insn, rfl⟩

end Row

section Line

variable {s : LoopState} {entry : TraceEntry}

-- The progress line of an entry is printed likewise.
def LineShortened (s : LoopState) (entry : TraceEntry) : Prop :=
  ∃ s' line, printProgress s entry = .next s' ∧ s'.progress = s.progress ++ [line] ∧
    Text.Shortened entry.insnText "..." line.insn

theorem lineShortened_iff (hdue : Launcher.LineDue s entry) :
    LineShortened s entry ↔
      (entry.insnText.utf8ByteSize > 50 → Text.EndsAt entry.insnText 47) := by
  rw [← Text.truncated_ok_iff 50 47 "..."
    ({ message := Text.midCharacter entry.insnText 47 } : Panic), ← shortInsn_eq]
  unfold LineShortened printProgress
  unfold Launcher.LineDue at hdue
  rw [if_pos hdue]
  cases hshort : shortInsn entry.insnText with
  | error panic => simp
  | ok insn =>
      rw [shortInsn_eq] at hshort
      exact iff_of_true ⟨_, _, rfl, rfl, Text.truncated_shortened hshort⟩ ⟨insn, rfl⟩

end Line

-- Both cuts are safe exactly where a character ends at the byte they are made at.
theorem new_loop_truncates_iff (platform : Platform) (order : HashOrder) (db : TraceDb)
    (traceFile : String) (events : List Tui.Event) :
    (∀ p ∈ visited (Tui.handle platform) (App.new platform order db traceFile) events,
      ∀ (i : Nat) e, db.getAll[i]? = some e →
        (RowShortened p.1 i e ↔ (e.insnText.utf8ByteSize > 22 → Text.EndsAt e.insnText 20))) ∧
    ∀ s entry, Launcher.LineDue s entry →
      (LineShortened s entry ↔
        (entry.insnText.utf8ByteSize > 50 → Text.EndsAt entry.insnText 47)) := by
  constructor
  · intro p hp i e hentry
    have htrace := (visited_wellIndexed order db traceFile events p hp).2
    exact rowShortened_iff (htrace ▸ hentry)
  · intro s entry hdue
    exact lineShortened_iff hdue

section Wide

-- An entry with a two-byte character in bytes 19 and 20 of its text.
def wideDb : TraceDb :=
  TraceDb.ofInserts "wide.tdb" [⟨0, 0x1000, [0xc0], "ldr x0, [sp, #0x10]é; x", "\x7b\x7d", []⟩]

-- Such a trace is saved and loaded, and drawing it panics.
theorem load_wideDb_row_panics :
    ¬ ∀ (data : List UInt8) (path : String) (db : TraceDb), TraceDb.load (.ok data) path = .ok db →
      ∀ p ∈ visited (Tui.handle samplePlatform)
        (App.new samplePlatform .inKeyOrder db "wide.tdb") [.draw true],
        ∀ (i : Nat) e, db.getAll[i]? = some e → RowShortened p.1 i e := by
  intro h
  have hload := TraceDb.load_saved wideDb (by decide +kernel) "wide.tdb"
  have hall : wideDb.getAll =
      [⟨0, 0x1000, [0xc0], "ldr x0, [sp, #0x10]é; x", "\x7b\x7d", []⟩] := by
    decide +kernel
  have hentry : wideDb.getAll[0]? =
      some ⟨0, 0x1000, [0xc0], "ldr x0, [sp, #0x10]é; x", "\x7b\x7d", []⟩ := by
    rw [hall]
    rfl
  have hrow := h _ _ _ hload _ (List.mem_cons_self ..) 0 _ hentry
  rw [rowShortened_iff hentry] at hrow
  obtain ⟨kept, hkept⟩ := Text.endsAt_iff.mp (hrow (by decide +kernel))
  have hnone : Text.slicePrefix "ldr x0, [sp, #0x10]é; x".toList 20 = none := by decide +kernel
  rw [hnone] at hkept
  cases hkept

end Wide

end Tdb
