import Tdb.Stats.Lemmas
import Tdb.Web.Lemmas

namespace Tdb.Web

open Tdb.Library Tdb.Storage Tdb.Stats Tdb.Server

-- The header, the counters behind it and the exported ones are those of the statistics.
structure Viewer.AgreesWith (v : Viewer) (stats : TraceStats) : Prop where
  header_eq : v.header =
    { steps := stats.totalSteps, calls := stats.callCount, mem := stats.memChangeCount }
  counts_eq : v.callCnt = stats.callCount ∧ v.memCnt = stats.memChangeCount
  exported_eq : v.exportTrace.totalSteps = stats.totalSteps ∧
    v.exportTrace.calls = stats.callCount ∧ v.exportTrace.memoryChanges = stats.memChangeCount

-- The script loads the trace to its end, and counts no return as a call.
def CountsCallsOnly (db : TraceDb) : Prop :=
  db.getAll = [] ∨
    Readable db ∧ ∀ e ∈ db.getAll, Text.contains e.insnText "RETURN" = true →
      Text.contains e.insnText "CALL" = true

section Counts

variable (entries : List TraceEntry)

theorem countP_ofTrace :
    ((entries.map Entry.ofTrace).countP fun e => e.isCall || e.isRet) =
      entries.countP fun e =>
        Text.contains e.insnText "CALL" || Text.contains e.insnText "RETURN" := by
  rw [List.countP_map]
  rfl

theorem sum_ofTrace :
    ((entries.map Entry.ofTrace).map fun e => e.memChanges.length).sum =
      (entries.map fun e => e.memChanges.length).sum := by
  rw [List.map_map]
  congr 1
  apply List.map_congr_left
  intro e _
  simp [Entry.ofTrace]

-- Counting what meets one of two tests counts the first exactly when the second adds nothing.
theorem countP_or_eq_iff (p q : TraceEntry → Bool) :
    entries.countP (fun e => p e || q e) = entries.countP p ↔
      ∀ e ∈ entries, q e = true → p e = true := by
  induction entries with
  | nil => simp
  | cons e rest ih =>
      have hle : rest.countP p ≤ rest.countP fun e => p e || q e :=
        List.countP_mono_left fun x _ hx => by simp [hx]
      rw [List.forall_mem_cons, ← ih, List.countP_cons, List.countP_cons]
      cases hp : p e <;> cases hq : q e <;> simp
      omega

end Counts

section Load

variable (browser : Browser) (layout : Layout) (order : HashOrder) {db : TraceDb}

theorem agreesWith_iff {v : Viewer} {stats : TraceStats} {total calls mem : Nat}
    (htrace : v.trace.length = total) (htotal : total = stats.totalSteps)
    (hmem : mem = stats.memChangeCount)
    (hcounters : v.counters = (calls, mem, { steps := total, calls, mem })) :
    v.AgreesWith stats ↔ calls = stats.callCount := by
  simp only [Viewer.counters, Prod.mk.injEq] at hcounters
  obtain ⟨hcallCnt, hmemCnt, hheader⟩ := hcounters
  constructor
  · intro h
    rw [← hcallCnt]
    exact h.counts_eq.1
  · intro hcalls
    refine ⟨?_, ⟨hcallCnt.trans hcalls, hmemCnt.trans hmem⟩, htrace.trans htotal,
      hcallCnt.trans hcalls, hmemCnt.trans hmem⟩
    rw [hheader, htotal, hcalls, hmem]

-- Loading ends with the selection of the first entry, which leaves the counters alone.
theorem load_counters {first : TraceEntry} {rest : List TraceEntry} {regs : Value}
    (hall : db.getAll = first :: rest) (hparse : parseJson first.regs = some regs)
    (hne : regs ≠ .null) :
    (load browser layout db).viewer.trace = db.getAll.map Entry.ofTrace ∧
      (load browser layout db).viewer.counters =
        ((db.getAll.map Entry.ofTrace).countP fun e => e.isCall || e.isRet,
          ((db.getAll.map Entry.ofTrace).map fun e => e.memChanges.length).sum,
          { steps := db.count
            calls := (db.getAll.map Entry.ofTrace).countP fun e => e.isCall || e.isRet
            mem := ((db.getAll.map Entry.ofTrace).map fun e => e.memChanges.length).sum }) := by
  have hselected :=
    Viewer.showStep_selected browser (loadedRender browser layout db regs).viewer layout 0
  rw [load_of_readable browser layout db hall hparse hne]
  exact ⟨hselected.trace_eq, hselected.counters_eq⟩

theorem load_readable_agrees_iff (hreadable : Readable db) :
    (load browser layout db).viewer.AgreesWith (getStats order db) ↔
      ∀ e ∈ db.getAll, Text.contains e.insnText "RETURN" = true →
        Text.contains e.insnText "CALL" = true := by
  obtain ⟨first, rest, regs, hall, hparse, hne⟩ := hreadable
  obtain ⟨htrace, hcounters⟩ := load_counters browser layout hall hparse hne
  have hlength : (load browser layout db).viewer.trace.length = db.count := by
    rw [htrace, List.length_map, db.length_getAll]
  unfold getStats
  rw [agreesWith_iff hlength _ _ hcounters, countP_ofTrace, analyze_callCount, countP_or_eq_iff]
  · rw [analyze_totalSteps]
  · rw [sum_ofTrace, analyze_memChangeCount]

-- The header is right for a trace whose first registers can be read and that marks no return.
theorem load_agrees_iff (db : TraceDb) :
    (load browser layout db).viewer.AgreesWith (getStats order db) ↔ CountsCallsOnly db := by
  unfold CountsCallsOnly
  by_cases hreadable : Readable db
  · have hne : db.getAll ≠ [] := by
      obtain ⟨first, rest, _, hall, _⟩ := hreadable
      simp [hall]
    rw [load_readable_agrees_iff browser layout order hreadable]
    simp [hne, hreadable]
  · rw [load_of_not_readable browser layout db hreadable]
    constructor
    · intro h
      have hsteps := congrArg Header.steps h.header_eq
      have hcount : 0 = db.count := by
        simpa [getStats] using hsteps
      rw [← db.length_getAll] at hcount
      exact Or.inl (List.length_eq_zero_iff.mp hcount.symm)
    · rintro (hempty | ⟨hread, _⟩)
      · have hcount : db.count = 0 := by
          rw [← db.length_getAll, hempty]
          rfl
        constructor <;> simp [getStats, hempty, hcount, Viewer.exportTrace]
      · exact absurd hread hreadable

-- One return and no call: the header says one call, the statistics none.
theorem load_return_disagrees :
    ¬ ∀ db : TraceDb,
      (load sampleBrowser sampleLayout db).viewer.AgreesWith (getStats .inKeyOrder db) := by
  intro h
  have hcalls := (h sampleDb).counts_eq.1
  revert hcalls
  decide +kernel

end Load

end Tdb.Web
