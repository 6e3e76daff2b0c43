import Tdb.Library.LastWrite
import Tdb.Tracer.Invariant

namespace Tdb.Tracer

open Std Tdb.Library Tdb.Storage

variable {arch : Arch}

-- The snapshot that a call puts into the cache: its base and its bytes.
def captured (env : Env arch) (t : Tracer) : Option (UInt64 × List UInt8) :=
  match observe env t.task with
  | .error _ => none
  | .ok seen =>
      let sp := seen.state.sp
      if sp ≠ (t.initLastSp sp).lastSp ∨ isStoreMnemonic seen.insn.mnemonicText then
        match t.task.readMemory env.toKernel (saturatingSub sp 128) 256 with
        | .ok data => some (saturatingSub sp 128, data)
        | .error _ => none
      else none

theorem mem_diffWindow_iff (base : UInt64) (oldData newData : List UInt8) (c : MemChange) :
    c ∈ diffWindow base oldData newData ↔
      ∃ i, oldData[i]? = some c.oldVal ∧ newData[i]? = some c.newVal ∧ c.newVal ≠ c.oldVal ∧
        c.addr = base + UInt64.ofNat i := by
  simp only [diffWindow, List.mem_filterMap]
  constructor
  · rintro ⟨⟨⟨oldVal, newVal⟩, i⟩, hmem, hc⟩
    rw [List.mk_mem_zipIdx_iff_getElem?, List.getElem?_zip_eq_some] at hmem
    split at hc
    · rename_i hne
      obtain rfl := Option.some.inj hc
      exact ⟨i, hmem.1, hmem.2, hne, rfl⟩
    · cases hc
  · rintro ⟨i, hold, hnew, hne, haddr⟩
    refine ⟨((c.oldVal, c.newVal), i), ?_, ?_⟩
    · rw [List.mk_mem_zipIdx_iff_getElem?, List.getElem?_zip_eq_some]
      exact ⟨hold, hnew⟩
    · simp only [ne_eq, hne, not_false_eq_true, if_true, ← haddr]

section SingleStep

variable {env : Env arch} {t : Tracer}

theorem detectMemChanges_eq {seen : Observation arch} (h : observe env t.task = .ok seen) :
    (t.initLastSp seen.state.sp).detectMemChanges env seen.state.sp seen.insn.mnemonicText =
      match captured env t with
      | none => (t.memoryCache, [])
      | some (base, newData) =>
          (t.memoryCache.insert base newData, match t.memoryCache[base]? with
            | some oldData => diffWindow base oldData newData
            | none => []) := by
  unfold detectMemChanges captured
  simp only [h, initLastSp_task, initLastSp_memoryCache]
  split
  · cases hdata : t.task.readMemory env.toKernel (saturatingSub seen.state.sp 128) 256 with
    | error e => rfl
    | ok newData =>
        cases hold : t.memoryCache[saturatingSub seen.state.sp 128]? <;> simp only [hold]
  · rfl

theorem next_memoryCache (t : Tracer) (env : Env arch) :
    (next t env).memoryCache = match captured env t with
      | none => t.memoryCache
      | some (base, newData) => t.memoryCache.insert base newData := by
  rw [next_field Tracer.memoryCache (fun _ _ => rfl) (fun _ _ => rfl)]
  cases h : observe env t.task with
  | error e => simp only [captured, h]
  | ok seen =>
      simp only [recorded, detectMemChanges_eq h]
      cases captured env t <;> rfl

theorem entryOf_memChanges {seen : Observation arch} (h : observe env t.task = .ok seen) :
    (entryOf env t seen).memChanges = match captured env t with
      | none => []
      | some (base, newData) => match t.memoryCache[base]? with
          | some oldData => diffWindow base oldData newData
          | none => [] := by
  simp only [entryOf, makeEntry, detectMemChanges_eq h]
  cases captured env t <;> rfl

end SingleStep

section Run

-- The snapshots of a run, by the number of the call.
def capturedAt (start : Tracer) (envs : List (Env arch)) (k : Nat) :
    Option (UInt64 × List UInt8) :=
  envs[k]?.bind fun env => captured env (run next start (envs.take k))

variable {start : Tracer} {envs : List (Env arch)}

-- The cache holds the latest snapshot of each window.
theorem memoryCache_take_iff (hempty : start.memoryCache = ∅) (k : Nat) (base : UInt64)
    (oldData : List UInt8) :
    (run next start (envs.take k)).memoryCache[base]? = some oldData ↔
      ∃ j, LastWrite (capturedAt start envs) base k j oldData := by
  refine lookup_eq_some_iff_lastWrite
    (fun k base => (run next start (envs.take k)).memoryCache[base]?) ?_ ?_ k base oldData
  · simp [hempty]
  · intro k base
    simp only [run_take_succ, capturedAt]
    cases envs[k]? with
    | none => rfl
    | some env =>
        simp only [Option.bind_some, next_memoryCache]
        cases captured env (run next start (envs.take k)) with
        | none => rfl
        | some snapshot => exact OrderedMap.getElem?_insert_eq _ _ _ _

-- The changes in an entry are the bytes on which the latest two snapshots of a window differ.
theorem mem_memChanges_iff (hempty : start.memoryCache = ∅) {k : Nat} {env : Env arch}
    {e : TraceEntry} (henv : envs[k]? = some env)
    (he : storedEntry env (run next start (envs.take k)) = some e) (c : MemChange) :
    c ∈ e.memChanges ↔ ∃ base newData j oldData, capturedAt start envs k = some (base, newData) ∧
      LastWrite (capturedAt start envs) base k j oldData ∧
        c ∈ diffWindow base oldData newData := by
  obtain ⟨seen, hseen, rfl⟩ := (storedEntry_eq_some_iff e).mp he
  have hat : capturedAt start envs k = captured env (run next start (envs.take k)) := by
    simp only [capturedAt, henv, Option.bind_some]
  rw [entryOf_memChanges hseen, ← hat]
  cases hcap : capturedAt start envs k with
  | none => simp
  | some snapshot =>
      obtain ⟨base, newData⟩ := snapshot
      simp only [Option.some.injEq, Prod.mk.injEq]
      cases hold : (run next start (envs.take k)).memoryCache[base]? with
      | none =>
          have hno : ∀ j oldData, ¬ LastWrite (capturedAt start envs) base k j oldData := by
            intro j oldData hlast
            have hsome := (memoryCache_take_iff hempty k base oldData).mpr ⟨j, hlast⟩
            rw [hold] at hsome
            cases hsome
          constructor
          · simp
          · rintro ⟨_, _, j, oldData, ⟨rfl, rfl⟩, hlast, _⟩
            exact False.elim (hno j oldData hlast)
      | some oldData =>
          obtain ⟨j, hlast⟩ := (memoryCache_take_iff hempty k base oldData).mp hold
          constructor
          · intro hc
            exact ⟨base, newData, j, oldData, ⟨rfl, rfl⟩, hlast, hc⟩
          · rintro ⟨_, _, i, other, ⟨rfl, rfl⟩, hother, hc⟩
            have hsame := (memoryCache_take_iff hempty k base other).mpr ⟨i, hother⟩
            rw [hold, Option.some.injEq] at hsame
            rwa [hsame]

end Run

section Attribution

variable (memory : Nat → UInt64 → UInt8) (start : Tracer) (envs : List (Env arch))

-- `memory k` is the memory of the process before the instruction of the `k`-th call, and
-- all goes well: every call finds an instruction, reads what is there and runs it.
structure Attached : Prop where
  sees : ∀ env ∈ envs, ∃ seen, observe env start.task = .ok seen
  reads : ∀ k env, envs[k]? = some env → ∀ addr size data,
    start.task.readMemory env.toKernel addr size = .ok data →
      ∀ i byte, data[i]? = some byte → byte = memory k (addr + UInt64.ofNat i)
  steps : ∀ env ∈ envs, ∀ sig, env.ptraceStep start.pid sig = .ok ()

-- A change recorded with an instruction is one that this instruction made.
def Attributed : Prop :=
  ∀ k e, (run next start envs).db.getAll[k]? = some e → ∀ c ∈ e.memChanges,
    c.oldVal = memory k c.addr ∧ c.newVal = memory (k + 1) c.addr

-- Whatever both of two successive snapshots of a window cover has not changed in between.
def WindowsUnchanged : Prop :=
  ∀ j k base oldData newData, LastWrite (capturedAt start envs) base k j oldData →
    capturedAt start envs k = some (base, newData) → ∀ i < oldData.length, i < newData.length →
      memory j (base + UInt64.ofNat i) = memory k (base + UInt64.ofNat i)

variable {memory start envs}

theorem capturedAt_reads (h : Attached memory start envs) {k : Nat} {base : UInt64}
    {data : List UInt8} (hcap : capturedAt start envs k = some (base, data)) {i : Nat}
    {byte : UInt8} (hbyte : data[i]? = some byte) : byte = memory k (base + UInt64.ofNat i) := by
  obtain ⟨env, henv, hcap⟩ := Option.bind_eq_some_iff.mp hcap
  unfold captured at hcap
  split at hcap
  · cases hcap
  · dsimp only at hcap
    split at hcap
    · split at hcap
      · rename_i hread
        cases hcap
        rw [run_task] at hread
        exact h.reads k env henv _ _ _ hread i byte hbyte
      · cases hcap
    · cases hcap

theorem mem_memChanges_memory (h : Attached memory start envs) (hempty : start.memoryCache = ∅)
    {k : Nat} {env : Env arch} {e : TraceEntry} (henv : envs[k]? = some env)
    (he : storedEntry env (run next start (envs.take k)) = some e) {c : MemChange}
    (hc : c ∈ e.memChanges) :
    c.newVal ≠ c.oldVal ∧ c.newVal = memory k c.addr ∧ ∃ base newData j oldData i,
      capturedAt start envs k = some (base, newData) ∧
        LastWrite (capturedAt start envs) base k j oldData ∧ i < oldData.length ∧
          i < newData.length ∧ c.addr = base + UInt64.ofNat i ∧ c.oldVal = memory j c.addr := by
  obtain ⟨base, newData, j, oldData, hcap, hlast, hdiff⟩ :=
    (mem_memChanges_iff hempty henv he c).mp hc
  obtain ⟨i, hold, hnew, hne, haddr⟩ := (mem_diffWindow_iff _ _ _ _).mp hdiff
  have hnewVal := capturedAt_reads h hcap hnew
  have holdVal := capturedAt_reads h hlast.wrote hold
  rw [← haddr] at hnewVal holdVal
  exact ⟨hne, hnewVal, base, newData, j, oldData, i, hcap, hlast,
    (List.getElem?_eq_some_iff.mp hold).1, (List.getElem?_eq_some_iff.mp hnew).1, haddr, holdVal⟩

end Attribution

-- A recorded change lies between two snapshots taken before the instruction runs, so it is
-- never that instruction's own.
theorem new_run_attributed_iff {taskForPid : Int32 → Int32 × MachPort}
    {buildCapstone : Except String Unit} {pid : Int32} {dbPath : String} {start : Tracer}
    (hnew : new taskForPid buildCapstone pid dbPath = .ok start) {envs : List (Env arch)}
    {memory : Nat → UInt64 → UInt8} (h : Attached memory start envs) :
    Attributed memory start envs ↔ WindowsUnchanged memory start envs := by
  obtain ⟨task, rfl⟩ := new_eq_ok hnew
  have hentries := getElem?_getAll_run (fresh_gapFree task pid dbPath) envs fresh_getAll h.sees
  have hempty : (fresh task pid { entries := ∅, path := dbPath }).memoryCache = ∅ := rfl
  constructor
  · intro hattr j k base oldData newData hlast hcap i hi hi'
    obtain ⟨env, henv, _⟩ := Option.bind_eq_some_iff.mp hcap
    obtain ⟨seen, hseen⟩ := h.sees env (List.mem_of_getElem? henv)
    have he : storedEntry env (run next _ (envs.take k)) = some (entryOf env _ seen) :=
      (storedEntry_eq_some_iff _).mpr ⟨seen, by rw [run_task, hseen], rfl⟩
    have hold := capturedAt_reads h hlast.wrote (List.getElem?_eq_getElem hi)
    have hnewVal := capturedAt_reads h hcap (List.getElem?_eq_getElem hi')
    by_contra hne
    rw [← hold, ← hnewVal] at hne
    let c : MemChange := ⟨base + UInt64.ofNat i, oldData[i], newData[i]⟩
    have hdiff : c ∈ diffWindow base oldData newData :=
      (mem_diffWindow_iff _ _ _ _).mpr ⟨i, List.getElem?_eq_getElem hi,
        List.getElem?_eq_getElem hi', Ne.symm hne, rfl⟩
    have hc := (mem_memChanges_iff hempty henv he c).mpr
      ⟨base, newData, j, oldData, hcap, hlast, hdiff⟩
    have hown := (hattr k _ (by rw [hentries, henv]; exact he) c hc).1
    exact hne (hown.trans hnewVal.symm)
  · intro hsame k e he c hc
    rw [hentries] at he
    obtain ⟨env, henv, he⟩ := Option.bind_eq_some_iff.mp he
    obtain ⟨hne, hnewVal, base, newData, j, oldData, i, hcap, hlast, hi, hi', haddr, holdVal⟩ :=
      mem_memChanges_memory h hempty henv he hc
    have heq := hsame j k base oldData newData hlast hcap i hi hi'
    rw [← haddr] at heq
    exact False.elim (hne (by rw [hnewVal, holdVal, heq]))

section TwoStores

-- The first of two stores writes a byte at the stack pointer.
def storedByte (k : Nat) (addr : UInt64) : UInt8 :=
  if 0 < k ∧ addr = 0x1000 then 0x2a else 0

def twoStores : List (Env .aarch64) :=
  let str : Insn := { bytes := [0xe0, 0x03, 0, 0xf9], mnemonic := some "str", opStr := some "x0, [sp]" }
  [scripted { sp := 0x1000, pc := 0x4000 } (storedByte 0) str (.ok ()) (.ok (.stopped 42 .SIGTRAP)),
    scripted { sp := 0x1000, pc := 0x4004 } (storedByte 1) str (.ok ()) (.ok (.stopped 42 .SIGTRAP))]

theorem attached_twoStores : Attached storedByte sampleStart twoStores where
  sees env henv := by
    rcases List.mem_pair.mp henv with rfl | rfl <;> exact ⟨_, rfl⟩
  reads k env henv addr size data hread i byte hbyte := by
    match k with
    | 0 =>
        cases henv
        exact scripted_readMemory hread hbyte
    | 1 =>
        cases henv
        exact scripted_readMemory hread hbyte
    | k + 2 => cases henv
  steps env henv sig := by
    rcases List.mem_pair.mp henv with rfl | rfl <;> rfl

theorem new_run_attributed_iff_twoStores :
    Attributed storedByte sampleStart twoStores ↔
      WindowsUnchanged storedByte sampleStart twoStores :=
  new_run_attributed_iff new_sampleStart attached_twoStores

-- What the first store writes is recorded with the second, whose own effect is not.
theorem twoStores_misattributed :
    ¬ ∀ memory (envs : List (Env .aarch64)), Attached memory sampleStart envs →
      Attributed memory sampleStart envs := by
  intro h
  have hchanges : (run next sampleStart twoStores).db.getAll[1]?.map TraceEntry.memChanges =
      some [⟨0x1000, 0, 0x2a⟩] := by decide +kernel
  obtain ⟨e, he, hmem⟩ := Option.map_eq_some_iff.mp hchanges
  have hown := (h storedByte twoStores attached_twoStores 1 e he ⟨0x1000, 0, 0x2a⟩
    (by rw [hmem]; exact List.mem_singleton_self _)).1
  revert hown
  decide

end TwoStores

end Tdb.Tracer
