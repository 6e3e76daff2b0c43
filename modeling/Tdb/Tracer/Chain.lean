import Tdb.Tracer.Snapshots

namespace Tdb.Tracer

open Std Tdb.Library Tdb.Storage

variable {arch : Arch}

-- The recorded changes of every byte follow on one another: the old value of each is the new
-- value of the one before.
def Chained (entries : List TraceEntry) : Prop :=
  ∀ (j k : Nat) e e' c c', j < k → entries[j]? = some e → entries[k]? = some e' →
    c ∈ e.memChanges → c' ∈ e'.memChanges → c'.addr = c.addr →
    (∀ (i : Nat) x, j < i → i < k → entries[i]? = some x → ∀ d ∈ x.memChanges, d.addr ≠ c.addr) →
      c'.oldVal = c.newVal

section Windows

-- The window at `base` has a byte of this address.
def Covers (base addr : UInt64) : Prop :=
  (addr - base).toNat < 256

def window (memory : UInt64 → UInt8) (base : UInt64) : List UInt8 :=
  (List.range 256).map fun i => memory (base + UInt64.ofNat i)

theorem getElem?_window_iff {memory : UInt64 → UInt8} {base : UInt64} {i : Nat} {value : UInt8} :
    (window memory base)[i]? = some value ↔ i < 256 ∧ value = memory (base + UInt64.ofNat i) := by
  unfold window
  rw [List.getElem?_map, Option.map_eq_some_iff]
  simp only [List.getElem?_eq_some_iff, List.length_range, List.getElem_range]
  constructor
  · rintro ⟨_, ⟨hi, rfl⟩, rfl⟩
    exact ⟨hi, rfl⟩
  · rintro ⟨hi, rfl⟩
    exact ⟨i, ⟨hi, rfl⟩, rfl⟩

-- Two readings of one window differ where the memory does.
theorem mem_diffWindow_window_iff (older newer : UInt64 → UInt8) (base : UInt64) (c : MemChange) :
    c ∈ diffWindow base (window older base) (window newer base) ↔
      Covers base c.addr ∧ c.oldVal = older c.addr ∧ c.newVal = newer c.addr ∧
        c.newVal ≠ c.oldVal := by
  rw [mem_diffWindow_iff]
  simp only [getElem?_window_iff]
  constructor
  · rintro ⟨i, ⟨hi, hold⟩, ⟨_, hnew⟩, hne, haddr⟩
    have hoffset : c.addr - base = UInt64.ofNat i := by
      rw [haddr, UInt64.add_comm]
      exact UInt64.add_sub_cancel (UInt64.ofNat i) base
    have hsmall : i < UInt64.size := by
      unfold UInt64.size
      omega
    refine ⟨?_, haddr ▸ hold, haddr ▸ hnew, hne⟩
    unfold Covers
    rwa [hoffset, UInt64.toNat_ofNat_of_lt' hsmall]
  · rintro ⟨hcovers, hold, hnew, hne⟩
    have haddr : c.addr = base + UInt64.ofNat (c.addr - base).toNat := by
      rw [UInt64.ofNat_toNat, UInt64.add_comm]
      exact (UInt64.sub_add_cancel c.addr base).symm
    exact ⟨_, ⟨hcovers, haddr ▸ hold⟩, ⟨hcovers, haddr ▸ hnew⟩, hne, haddr⟩

end Windows

section Looks

-- `memory k` is the memory of the process when entry `k` is recorded, and every window that is
-- read comes back whole and as it is.
def ReadsMemory (memory : Nat → UInt64 → UInt8) (start : Tracer) (envs : List (Env arch)) : Prop :=
  ∀ (k : Nat) t env seen, (recordings start envs)[k]? = some (t, env) →
    observe env start.task = .ok seen →
      start.task.readMemory env.toKernel (saturatingSub seen.state.sp 128) 256 =
        .ok (window (memory k) (saturatingSub seen.state.sp 128))

variable (memory : Nat → UInt64 → UInt8) (start : Tracer) (envs : List (Env arch))

-- The base of the window that is read for entry `k`.
def windowAt (k : Nat) : Option UInt64 :=
  (snapshotAt start envs k).map Prod.fst

-- The window that is read for entry `k` has a byte of this address.
def Looks (addr : UInt64) (k : Nat) : Prop :=
  ∃ base, windowAt start envs k = some base ∧ Covers base addr

-- No window is compared with an old state of a byte: since it was read before, no other window
-- has shown the byte otherwise; and a window that is read for the first time shows the byte as
-- the windows before it did.
structure WindowsCurrent : Prop where
  revisited : ∀ addr k base i m, windowAt start envs k = some base → Covers base addr →
    LastBefore (fun i => windowAt start envs i = some base) k i →
      LastBefore (Looks start envs addr) k m → memory i addr = memory m addr
  first : ∀ addr k base m, windowAt start envs k = some base → Covers base addr →
    (∀ i < k, windowAt start envs i ≠ some base) →
      LastBefore (Looks start envs addr) k m → memory k addr = memory m addr

-- The entries list what has changed from one look at a byte to the next, and nothing else.
def ReportsLooks : Prop :=
  ∀ (k : Nat) e c, (run next start envs).db.getAll[k]? = some e →
    (c ∈ e.memChanges ↔ ∃ m, Looks start envs c.addr k ∧ LastBefore (Looks start envs c.addr) k m ∧
      c.oldVal = memory m c.addr ∧ c.newVal = memory k c.addr ∧ c.newVal ≠ c.oldVal)

variable {memory start envs}

theorem windowAt_eq_some_iff {k : Nat} {base : UInt64} :
    windowAt start envs k = some base ↔ ∃ data, snapshotAt start envs k = some (base, data) := by
  unfold windowAt
  simp

-- Every window lies around the stack pointer that a call has seen.
theorem exists_observed_of_windowAt {k : Nat} {base : UInt64}
    (h : windowAt start envs k = some base) : ∃ env ∈ envs, ∃ seen,
      observe env start.task = .ok seen ∧ base = saturatingSub seen.state.sp 128 := by
  obtain ⟨data, hk⟩ := windowAt_eq_some_iff.mp h
  obtain ⟨p, hp, hcap⟩ := Option.bind_eq_some_iff.mp hk
  obtain ⟨before, after, hin, hstate⟩ :=
    (mem_trail_iff next start envs p).mp (List.mem_filter.mp (List.mem_of_getElem? hp)).1
  unfold captured at hcap
  rw [hstate, run_task] at hcap
  split at hcap
  · cases hcap
  · rename_i seen hseen
    dsimp only at hcap
    split at hcap
    · split at hcap
      · cases hcap
        exact ⟨p.2, by rw [hin]; simp, seen, hseen, rfl⟩
      · cases hcap
    · cases hcap

-- Where windows at different places have no byte in common, each is always current.
theorem windowsCurrent_of_disjoint
    (h : ∀ addr j k base base', windowAt start envs j = some base →
      windowAt start envs k = some base' → Covers base addr → Covers base' addr → base = base') :
    WindowsCurrent memory start envs where
  revisited addr k base i m hk hcovers hi hm := by
    obtain ⟨base', hm', hcovers'⟩ := hm.holds
    obtain rfl := h addr k m base base' hk hm' hcovers hcovers'
    have him := hm.le_of_holds hi.before ⟨base, hi.holds, hcovers⟩
    have hmi := hi.le_of_holds hm.before hm'
    rw [Nat.le_antisymm him hmi]
  first addr k base m hk hcovers hnew hm := by
    obtain ⟨base', hm', hcovers'⟩ := hm.holds
    obtain rfl := h addr k m base base' hk hm' hcovers hcovers'
    exact absurd hm' (hnew m hm.before)

theorem snapshotAt_eq_window (hreads : ReadsMemory memory start envs) {k : Nat} {base : UInt64}
    {data : List UInt8} (hk : snapshotAt start envs k = some (base, data)) :
    data = window (memory k) base := by
  obtain ⟨⟨t, env⟩, hp, hcap⟩ := Option.bind_eq_some_iff.mp hk
  obtain ⟨before, after, hin, hstate⟩ :=
    (mem_trail_iff next start envs (t, env)).mp (List.mem_filter.mp (List.mem_of_getElem? hp)).1
  unfold captured at hcap
  dsimp only at hstate hcap
  rw [hstate, run_task] at hcap
  split at hcap
  · cases hcap
  · rename_i seen hseen
    rw [hreads k t env seen hp hseen] at hcap
    split at hcap
    · cases hcap
      rfl
    · cases hcap

theorem exists_entry_of_windowAt (h : start.GapFree) (hgetAll : start.db.getAll = []) {k : Nat}
    {base : UInt64} (hk : windowAt start envs k = some base) :
    ∃ e, (run next start envs).db.getAll[k]? = some e := by
  obtain ⟨data, hk⟩ := windowAt_eq_some_iff.mp hk
  obtain ⟨p, hp, _⟩ := Option.bind_eq_some_iff.mp hk
  have hstored := (List.mem_filter.mp (List.mem_of_getElem? hp)).2
  obtain ⟨e, he⟩ := Option.isSome_iff_exists.mp hstored
  exact ⟨e, by rw [getElem?_getAll_recordings h hgetAll, hp, Option.bind_some, he]⟩

end Looks

section Changes

variable {memory : Nat → UInt64 → UInt8} {start : Tracer} {envs : List (Env arch)}
  (h : start.GapFree) (hgetAll : start.db.getAll = []) (hempty : start.memoryCache = ∅)
  (hreads : ReadsMemory memory start envs)
include h hgetAll hempty hreads

-- An entry lists the bytes of its window that are not as they were when this window was read
-- before.
theorem mem_memChanges_iff_window {k : Nat} {e : TraceEntry}
    (he : (run next start envs).db.getAll[k]? = some e) (c : MemChange) :
    c ∈ e.memChanges ↔ ∃ base i, windowAt start envs k = some base ∧
      LastBefore (fun i => windowAt start envs i = some base) k i ∧ Covers base c.addr ∧
        c.oldVal = memory i c.addr ∧ c.newVal = memory k c.addr ∧ c.newVal ≠ c.oldVal := by
  have hchanges := memChanges_recorded h hgetAll hempty he
  have hdiff {base : UInt64} {newData oldData : List UInt8} {i : Nat}
      (hk : snapshotAt start envs k = some (base, newData))
      (hi : LastWrite (snapshotAt start envs) base k i oldData) :
      c ∈ diffWindow base oldData newData ↔ Covers base c.addr ∧ c.oldVal = memory i c.addr ∧
        c.newVal = memory k c.addr ∧ c.newVal ≠ c.oldVal := by
    rw [snapshotAt_eq_window hreads hk, snapshotAt_eq_window hreads hi.wrote,
      mem_diffWindow_window_iff]
  simp only [windowAt_eq_some_iff, LastWrite.lastBefore_iff]
  cases hsnapshot : snapshotAt start envs k with
  | none =>
      rw [hsnapshot] at hchanges
      rw [hchanges]
      simp
  | some snapshot =>
      obtain ⟨base, newData⟩ := snapshot
      rw [hsnapshot] at hchanges
      constructor
      · intro hc
        by_cases hlast : ∃ i oldData, LastWrite (snapshotAt start envs) base k i oldData
        · obtain ⟨i, oldData, hlast⟩ := hlast
          rw [hchanges.2 i oldData hlast, hdiff hsnapshot hlast] at hc
          exact ⟨base, i, ⟨newData, rfl⟩, ⟨oldData, hlast⟩, hc⟩
        · rw [hchanges.1 fun i oldData hi => hlast ⟨i, oldData, hi⟩] at hc
          cases hc
      · rintro ⟨base', i, ⟨newData', hsame⟩, ⟨oldData, hlast⟩, hc⟩
        rw [Option.some.injEq, Prod.mk.injEq] at hsame
        obtain ⟨rfl, rfl⟩ := hsame
        rw [hchanges.2 i oldData hlast, hdiff hsnapshot hlast]
        exact hc

theorem reportsLooks_of_windowsCurrent (hcurrent : WindowsCurrent memory start envs) :
    ReportsLooks memory start envs := by
  intro k e c he
  rw [mem_memChanges_iff_window h hgetAll hempty hreads he]
  constructor
  · rintro ⟨base, i, hk, hi, hcovers, hold, hnew, hne⟩
    obtain ⟨m, _, hm⟩ := LastBefore.exists_of_holds (p := Looks start envs c.addr)
      ⟨base, hi.holds, hcovers⟩ hi.before
    have hsame := hcurrent.revisited c.addr k base i m hk hcovers hi hm
    exact ⟨m, ⟨base, hk, hcovers⟩, hm, hold.trans hsame, hnew, hne⟩
  · rintro ⟨m, ⟨base, hk, hcovers⟩, hm, hold, hnew, hne⟩
    by_cases hvisited : ∃ i < k, windowAt start envs i = some base
    · obtain ⟨j, hjk, hj⟩ := hvisited
      obtain ⟨i, _, hi⟩ := LastBefore.exists_of_holds
        (p := fun i => windowAt start envs i = some base) hj hjk
      have hsame := hcurrent.revisited c.addr k base i m hk hcovers hi hm
      exact ⟨base, i, hk, hi, hcovers, hold.trans hsame.symm, hnew, hne⟩
    · have hsame := hcurrent.first c.addr k base m hk hcovers
        (fun i hik hi => hvisited ⟨i, hik, hi⟩) hm
      exact absurd (hnew.trans (hsame.trans hold.symm)) hne

theorem windowsCurrent_of_reportsLooks (hreports : ReportsLooks memory start envs) :
    WindowsCurrent memory start envs where
  revisited addr k base i m hk hcovers hi hm := by
    obtain ⟨e, he⟩ := exists_entry_of_windowAt h hgetAll hk
    have hlisted := mem_memChanges_iff_window h hgetAll hempty hreads he
    by_contra hne
    by_cases hback : memory k addr = memory i addr
    · -- the byte is as this window has it, so its change since the last look is not listed
      obtain ⟨base', i', hk', hi', _, hold, _⟩ := (hlisted ⟨addr, memory m addr, memory k addr⟩).mp
        ((hreports k e _ he).mpr
          ⟨m, ⟨base, hk, hcovers⟩, hm, rfl, rfl, fun hsame => hne (hback.symm.trans hsame)⟩)
      obtain rfl := Option.some.inj (hk.symm.trans hk')
      obtain rfl := hi.unique hi'
      exact hne hold.symm
    · obtain ⟨m', _, hm', hold, _⟩ := (hreports k e ⟨addr, memory i addr, memory k addr⟩ he).mp
        ((hlisted _).mpr ⟨base, i, hk, hi, hcovers, rfl, rfl, hback⟩)
      obtain rfl := hm.unique hm'
      exact hne hold
  first addr k base m hk hcovers hnew hm := by
    obtain ⟨e, he⟩ := exists_entry_of_windowAt h hgetAll hk
    by_contra hne
    obtain ⟨base', i, hk', hi, _⟩ := (mem_memChanges_iff_window h hgetAll hempty hreads he
      ⟨addr, memory m addr, memory k addr⟩).mp
        ((hreports k e _ he).mpr ⟨m, ⟨base, hk, hcovers⟩, hm, rfl, rfl, hne⟩)
    obtain rfl := Option.some.inj (hk.symm.trans hk')
    exact hnew i hi.before hi.holds

omit hempty hreads in
-- Between two entries that list nothing of a byte, every look at it shows the same.
theorem memory_eq_of_unlisted (hreports : ReportsLooks memory start envs) {addr : UInt64}
    {j k : Nat} (hj : Looks start envs addr j)
    (hunlisted : ∀ (i : Nat) e, j < i → i < k → (run next start envs).db.getAll[i]? = some e →
      ∀ c ∈ e.memChanges, c.addr ≠ addr) {m : Nat} (hjm : j ≤ m) (hmk : m < k)
    (hm : Looks start envs addr m) : memory m addr = memory j addr := by
  induction m using Nat.strong_induction_on with
  | _ m ih =>
      by_cases hsame : j = m
      · rw [hsame]
      · obtain ⟨n, hjn, hn⟩ := LastBefore.exists_of_holds hj (show j < m by omega)
        have hbefore := ih n hn.before hjn (hn.before.trans hmk) hn.holds
        have ⟨base, hbase, _⟩ := hm
        obtain ⟨e, he⟩ := exists_entry_of_windowAt h hgetAll hbase
        by_contra hne
        have hc := (hreports m e ⟨addr, memory n addr, memory m addr⟩ he).mpr
          ⟨n, hm, hn, rfl, rfl, fun heq => hne (heq.trans hbefore)⟩
        exact hunlisted m e (by omega) hmk he _ hc rfl

omit hempty hreads in
theorem chained_of_reportsLooks (hreports : ReportsLooks memory start envs) :
    Chained (run next start envs).db.getAll := by
  intro j k e e' c c' hjk he he' hc hc' haddr hunlisted
  obtain ⟨_, hlooks, _, _, hnew, _⟩ := (hreports j e c he).mp hc
  obtain ⟨m, _, hm, hold, _⟩ := (hreports k e' c' he').mp hc'
  rw [haddr] at hm hold
  rw [hold, hnew]
  exact memory_eq_of_unlisted h hgetAll hreports hlooks hunlisted
    (hm.le_of_holds hjk hlooks) hm.before hm.holds

end Changes

-- Each window has a snapshot of its own. The entries list the changes of every byte from look to
-- look exactly if no window is compared with an old state, and then the changes chain.
theorem new_run_chained {taskForPid : Int32 → Int32 × MachPort}
    {buildCapstone : Except String Unit} {pid : Int32} {dbPath : String} {start : Tracer}
    (hnew : new taskForPid buildCapstone pid dbPath = .ok start) {envs : List (Env arch)}
    {memory : Nat → UInt64 → UInt8} (hreads : ReadsMemory memory start envs) :
    (ReportsLooks memory start envs ↔ WindowsCurrent memory start envs) ∧
      (WindowsCurrent memory start envs → Chained (run next start envs).db.getAll) := by
  obtain ⟨task, rfl⟩ := new_eq_ok hnew
  have hgap := fresh_gapFree task pid dbPath
  have hreports := reportsLooks_of_windowsCurrent hgap fresh_getAll rfl hreads
  exact ⟨⟨windowsCurrent_of_reportsLooks hgap fresh_getAll rfl hreads, hreports⟩,
    fun hcurrent => chained_of_reportsLooks hgap fresh_getAll (hreports hcurrent)⟩

section TwoFrames

-- Where every call sees an instruction, every call records an entry.
theorem recordings_env {start : Tracer} {envs : List (Env arch)}
    (hsees : ∀ env ∈ envs, ∃ seen, observe env start.task = .ok seen) {k : Nat}
    {p : Tracer × Env arch} (hp : (recordings start envs)[k]? = some p) : envs[k]? = some p.2 := by
  have hall : recordings start envs = trail next start envs := by
    refine List.filter_eq_self.mpr fun q hq => ?_
    obtain ⟨before, after, hin, hstate⟩ := (mem_trail_iff next start envs q).mp hq
    obtain ⟨seen, hseen⟩ := hsees q.2 (by rw [hin]; simp)
    have hstored : storedEntry q.2 q.1 = some (entryOf q.2 q.1 seen) :=
      (storedEntry_eq_some_iff _).mpr ⟨seen, by rw [hstate, run_task, hseen], rfl⟩
    simp [hstored]
  rw [hall, getElem?_trail] at hp
  obtain ⟨env, henv, rfl⟩ := Option.map_eq_some_iff.mp hp
  exact henv

theorem readsMemory_twoStores : ReadsMemory storedByte sampleStart twoStores := by
  intro k t env seen hp hseen
  have henv := recordings_env attached_twoStores.sees hp
  match k with
  | 0 | 1 =>
      cases henv
      exact scripted_readMemory_eq _ _ 256
  | k + 2 => cases henv

-- Both stores are seen with one stack pointer.
theorem windowsCurrent_twoStores : WindowsCurrent storedByte sampleStart twoStores := by
  have hbase {k : Nat} {base : UInt64} (hk : windowAt sampleStart twoStores k = some base) :
      base = 0xf80 := by
    obtain ⟨env, henv, seen, hseen, rfl⟩ := exists_observed_of_windowAt hk
    rcases List.mem_pair.mp henv with rfl | rfl <;> cases hseen <;> rfl
  exact windowsCurrent_of_disjoint fun addr j k base base' hj hk _ _ =>
    (hbase hj).trans (hbase hk).symm

theorem new_run_chained_twoStores : ReportsLooks storedByte sampleStart twoStores ∧
    Chained (run next sampleStart twoStores).db.getAll := by
  obtain ⟨hiff, hchained⟩ := new_run_chained new_sampleStart readsMemory_twoStores
  exact ⟨hiff.mpr windowsCurrent_twoStores, hchained windowsCurrent_twoStores⟩

-- The stack pointer goes between two frames whose windows overlap, and a byte that both see is
-- written after the first visit to each.
def sharedByte (k : Nat) (addr : UInt64) : UInt8 :=
  if 1 < k ∧ addr = 0x1000 then 5 else 0

def twoFrames : List (Env .aarch64) :=
  [(0, 0x1000), (1, 0x1010), (2, 0x1000), (3, 0x1010)].map fun (k, sp) =>
    scripted { sp := sp, pc := 0x4000 } (sharedByte k)
      { bytes := [0xe0, 0x03, 0, 0xf9], mnemonic := some "str", opStr := some "x0, [sp]" }
      (.ok ()) (.ok (.stopped 42 .SIGTRAP))

theorem readsMemory_twoFrames : ReadsMemory sharedByte sampleStart twoFrames := by
  intro k t env seen hp hseen
  have henv := recordings_env (by
    intro env henv
    obtain ⟨input, _, rfl⟩ := List.mem_map.mp henv
    exact ⟨_, rfl⟩) hp
  match k with
  | 0 | 1 | 2 | 3 =>
      cases henv
      exact scripted_readMemory_eq _ _ 256
  | k + 4 => cases henv

-- The one write is reported twice, and the second report starts from the value before it.
theorem twoFrames_unchained :
    ¬ ∀ memory (envs : List (Env .aarch64)), ReadsMemory memory sampleStart envs →
      Chained (run next sampleStart envs).db.getAll := by
  intro h
  have hchanges : (run next sampleStart twoFrames).db.getAll.map TraceEntry.memChanges =
      [[], [], [⟨0x1000, 0, 5⟩], [⟨0x1000, 0, 5⟩]] := by decide +kernel
  have hat : ∀ k : Nat, ((run next sampleStart twoFrames).db.getAll[k]?).map TraceEntry.memChanges =
      ([[], [], [⟨0x1000, 0, 5⟩], [⟨0x1000, 0, 5⟩]] : List (List MemChange))[k]? := by
    intro k
    rw [← List.getElem?_map, hchanges]
  obtain ⟨e, he, hmem⟩ := Option.map_eq_some_iff.mp (hat 2)
  obtain ⟨e', he', hmem'⟩ := Option.map_eq_some_iff.mp (hat 3)
  have hlink := h sharedByte twoFrames readsMemory_twoFrames 2 3 e e' ⟨0x1000, 0, 5⟩ ⟨0x1000, 0, 5⟩
    (by omega) he he' (by rw [hmem]; exact List.mem_singleton_self _)
    (by rw [hmem']; exact List.mem_singleton_self _) rfl (by intros; omega)
  revert hlink
  decide

end TwoFrames

end Tdb.Tracer
