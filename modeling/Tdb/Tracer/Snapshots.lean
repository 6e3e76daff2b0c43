import Tdb.Tracer.Memory

namespace Tdb.Tracer

open Std Tdb.Library Tdb.Storage

variable {arch : Arch}

section Recordings

-- The calls that record an entry, each with the tracer it is made on.
def recordings (start : Tracer) (envs : List (Env arch)) : List (Tracer × Env arch) :=
  counting next (fun t env => (storedEntry env t).isSome) start envs

-- The snapshot that the call of the `k`-th entry puts into the cache.
def snapshotAt (start : Tracer) (envs : List (Env arch)) (k : Nat) : Option (UInt64 × List UInt8) :=
  (recordings start envs)[k]?.bind fun p => captured p.2 p.1

theorem captured_of_not_stored {env : Env arch} {t : Tracer}
    (h : (storedEntry env t).isSome = false) : captured env t = none := by
  unfold storedEntry at h
  unfold captured
  cases hseen : observe env t.task with
  | error e => rfl
  | ok seen =>
      rw [hseen] at h
      cases h

theorem memoryCache_of_not_stored (t : Tracer) (env : Env arch)
    (h : (storedEntry env t).isSome = false) : (next t env).memoryCache = t.memoryCache := by
  rw [next_memoryCache, captured_of_not_stored h]

variable {start : Tracer} {envs : List (Env arch)}

-- Place `k` of the trace is the entry of the `k`-th recording.
theorem getElem?_getAll_recordings (h : start.GapFree) (hempty : start.db.getAll = []) (k : Nat) :
    (run next start envs).db.getAll[k]? =
      (recordings start envs)[k]?.bind fun p => storedEntry p.2 p.1 := by
  rw [getAll_run h, hempty, List.nil_append, flatMap_toList_filter, getElem?_flatMap_toList]
  · rfl
  · intro p hp
    exact (List.mem_filter.mp hp).2

-- When an entry is recorded, the cache holds the latest snapshots of the entries before it.
theorem memoryCache_recordings_iff (hempty : start.memoryCache = ∅) {k : Nat}
    {p : Tracer × Env arch} (hp : (recordings start envs)[k]? = some p) (base : UInt64)
    (oldData : List UInt8) :
    p.1.memoryCache[base]? = some oldData ↔
      ∃ j, LastWrite (snapshotAt start envs) base k j oldData := by
  have hfield := fun {k : Nat} {p : Tracer × Env arch} =>
    @field_eq_fieldAt _ _ next (fun t env => (storedEntry env t).isSome) _ Tracer.memoryCache
      memoryCache_of_not_stored start envs k p
  rw [hfield hp]
  refine lookup_eq_some_iff_lastWrite (fun k base => (fieldAt next
    (fun t env => (storedEntry env t).isSome) Tracer.memoryCache start envs k)[base]?) ?_ ?_ k
    base oldData
  · intro key
    simp [fieldAt, hempty]
  · intro k key
    unfold snapshotAt recordings
    rw [fieldAt]
    cases hq : (counting next (fun t env => (storedEntry env t).isSome) start envs)[k]? with
    | none => rfl
    | some q =>
        dsimp only [Option.bind_some]
        rw [next_memoryCache, hfield hq]
        cases captured q.2 q.1 with
        | none => rfl
        | some snapshot => exact OrderedMap.getElem?_insert_eq _ _ _ _

end Recordings

section Diff

-- The kernel answers with bytes from inside the address space only.
def InsideAddressSpace (task : MachTask) (env : Env arch) : Prop :=
  ∀ addr size data, task.readMemory env.toKernel addr size = .ok data →
    addr.toNat + data.length ≤ 2 ^ 64

-- An entry lists the bytes in which its snapshot differs from an older one of the same window,
-- as far as both reach, each at its own address and in the order of the addresses.
structure ListsDiff (changes : List MemChange) (base : UInt64) (oldData newData : List UInt8) :
    Prop where
  mem_iff : ∀ c, c ∈ changes ↔ ∃ i, oldData[i]? = some c.oldVal ∧ newData[i]? = some c.newVal ∧
    c.oldVal ≠ c.newVal ∧ c.addr.toNat = base.toNat + i
  ascends : changes.Pairwise fun c d => c.addr < d.addr
  length_le : changes.length ≤ 256

variable {base : UInt64} {oldData newData : List UInt8}

theorem toNat_add_ofNat {i : Nat} (h : base.toNat + i < 2 ^ 64) :
    (base + UInt64.ofNat i).toNat = base.toNat + i := by
  have hi : i < UInt64.size := by
    unfold UInt64.size
    omega
  rw [UInt64.toNat_add, UInt64.toNat_ofNat_of_lt' hi, Nat.mod_eq_of_lt h]

theorem diffWindow_ascends (h : base.toNat + newData.length ≤ 2 ^ 64) :
    (diffWindow base oldData newData).Pairwise fun c d => c.addr < d.addr := by
  unfold diffWindow
  have hplaces : (oldData.zip newData).zipIdx.Pairwise fun p q =>
      p.2 < q.2 ∧ q.2 < newData.length := by
    rw [List.pairwise_iff_getElem]
    intro i j hi hj hij
    have hlen : j < newData.length := by
      rw [List.length_zipIdx, List.length_zip] at hj
      omega
    simpa [List.getElem_zipIdx] using ⟨hij, hlen⟩
  refine hplaces.filterMap _ ?_
  rintro ⟨⟨oldVal, newVal⟩, i⟩ ⟨⟨oldVal', newVal'⟩, j⟩ ⟨hij, hj⟩ c hc d hd
  simp only [Option.ite_none_right_eq_some, Option.some.injEq] at hc hd
  obtain ⟨_, rfl⟩ := hc
  obtain ⟨_, rfl⟩ := hd
  rw [UInt64.lt_iff_toNat_lt, toNat_add_ofNat (by omega), toNat_add_ofNat (by omega)]
  omega

theorem diffWindow_listsDiff (h : base.toNat + newData.length ≤ 2 ^ 64)
    (hsize : newData.length ≤ 256) :
    ListsDiff (diffWindow base oldData newData) base oldData newData where
  mem_iff c := by
    rw [mem_diffWindow_iff]
    refine exists_congr fun i => and_congr_right fun _ => and_congr_right fun hnew =>
      and_congr ne_comm ?_
    have hi := (List.getElem?_eq_some_iff.mp hnew).1
    rw [← UInt64.toNat_inj, toNat_add_ofNat (by omega)]
  ascends := diffWindow_ascends h
  length_le := by
    refine (List.length_filterMap_le _ _).trans ?_
    rw [List.length_zipIdx, List.length_zip]
    omega

end Diff

section Run

-- What the changes of the entries are, told by the snapshots alone.
structure SnapshotDiffs (start : Tracer) (envs : List (Env arch)) : Prop where
  recorded : ∀ k : Nat, (run next start envs).db.getAll[k]? =
    (recordings start envs)[k]?.bind fun p => storedEntry p.2 p.1
  uncaptured : ∀ k e, (run next start envs).db.getAll[k]? = some e → snapshotAt start envs k = none →
    e.memChanges = []
  first : ∀ k e base newData, (run next start envs).db.getAll[k]? = some e →
    snapshotAt start envs k = some (base, newData) →
    (∀ j < k, ∀ data, snapshotAt start envs j ≠ some (base, data)) → e.memChanges = []
  compared : ∀ k e base newData j oldData, (run next start envs).db.getAll[k]? = some e →
    snapshotAt start envs k = some (base, newData) →
    LastWrite (snapshotAt start envs) base k j oldData →
    ListsDiff e.memChanges base oldData newData
  kept : ∀ p ∈ trail next start envs, captured p.2 p.1 = none →
    (next p.1 p.2).memoryCache = p.1.memoryCache

theorem captured_length_le {env : Env arch} {t : Tracer} {base : UInt64} {data : List UInt8}
    (h : captured env t = some (base, data)) :
    data.length ≤ 256 ∧ t.task.readMemory env.toKernel base 256 = .ok data := by
  unfold captured at h
  split at h
  · cases h
  · dsimp only at h
    split at h
    · split at h
      · rename_i hread
        cases h
        refine ⟨?_, hread⟩
        unfold MachTask.readMemory at hread
        dsimp only at hread
        split at hread
        · cases hread
        · cases hread
          exact (List.length_take_le _ _)
      · cases h
    · cases h

variable {start : Tracer} {envs : List (Env arch)}

-- The changes of an entry, from its snapshot and the snapshots before it.
theorem memChanges_recorded (h : start.GapFree) (hgetAll : start.db.getAll = [])
    (hempty : start.memoryCache = ∅) {k : Nat} {e : TraceEntry}
    (he : (run next start envs).db.getAll[k]? = some e) :
    match snapshotAt start envs k with
    | none => e.memChanges = []
    | some (base, newData) =>
        ((∀ j oldData, ¬LastWrite (snapshotAt start envs) base k j oldData) → e.memChanges = []) ∧
          ∀ j oldData, LastWrite (snapshotAt start envs) base k j oldData →
            e.memChanges = diffWindow base oldData newData := by
  rw [getElem?_getAll_recordings h hgetAll] at he
  obtain ⟨p, hp, hstored⟩ := Option.bind_eq_some_iff.mp he
  obtain ⟨seen, hseen, rfl⟩ := (storedEntry_eq_some_iff e).mp hstored
  have hcache := memoryCache_recordings_iff hempty hp
  have hsnapshot : snapshotAt start envs k = captured p.2 p.1 := by
    unfold snapshotAt
    rw [hp, Option.bind_some]
  rw [hsnapshot, entryOf_memChanges hseen]
  cases captured p.2 p.1 with
  | none => rfl
  | some snapshot =>
      obtain ⟨base, newData⟩ := snapshot
      dsimp only
      cases hold : p.1.memoryCache[base]? with
      | none =>
          refine ⟨fun _ => rfl, fun j oldData hlast => ?_⟩
          rw [(hcache base oldData).mpr ⟨j, hlast⟩] at hold
          cases hold
      | some oldData =>
          obtain ⟨j, hlast⟩ := (hcache base oldData).mp hold
          refine ⟨fun hnone => absurd hlast (hnone j oldData), fun i other hother => ?_⟩
          have hsame := (hcache base other).mpr ⟨i, hother⟩
          rw [hold, Option.some.injEq] at hsame
          rw [hsame]

theorem snapshotAt_reads {k : Nat} {base : UInt64} {data : List UInt8}
    (h : snapshotAt start envs k = some (base, data)) :
    data.length ≤ 256 ∧ ∃ env ∈ envs, start.task.readMemory env.toKernel base 256 = .ok data := by
  obtain ⟨p, hp, hcap⟩ := Option.bind_eq_some_iff.mp h
  obtain ⟨before, after, hin, hstate⟩ :=
    (mem_trail_iff next start envs p).mp (List.mem_filter.mp (List.mem_of_getElem? hp)).1
  obtain ⟨hlength, hread⟩ := captured_length_le hcap
  rw [hstate, run_task] at hread
  exact ⟨hlength, p.2, by rw [hin]; simp, hread⟩

-- The cache is a record of the latest snapshots, so the changes of an entry are what differs
-- between its snapshot and the latest one of the same window before it.
theorem new_run_snapshotDiffs {taskForPid : Int32 → Int32 × MachPort}
    {buildCapstone : Except String Unit} {pid : Int32} {dbPath : String} {start : Tracer}
    (hnew : new taskForPid buildCapstone pid dbPath = .ok start) {envs : List (Env arch)}
    (hinside : ∀ env ∈ envs, InsideAddressSpace start.task env) : SnapshotDiffs start envs := by
  obtain ⟨task, rfl⟩ := new_eq_ok hnew
  have hchanges {k : Nat} {e : TraceEntry}
      (he : (run next (fresh task pid { entries := ∅, path := dbPath }) envs).db.getAll[k]? = some e) :=
    memChanges_recorded (fresh_gapFree task pid dbPath) fresh_getAll rfl he
  refine ⟨getElem?_getAll_recordings (fresh_gapFree task pid dbPath) fresh_getAll, ?_, ?_, ?_, ?_⟩
  · intro k e he hnone
    have hmem := hchanges he
    rwa [hnone] at hmem
  · intro k e base newData he hsome hfirst
    have hmem := hchanges he
    rw [hsome] at hmem
    exact hmem.1 fun j data hlast => hfirst j hlast.before data hlast.wrote
  · intro k e base newData j oldData he hsome hlast
    have hmem := hchanges he
    rw [hsome] at hmem
    obtain ⟨hlength, env, henv, hread⟩ := snapshotAt_reads hsome
    rw [hmem.2 j oldData hlast]
    exact diffWindow_listsDiff (hinside env henv _ _ _ hread) hlength
  · intro p _ hnone
    rw [next_memoryCache, hnone]

end Run

section Inside

-- A kernel that refuses to read past the end of the address space.
def insideOnly (env : Env .aarch64) : Env .aarch64 :=
  { env with
    machVmReadOverwrite := fun task addr size =>
      if addr.toNat + size ≤ 2 ^ 64 then env.machVmReadOverwrite task addr size else (1, []) }

theorem insideOnly_inside (task : MachTask) (env : Env .aarch64) :
    InsideAddressSpace task (insideOnly env) := by
  intro addr size data hread
  unfold MachTask.readMemory insideOnly at hread
  dsimp only at hread
  by_cases hfits : addr.toNat + size ≤ 2 ^ 64
  · simp only [hfits, if_true] at hread
    split at hread
    · cases hread
    · cases hread
      have hlength := List.length_take_le size (env.machVmReadOverwrite task.task addr size).2
      omega
  · rw [if_neg hfits] at hread
    cases hread

theorem new_run_snapshotDiffs_twoStores :
    SnapshotDiffs sampleStart (twoStores.map insideOnly) := by
  refine new_run_snapshotDiffs new_sampleStart fun env henv => ?_
  obtain ⟨env', _, rfl⟩ := List.mem_map.mp henv
  exact insideOnly_inside _ env'

end Inside

end Tdb.Tracer
