import Tdb.Storage.Lemmas
import Tdb.Tracer.Step

namespace Tdb.Tracer

open Std Tdb.Library Tdb.Storage

variable {arch : Arch}

-- The keys of the store are the step numbers given out so far, and every entry
-- carries the number it is stored under.
structure GapFree (t : Tracer) : Prop where
  keys : t.db.entries.toList.map Prod.fst = List.range t.stepCount
  keysAreSteps : t.db.KeysAreSteps

namespace GapFree

variable {t : Tracer} (h : t.GapFree)
include h

theorem mem_entries_iff (key : Nat) : key ∈ t.db.entries ↔ key < t.stepCount := by
  rw [← List.mem_range, ← h.keys, List.mem_map, ExtTreeMap.mem_iff_isSome_getElem?,
    Option.isSome_iff_exists]
  simp

theorem count_eq : t.db.count = t.stepCount := by
  have hlen := congrArg List.length h.keys
  simpa [TraceDb.count] using hlen

theorem getAll_steps : t.db.getAll.map TraceEntry.step = List.range t.stepCount := by
  rw [← h.keys]
  simp only [TraceDb.getAll, List.map_map]
  apply List.map_congr_left
  rintro ⟨key, e⟩ hp
  exact h.keysAreSteps key e ((TraceDb.mem_toList_iff t.db key e).mp hp)

theorem get_stepCount : t.db.get t.stepCount = none := by
  have hfree : t.stepCount ∉ t.db.entries := by
    rw [h.mem_entries_iff]
    omega
  exact ExtTreeMap.getElem?_eq_none hfree

-- The store a call leaves: one more entry at the end, or the same.
theorem toList_next (env : Env arch) :
    (next t env).db.entries.toList =
      t.db.entries.toList ++ (storedEntry env t).toList.map fun e => (e.step, e) := by
  rw [next_db]
  cases he : storedEntry env t with
  | none => simp
  | some e =>
      simp only [Option.toList_some, List.map_singleton]
      apply TraceDb.toList_insert_last
      intro key hkey
      rw [storedEntry_step he]
      exact (h.mem_entries_iff key).mp hkey

theorem getAll_next (env : Env arch) :
    (next t env).db.getAll = t.db.getAll ++ (storedEntry env t).toList := by
  simp only [TraceDb.getAll, h.toList_next env, List.map_append, List.map_map]
  congr 1
  exact List.map_id _

theorem get_next (env : Env arch) {key : Nat} {e : TraceEntry} (hget : t.db.get key = some e) :
    (next t env).db.get key = some e := by
  rw [next_db]
  cases hs : storedEntry env t with
  | none => exact hget
  | some later =>
      have hne : later.step ≠ key := by
        rw [storedEntry_step hs]
        rintro rfl
        simp [h.get_stepCount] at hget
      simp [hne, hget]

theorem next (env : Env arch) : (next t env).GapFree where
  keys := by
    rw [h.toList_next env, next_stepCount, List.map_append, h.keys]
    cases he : storedEntry env t with
    | none => simp
    | some e => simp [storedEntry_step he, List.range_succ]
  keysAreSteps := by
    rw [next_db]
    cases storedEntry env t with
    | none => exact h.keysAreSteps
    | some e => exact h.keysAreSteps.insert e

end GapFree

theorem fresh_gapFree (task : MachTask) (pid : Int32) (path : String) :
    (fresh task pid { entries := ∅, path }).GapFree where
  keys := by simp [fresh]
  keysAreSteps := by intro key e h; simp [fresh, TraceDb.get] at h

theorem fresh_getAll {task : MachTask} {pid : Int32} {path : String} :
    (fresh task pid { entries := ∅, path }).db.getAll = [] := by
  simp [fresh, TraceDb.getAll]

section Run

variable {start : Tracer} (h : start.GapFree) (envs : List (Env arch))
include h

theorem run_gapFree : (run next start envs).GapFree :=
  run_invariant next envs h fun _ env ht => ht.next env

theorem trail_gapFree : ∀ p ∈ trail next start envs, p.1.GapFree :=
  trail_invariant next envs h fun _ env ht => ht.next env

theorem get_run {key : Nat} {e : TraceEntry} (hget : start.db.get key = some e) :
    (run next start envs).db.get key = some e := by
  induction envs generalizing start with
  | nil => exact hget
  | cons env rest ih => exact ih (h.next env) (h.get_next env hget)

-- The store keeps the entries of the calls, in the order of the calls.
theorem getAll_run :
    (run next start envs).db.getAll =
      start.db.getAll ++ (trail next start envs).flatMap fun p => (storedEntry p.2 p.1).toList :=
  run_appends next (fun t => t.db.getAll) (fun t env => (storedEntry env t).toList)
    fun p hp => (trail_gapFree h envs p hp).getAll_next p.2

-- The entries are those of the calls that got to record, in order.
theorem getAll_run_records (hempty : start.db.getAll = []) :
    List.Forall₂ Records (run next start envs).db.getAll (observations start.task envs) := by
  rw [getAll_run h, hempty, List.nil_append, observations_eq_flatMap]
  exact forall₂_flatMap fun p _ => storedEntry_observed p.2 p.1

-- When every call records, the `k`-th entry is the one of the `k`-th call.
theorem getElem?_getAll_run (hempty : start.db.getAll = [])
    (hsees : ∀ env ∈ envs, ∃ seen, observe env start.task = .ok seen) (k : Nat) :
    (run next start envs).db.getAll[k]? =
      envs[k]?.bind fun env => storedEntry env (run next start (envs.take k)) := by
  have hsome : ∀ p ∈ trail next start envs, (storedEntry p.2 p.1).isSome := by
    intro p hp
    obtain ⟨before, after, hin, hstate⟩ := (mem_trail_iff next start envs p).mp hp
    obtain ⟨seen, hseen⟩ := hsees p.2 (by rw [hin]; simp)
    have hstored : storedEntry p.2 p.1 = some (entryOf p.2 p.1 seen) :=
      (storedEntry_eq_some_iff _).mpr ⟨seen, by rw [hstate, run_task, hseen], rfl⟩
    rw [hstored]
    rfl
  rw [getAll_run h, hempty, List.nil_append, getElem?_flatMap_toList _ _ hsome, getElem?_trail,
    Option.bind_map]
  rfl

-- What a trace without gaps promises to its viewers, for the whole of a run.
structure GapFreeRun (start : Tracer) (envs : List (Env arch)) : Prop where
  keys : ∀ key, key ∈ (run next start envs).db.entries ↔ key < (run next start envs).stepCount
  key_eq_step : ∀ key e, (run next start envs).db.get key = some e → e.step = key
  count : (run next start envs).db.count = (run next start envs).stepCount
  positions : (run next start envs).db.getAll.map TraceEntry.step =
    List.range (run next start envs).stepCount
  inserts_fresh : ∀ p ∈ trail next start envs, (next p.1 p.2).db = p.1.db ∨
    ∃ e, p.1.db.get e.step = none ∧ p.1.db.insert e = .ok (next p.1 p.2).db
  entries_kept : ∀ before after, envs = before ++ after → ∀ key e,
    (run next start before).db.get key = some e → (run next start envs).db.get key = some e

end Run

theorem new_run_gapFree {taskForPid : Int32 → Int32 × MachPort}
    {buildCapstone : Except String Unit} {pid : Int32} {dbPath : String} {start : Tracer}
    (hnew : new taskForPid buildCapstone pid dbPath = .ok start) (envs : List (Env arch)) :
    GapFreeRun start envs := by
  obtain ⟨task, rfl⟩ := new_eq_ok hnew
  have hinit := fresh_gapFree task pid dbPath
  have hfinal := run_gapFree hinit envs
  refine ⟨hfinal.mem_entries_iff, hfinal.keysAreSteps, hfinal.count_eq, hfinal.getAll_steps, ?_, ?_⟩
  · intro p hp
    have hgap := trail_gapFree hinit envs p hp
    cases hs : storedEntry p.2 p.1 with
    | none => exact Or.inl (by rw [next_db, hs])
    | some e =>
        refine Or.inr ⟨e, ?_, by rw [next_db, hs]; rfl⟩
        rw [storedEntry_step hs]
        exact hgap.get_stepCount
  · rintro before after rfl key e hget
    rw [run_append]
    exact get_run (run_gapFree hinit before) after hget

theorem new_run_gapFree_scripted :
    GapFreeRun sampleStart
      [scripted { sp := 0x1000 } (fun _ => 0) { bytes := [], mnemonic := some "nop", opStr := none }
        (.ok ()) (.ok (.exited 42 0))] :=
  new_run_gapFree new_sampleStart _

end Tdb.Tracer
