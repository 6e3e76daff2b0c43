import Tdb.Storage.SaveLoad

namespace Tdb.Storage

open Std Tdb.Library

namespace TraceDb

-- The representation invariant of the store, with what its queries promise because of it.
structure StepIndexed (db : TraceDb) : Prop where
  key_eq_step : ∀ p ∈ db.entries.toList, p.1 = p.2.step
  get_step : ∀ step e, db.get step = some e → e.step = step
  getRange_steps : ∀ start finish found, db.getRange start finish = .ok found →
    ∀ e ∈ found, start ≤ e.step ∧ e.step ≤ finish
  getAll_ascends : db.getAll.Pairwise fun a b => a.step < b.step

theorem keysAreSteps_iff (db : TraceDb) :
    db.KeysAreSteps ↔ ∀ p ∈ db.entries.toList, p.1 = p.2.step := by
  constructor
  · rintro h ⟨key, e⟩ hp
    exact (h key e ((mem_toList_iff db key e).mp hp)).symm
  · intro h key e hget
    exact (h (key, e) ((mem_toList_iff db key e).mpr hget)).symm

theorem stepIndexed_iff (db : TraceDb) : db.StepIndexed ↔ db.KeysAreSteps := by
  constructor
  · intro h
    exact h.get_step
  · intro h
    refine ⟨(keysAreSteps_iff db).mp h, h, ?_, h.getAll_stepsAscend⟩
    intro start finish found hrange e he
    exact ((h.mem_getRange_iff hrange e).mp he).2

-- In the pairs of a file, every record of an entry under a key that is not its step is
-- superseded by a later record with the same key.
def StrayKeysSuperseded (pairs : List (Nat × TraceEntry)) : Prop :=
  ∀ before key e after, pairs = before ++ (key, e) :: after →
    key = e.step ∨ ∃ p ∈ after, p.1 = key

theorem ofList_keysAreSteps_iff (pairs : List (Nat × TraceEntry)) (path : String) :
    KeysAreSteps { entries := ExtTreeMap.ofList pairs compare, path } ↔
      StrayKeysSuperseded pairs := by
  constructor
  · intro h before key e after he
    by_cases hlater : ∃ p ∈ after, p.1 = key
    · exact Or.inr hlater
    · have hlast : ∀ p ∈ after, p.1 ≠ key := fun p hp hk => hlater ⟨p, hp, hk⟩
      have hget := (OrderedMap.getElem?_ofList_eq_some_iff pairs key e).mpr
        ⟨before, after, he, hlast⟩
      exact Or.inl (h key e hget).symm
  · intro h key e hget
    obtain ⟨before, after, he, hlast⟩ :=
      (OrderedMap.getElem?_ofList_eq_some_iff pairs key e).mp hget
    rcases h before key e after he with hk | ⟨p, hp, hk⟩
    · exact hk.symm
    · exact False.elim (hlast p hp hk)

-- `insert` keys every entry by its step; `load` takes the keys of the file as they are.
theorem stepIndexed_constructors (path : String) (history : List TraceEntry)
    (data : List UInt8) (db : TraceDb) :
    (ofInserts path history).StepIndexed ∧
    (load (.ok data) path = .ok db →
      (db.StepIndexed ↔ ∃ pairs rest, Bincode.records.Fits pairs ∧
        data = Bincode.records.encode pairs ++ rest ∧ StrayKeysSuperseded pairs)) := by
  constructor
  · exact (stepIndexed_iff _).mpr (ofInserts_keysAreSteps path history)
  · intro hload
    obtain ⟨pairs, rest, hfits, hdata, rfl⟩ := (load_eq_ok_iff data path db).mp hload
    rw [stepIndexed_iff, ofList_keysAreSteps_iff]
    constructor
    · intro h
      exact ⟨pairs, rest, hfits, hdata, h⟩
    · rintro ⟨other, tail, hother, he, h⟩
      have hsame := Bincode.records.encode_prefix_free hfits hother (hdata.symm.trans he)
      rwa [hsame.1]

section Stray

def blankEntry : TraceEntry := ⟨0, 0, [], "", "", []⟩

-- A file of one record, an entry of step 0 filed under a key below 256.
def oneRecordFile (key : UInt8) : List UInt8 :=
  [1, 0, 0, 0, 0, 0, 0, 0, key, 0, 0, 0, 0, 0, 0, 0] ++ List.replicate 48 0

theorem oneRecordFile_fits (key : UInt8) : Bincode.records.Fits [(key.toNat, blankEntry)] := by
  have hkey := key.toNat_lt
  refine (Bincode.records_fits _).mpr ⟨by simp, ?_⟩
  intro p hp
  obtain rfl := List.mem_singleton.mp hp
  have hentry : blankEntry.Representable := by decide +kernel
  exact ⟨by simp only; omega, hentry⟩

theorem load_oneRecordFile (key : UInt8) (path : String)
    (hfile : oneRecordFile key = Bincode.records.encode [(key.toNat, blankEntry)] ++ []) :
    load (.ok (oneRecordFile key)) path =
      .ok { entries := ExtTreeMap.ofList [(key.toNat, blankEntry)] compare, path } := by
  rw [hfile]
  exact load_encode (oneRecordFile_fits key) [] path

theorem stepIndexed_oneRecordFile :
    StepIndexed { entries := ExtTreeMap.ofList [(0, blankEntry)] compare, path := "blank.tdb" } := by
  have hfile : oneRecordFile 0 = Bincode.records.encode [(0, blankEntry)] ++ [] := by
    decide +kernel
  refine ((stepIndexed_constructors "blank.tdb" [] (oneRecordFile 0) _).2
    (load_oneRecordFile 0 _ hfile)).mpr ⟨_, _, oneRecordFile_fits 0, hfile, ?_⟩
  intro before key e after he
  obtain ⟨hkey, he⟩ : key = 0 ∧ e = blankEntry := by
    have hm : (key, e) ∈ [((0 : UInt8).toNat, blankEntry)] := by rw [he]; simp
    simpa using hm
  exact Or.inl (by rw [hkey, he]; rfl)

-- Key 5 in the file, step 0 in the entry: accepted, and `get 5` answers with step 0.
theorem load_strayKey_not_stepIndexed :
    ¬ ∀ data path db, load (.ok data) path = .ok db → db.StepIndexed := by
  intro h
  have hfile : oneRecordFile 5 = Bincode.records.encode [(5, blankEntry)] ++ [] := by
    decide +kernel
  have hindexed := h (oneRecordFile 5) "stray.tdb" _ (load_oneRecordFile 5 _ hfile)
  cases hindexed.get_step 5 blankEntry rfl

end Stray

end TraceDb

end Tdb.Storage
