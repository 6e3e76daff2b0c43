import Tdb.Storage.SaveLoad

namespace Tdb.Storage

open Std Tdb.Library

namespace TraceDb

section Pairs

variable {pairs : List (Nat × TraceEntry)}

-- The record of a key that no later record of the same key replaces.
def LastRecord (pairs : List (Nat × TraceEntry)) (key : Nat) (e : TraceEntry) : Prop :=
  ∃ before after, pairs = before ++ (key, e) :: after ∧ ∀ p ∈ after, p.1 ≠ key

theorem mem_toList_ofList_iff (key : Nat) (e : TraceEntry) :
    (key, e) ∈ (ExtTreeMap.ofList pairs compare).toList ↔ LastRecord pairs key e := by
  rw [ExtTreeMap.mem_toList_iff_getElem?_eq_some]
  exact OrderedMap.getElem?_ofList_eq_some_iff pairs key e

-- What was read from a file can be written to one.
theorem ofList_representable (hfits : Bincode.records.Fits pairs) (path : String) :
    Representable { entries := ExtTreeMap.ofList pairs compare, path } := by
  rw [Bincode.records_fits] at hfits
  refine ⟨(OrderedMap.length_toList_ofList_le pairs).trans_lt hfits.1, fun p hp => ?_⟩
  exact hfits.2 p (OrderedMap.mem_of_mem_toList_ofList hp)

theorem serialize_ofList_eq_iff (hfits : Bincode.records.Fits pairs) (path : String)
    (rest : List UInt8) :
    serialize { entries := ExtTreeMap.ofList pairs compare, path } =
        Bincode.records.encode pairs ++ rest ↔
      OrderedMap.KeysAscend pairs ∧ rest = [] := by
  have hkept := (Bincode.records_fits _).mpr (ofList_representable hfits path)
  unfold serialize
  rw [← OrderedMap.toList_ofList_eq_iff]
  constructor
  · intro h
    rw [← List.append_nil (Bincode.records.encode _)] at h
    obtain ⟨hsame, hrest⟩ := Bincode.records.encode_prefix_free hkept hfits h
    exact ⟨hsame, hrest.symm⟩
  · rintro ⟨hsame, rfl⟩
    rw [hsame, List.append_nil]

end Pairs

theorem save_calls_eq_iff (write : String → List UInt8 → Except String Unit) (db : TraceDb)
    (data : List UInt8) :
    (db.save write).calls = [{ path := db.path, data }] ↔ db.serialize = data := by
  simp [save_calls, file]

-- A file is a sequence of records and what is behind it. What is saved again has the last record
-- of each key in the order of the keys, and nothing behind.
structure Normalized (write : String → List UInt8 → Except String Unit) (data : List UInt8)
    (db : TraceDb) (pairs : List (Nat × TraceEntry)) (rest : List UInt8) : Prop where
  data_eq : data = Bincode.records.encode pairs ++ rest
  unique : ∀ other tail, Bincode.records.Fits other → data = Bincode.records.encode other ++ tail →
    other = pairs ∧ tail = rest
  saved : ∃ kept, OrderedMap.KeysAscend kept ∧
    (db.save write).calls = [{ path := db.path, data := Bincode.records.encode kept }] ∧
    ∀ key e, (key, e) ∈ kept ↔ LastRecord pairs key e
  saved_eq_iff : (db.save write).calls = [{ path := db.path, data }] ↔
    OrderedMap.KeysAscend pairs ∧ rest = []
  reloaded : ∃ written, (db.save write).calls = [{ path := db.path, data := written }] ∧
    ∀ path, load (.ok written) path = .ok { db with path }

-- The loader accepts more than what is saved: bytes behind the records, records out of order and
-- records that are replaced. These alone are not written back.
theorem load_normalizes (write : String → List UInt8 → Except String Unit) (data : List UInt8)
    (path : String) :
    ((∃ db, load (.ok data) path = .ok db) ↔
      ∃ pairs rest, Bincode.records.Fits pairs ∧ data = Bincode.records.encode pairs ++ rest) ∧
    ∀ db, load (.ok data) path = .ok db →
      ∃ pairs rest, Bincode.records.Fits pairs ∧ Normalized write data db pairs rest := by
  constructor
  · constructor
    · rintro ⟨db, hload⟩
      obtain ⟨pairs, rest, hfits, hdata, _⟩ := (load_eq_ok_iff data path db).mp hload
      exact ⟨pairs, rest, hfits, hdata⟩
    · rintro ⟨pairs, rest, hfits, rfl⟩
      exact ⟨_, load_encode hfits rest path⟩
  · intro db hload
    obtain ⟨pairs, rest, hfits, hdata, rfl⟩ := (load_eq_ok_iff data path db).mp hload
    refine ⟨pairs, rest, hfits, hdata, fun other tail hother htail => ?_, ?_, ?_, ?_⟩
    · exact Bincode.records.encode_prefix_free hother hfits (htail.symm.trans hdata)
    · exact ⟨_, OrderedMap.toList_keysAscend _, save_calls write _, mem_toList_ofList_iff⟩
    · rw [save_calls_eq_iff, hdata]
      exact serialize_ofList_eq_iff hfits path rest
    · exact ⟨_, save_calls write _, load_saved _ (ofList_representable hfits path)⟩

section Files

def blankAt (step : Nat) : TraceEntry := ⟨step, 0, [], "", "", []⟩

-- Such entries under their steps.
def blankRecords (steps : List Nat) : List (Nat × TraceEntry) :=
  steps.map fun step => (step, blankAt step)

def blankFile (steps : List Nat) (rest : List UInt8) : List UInt8 :=
  Bincode.records.encode (blankRecords steps) ++ rest

variable {steps : List Nat}

theorem blankRecords_fits (hlen : steps.length < 2 ^ 64) (hsteps : ∀ step ∈ steps, step < 2 ^ 64) :
    Bincode.records.Fits (blankRecords steps) := by
  unfold blankRecords
  rw [Bincode.records_fits, List.length_map]
  refine ⟨hlen, fun p hp => ?_⟩
  obtain ⟨step, hstep, rfl⟩ := List.mem_map.mp hp
  have hlt := hsteps step hstep
  exact ⟨hlt, hlt, by simp [blankAt]⟩

-- Saving what was loaded from the file writes the file.
def WrittenBack (data : List UInt8) : Prop :=
  ∀ write path db, load (.ok data) path = .ok db →
    (db.save write).calls = [{ path := db.path, data }]

theorem blankFile_not_writtenBack (hfits : Bincode.records.Fits (blankRecords steps))
    {rest : List UInt8} (hchanged : ¬(OrderedMap.KeysAscend (blankRecords steps) ∧ rest = [])) :
    ¬WrittenBack (blankFile steps rest) := by
  intro h
  have hsame := h (fun _ _ => .ok ()) "blank.tdb" _ (load_encode hfits rest _)
  rw [save_calls_eq_iff] at hsame
  exact hchanged ((serialize_ofList_eq_iff hfits _ rest).mp hsame)

theorem load_normalizes_blankFile :
    ∃ pairs rest, Bincode.records.Fits pairs ∧
      Normalized (fun _ _ => .ok ()) (blankFile [1, 0, 1] [7])
        { entries := ExtTreeMap.ofList (blankRecords [1, 0, 1]) compare, path := "blank.tdb" }
        pairs rest :=
  (load_normalizes (fun _ _ => .ok ()) (blankFile [1, 0, 1] [7]) "blank.tdb").2 _
    (load_encode (blankRecords_fits (by simp) (by simp)) [7] _)

-- A byte behind the records, a record given twice, two records out of order.
theorem load_lenient_not_saved :
    ¬WrittenBack (blankFile [0] [0]) ∧ ¬WrittenBack (blankFile [0, 0] []) ∧
      ¬WrittenBack (blankFile [1, 0] []) := by
  refine ⟨?_, ?_, ?_⟩
  · refine blankFile_not_writtenBack (blankRecords_fits (by simp) (by simp)) fun h => ?_
    cases h.2
  · refine blankFile_not_writtenBack (blankRecords_fits (by simp) (by simp)) fun h => ?_
    simp [OrderedMap.KeysAscend, blankRecords] at h
  · refine blankFile_not_writtenBack (blankRecords_fits (by simp) (by simp)) fun h => ?_
    simp [OrderedMap.KeysAscend, blankRecords, Nat.compare_eq_lt] at h

end Files

end TraceDb

end Tdb.Storage
