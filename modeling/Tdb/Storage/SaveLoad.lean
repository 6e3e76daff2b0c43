import Tdb.Storage.Bincode
import Tdb.Stats

namespace Tdb.Storage

open Std Tdb.Library

section Representable

-- What the types of the source promise of every value: steps are u64, and no vector or
-- string is longer than a usize can say.
def TraceEntry.Representable (e : TraceEntry) : Prop :=
  e.step < 2 ^ 64 ∧ e.insnBytes.length < 2 ^ 64 ∧ e.insnText.utf8ByteSize < 2 ^ 64 ∧
    e.regs.utf8ByteSize < 2 ^ 64 ∧ e.memChanges.length < 2 ^ 64

instance (e : TraceEntry) : Decidable e.Representable :=
  inferInstanceAs (Decidable (_ ∧ _))

def TraceDb.Representable (db : TraceDb) : Prop :=
  db.entries.toList.length < 2 ^ 64 ∧
    ∀ p ∈ db.entries.toList, p.1 < 2 ^ 64 ∧ p.2.Representable

instance (db : TraceDb) : Decidable db.Representable :=
  inferInstanceAs (Decidable (_ ∧ _))

theorem Bincode.traceEntry_fits (e : TraceEntry) : Bincode.traceEntry.Fits e ↔ e.Representable := by
  have hchanges : (vec memChange).Fits e.memChanges ↔ e.memChanges.length < 2 ^ 64 := by
    simp [vec_fits, memChange_fits]
  have hbytes : (vec u8).Fits e.insnBytes ↔ e.insnBytes.length < 2 ^ 64 := by
    simp [vec_fits, u8]
  simp only [traceEntry, Codec.view_fits, Codec.pair_fits, count_fits, u64_fits, true_and,
    string_fits, hbytes, hchanges, TraceEntry.Representable]

theorem Bincode.records_fits (pairs : List (Nat × TraceEntry)) :
    Bincode.records.Fits pairs ↔
      pairs.length < 2 ^ 64 ∧ ∀ p ∈ pairs, p.1 < 2 ^ 64 ∧ p.2.Representable := by
  simp only [records, vec_fits, Codec.pair_fits, count_fits, traceEntry_fits]

end Representable

namespace TraceDb

theorem load_eq_ok_iff (data : List UInt8) (path : String) (db : TraceDb) :
    load (.ok data) path = .ok db ↔ ∃ pairs rest, Bincode.records.Fits pairs ∧
      data = Bincode.records.encode pairs ++ rest ∧
      db = { entries := ExtTreeMap.ofList pairs compare, path } := by
  simp only [load]
  constructor
  · intro h
    cases hd : Bincode.records.decode data with
    | error e => simp [hd] at h
    | ok result =>
        obtain ⟨pairs, rest⟩ := result
        simp only [hd, Except.ok.injEq] at h
        obtain ⟨hfits, hdata⟩ := (Bincode.records.decode_eq_ok_iff data pairs rest).mp hd
        exact ⟨pairs, rest, hfits, hdata, h.symm⟩
  · rintro ⟨pairs, rest, hfits, rfl, rfl⟩
    rw [(Bincode.records.decode_eq_ok_iff _ pairs rest).mpr ⟨hfits, rfl⟩]

theorem load_encode {pairs : List (Nat × TraceEntry)} (hfits : Bincode.records.Fits pairs)
    (rest : List UInt8) (path : String) :
    load (.ok (Bincode.records.encode pairs ++ rest)) path =
      .ok { entries := ExtTreeMap.ofList pairs compare, path } :=
  (load_eq_ok_iff _ path _).mpr ⟨pairs, rest, hfits, rfl, rfl⟩

theorem load_decode_error {data : List UInt8} {e : DecodeError}
    (h : Bincode.records.decode data = .error e) (path : String) :
    load (.ok data) path = .error s!"Deserialize failed: {describe e}" := by
  simp only [load, h]

-- What a viewer can ask of a store, and what the statistics count in it.
def SameAnswers (db loaded : TraceDb) : Prop :=
  (∀ step, loaded.get step = db.get step) ∧
  (∀ start finish, loaded.getRange start finish = db.getRange start finish) ∧
  loaded.getAll = db.getAll ∧ loaded.count = db.count ∧
  ∀ order, Stats.TraceStats.analyze order loaded = Stats.TraceStats.analyze order db

theorem sameAnswers_of_entries {db loaded : TraceDb} (h : loaded.entries = db.entries) :
    SameAnswers db loaded := by
  refine ⟨fun step => ?_, fun start finish => ?_, ?_, ?_, fun order => ?_⟩
  · simp only [get, h]
  · simp only [getRange, h]
  · simp only [getAll, h]
  · simp only [count, h]
  · simp only [Stats.TraceStats.analyze, getAll, h]

theorem load_saved (db : TraceDb) (hdb : db.Representable) (path : String) :
    load (.ok db.serialize) path = .ok { db with path } := by
  have hfits := (Bincode.records_fits db.entries.toList).mpr hdb
  have hload := load_encode hfits [] path
  rwa [List.append_nil, OrderedMap.ofList_toList] at hload

section Saved

variable (write : String → List UInt8 → Except String Unit) (db : TraceDb)
  (hdb : db.Representable)
include hdb

-- What is handed to the write is read back as the same entries under the same keys.
theorem load_save (path : String) :
    ∃ data, (db.save write).calls = [{ path := db.path, data }] ∧
      ∃ loaded, load (.ok data) path = .ok loaded ∧ loaded.entries = db.entries ∧
        SameAnswers db loaded :=
  ⟨_, save_calls write db, _, load_saved db hdb path, rfl, sameAnswers_of_entries rfl⟩

-- A file cut short is never taken for a trace.
theorem load_save_truncated :
    ∃ data, (db.save write).calls = [{ path := db.path, data }] ∧
      ∀ cut, cut <+: data → cut ≠ data → ∀ path, ∃ e, load (.ok cut) path = .error e := by
  refine ⟨_, save_calls write db, fun cut hcut hshort path => ?_⟩
  obtain ⟨lost, hlost⟩ := hcut
  have hne : lost ≠ [] := by
    rintro rfl
    exact hshort (by simpa using hlost)
  have hfits := (Bincode.records_fits db.entries.toList).mpr hdb
  obtain ⟨e, he⟩ := Bincode.records.decode_strict_prefix hfits hlost hne
  exact ⟨_, load_decode_error he path⟩

end Saved

section Samples

-- Two entries inserted out of order, one with text beyond ASCII and a changed byte.
def sampleDb : TraceDb :=
  ofInserts "sample.tdb" [⟨1, 0x1004, [0xc0], "ret ; RETURN [depth:0]", "\x7b\x7d", []⟩,
    ⟨0, 0x1000, [0x1f, 0x20], "str x0, [sp] é", "\x7b\"sp\":28672\x7d", [⟨0x7000, 0, 0x41⟩]⟩]

theorem sampleDb_representable : sampleDb.Representable := by decide +kernel

theorem load_save_sampleDb :
    ∃ data, (sampleDb.save fun _ _ => .ok ()).calls = [{ path := "sample.tdb", data }] ∧
      ∃ loaded, load (.ok data) "copy.tdb" = .ok loaded ∧ loaded.entries = sampleDb.entries ∧
        SameAnswers sampleDb loaded :=
  load_save (fun _ _ => .ok ()) sampleDb sampleDb_representable "copy.tdb"

theorem load_save_truncated_sampleDb :
    ∃ data, (sampleDb.save fun _ _ => .ok ()).calls = [{ path := "sample.tdb", data }] ∧
      ∀ cut, cut <+: data → cut ≠ data → ∀ path, ∃ e, load (.ok cut) path = .error e :=
  load_save_truncated (fun _ _ => .ok ()) sampleDb sampleDb_representable

end Samples

end TraceDb

end Tdb.Storage
