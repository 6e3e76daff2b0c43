import Tdb.Library.KeyedStore
import Tdb.Storage.Lemmas

namespace Tdb.Storage.TraceDb

open Std Tdb.Library

-- A store as the program makes it: `new`, and the inserts one after the other.
def insertAll (path : String) (history : List TraceEntry) : Except String TraceDb :=
  match TraceDb.new path with
  | .error e => .error e
  | .ok db => history.foldlM insert db

-- What the store is for: a map from steps to entries in which the last writer wins, and four
-- ways of asking that agree on it.
structure LastWriterWins (history : List TraceEntry) (db : TraceDb) : Prop where
  get_eq : ∀ s, db.get s = history.reverse.find? fun e => e.step = s
  count_eq : db.count = (history.map TraceEntry.step).toFinset.card
  getAll_ascends : db.getAll.Pairwise fun a b => a.step < b.step
  getAll_steps : ∀ s, s ∈ db.getAll.map TraceEntry.step ↔ s ∈ history.map TraceEntry.step
  mem_getAll : ∀ s e, db.get s = some e ↔ e ∈ db.getAll ∧ e.step = s
  getRange_self : ∀ s e, db.getRange s s = .ok [e] ↔ db.get s = some e
  getRange_append : ∀ a b c, a ≤ b → b < c → ∃ left right, db.getRange a b = .ok left ∧
    db.getRange (b + 1) c = .ok right ∧ db.getRange a c = .ok (left ++ right)

section Queries

variable {db : TraceDb}

theorem getRange_append {a b c : Nat} (hab : a ≤ b) (hbc : b < c) :
    ∃ left right, db.getRange a b = .ok left ∧ db.getRange (b + 1) c = .ok right ∧
      db.getRange a c = .ok (left ++ right) := by
  have hnext : ∀ k, (compare (b + 1) k).isLE ↔ compare b k = .lt := by
    intro k
    rw [Nat.isLE_compare, Nat.compare_eq_lt]
    exact Nat.succ_le_iff
  obtain ⟨left, right, hleft, hright, hwhole⟩ := OrderedMap.range_append db.entries hnext
    (Nat.isLE_compare.mpr hab) (Nat.isLE_compare.mpr hbc)
  unfold getRange
  rw [hleft, hright, hwhole]
  exact ⟨_, _, rfl, rfl, by simp only [List.map_append]⟩

theorem KeysAreSteps.getRange_self_iff (h : db.KeysAreSteps) (s : Nat) (e : TraceEntry) :
    db.getRange s s = .ok [e] ↔ db.get s = some e := by
  constructor
  · intro hrange
    obtain ⟨hget, hlow, hhigh⟩ := (h.mem_getRange_iff hrange e).mp (List.mem_singleton_self e)
    rwa [Nat.le_antisymm hlow hhigh]
  · intro hget
    rw [getRange_eq_ok_iff]
    exact ⟨_, (OrderedMap.range_self_iff db.entries s e).mpr hget, rfl⟩

theorem KeysAreSteps.get_eq_some_iff (h : db.KeysAreSteps) (s : Nat) (e : TraceEntry) :
    db.get s = some e ↔ e ∈ db.getAll ∧ e.step = s := by
  rw [h.mem_getAll_iff]
  constructor
  · intro hget
    rw [h s e hget]
    exact ⟨hget, rfl⟩
  · rintro ⟨hget, rfl⟩
    exact hget

end Queries

theorem ofInserts_eq_fill (path : String) (history : List TraceEntry) :
    ofInserts path history = { entries := KeyedStore.fill TraceEntry.step history, path } := rfl

theorem insertAll_eq (path : String) (history : List TraceEntry) :
    insertAll path history = .ok (ofInserts path history) := by
  unfold insertAll TraceDb.new
  dsimp only
  induction history using List.reverseRecOn with
  | nil => rfl
  | append_singleton history e ih =>
      rw [List.foldlM_append, ih, ofInserts_concat]
      rfl

theorem ofInserts_lastWriterWins (path : String) (history : List TraceEntry) :
    LastWriterWins history (ofInserts path history) := by
  have hkeys := ofInserts_keysAreSteps path history
  have hget : ∀ s, (ofInserts path history).get s = history.reverse.find? fun e => e.step = s :=
    KeyedStore.getElem?_fill TraceEntry.step history
  refine ⟨hget, KeyedStore.size_fill TraceEntry.step history, hkeys.getAll_stepsAscend, ?_,
    hkeys.get_eq_some_iff, hkeys.getRange_self_iff, fun a b c => getRange_append⟩
  intro s
  have hsome : (∃ e, (ofInserts path history).get s = some e) ↔
      s ∈ history.map TraceEntry.step := by
    rw [hget, ← Option.isSome_iff_exists, List.find?_isSome]
    simp only [List.mem_reverse, decide_eq_true_eq, List.mem_map]
  rw [← hsome, List.mem_map]
  exact exists_congr fun e => (hkeys.get_eq_some_iff s e).symm

-- However the inserts come, with steps repeated or out of order.
theorem insertAll_lastWriterWins (path : String) (history : List TraceEntry) :
    ∃ db, insertAll path history = .ok db ∧ LastWriterWins history db ∧
      ((history.map TraceEntry.step).Nodup → ∀ history', history.Perm history' →
        insertAll path history' = .ok db) := by
  refine ⟨_, insertAll_eq path history, ofInserts_lastWriterWins path history, ?_⟩
  intro hnodup history' hperm
  rw [insertAll_eq, ofInserts_eq_fill, ofInserts_eq_fill,
    KeyedStore.fill_perm TraceEntry.step hperm hnodup]

end Tdb.Storage.TraceDb
