import Tdb.Storage

namespace Tdb.Storage.TraceDb

open Std Tdb.Library

-- The map key repeats the step field of the entry stored under it.
def KeysAreSteps (db : TraceDb) : Prop :=
  ∀ key e, db.get key = some e → e.step = key

theorem mem_toList_iff (db : TraceDb) (key : Nat) (e : TraceEntry) :
    (key, e) ∈ db.entries.toList ↔ db.get key = some e :=
  ExtTreeMap.mem_toList_iff_getElem?_eq_some

theorem mem_getAll_iff (db : TraceDb) (e : TraceEntry) :
    e ∈ db.getAll ↔ ∃ key, db.get key = some e := by
  simp [getAll, get]

theorem length_getAll (db : TraceDb) : db.getAll.length = db.count := by
  simp [getAll, count]

theorem getRange_eq_ok_iff (db : TraceDb) (start finish : Nat) (found : List TraceEntry) :
    db.getRange start finish = .ok found ↔
      ∃ pairs, OrderedMap.range db.entries start finish = .ok pairs ∧ pairs.map Prod.snd = found := by
  unfold getRange
  cases OrderedMap.range db.entries start finish <;> simp

theorem getRange_isOk_iff (db : TraceDb) (start finish : Nat) :
    (∃ found, db.getRange start finish = .ok found) ↔ start ≤ finish := by
  rw [← Nat.isLE_compare, ← OrderedMap.range_isOk_iff db.entries start finish]
  constructor
  · rintro ⟨found, h⟩
    obtain ⟨pairs, hp, _⟩ := (getRange_eq_ok_iff db start finish found).mp h
    exact ⟨pairs, hp⟩
  · rintro ⟨pairs, hp⟩
    exact ⟨pairs.map Prod.snd, (getRange_eq_ok_iff db start finish _).mpr ⟨pairs, hp, rfl⟩⟩

theorem mem_getRange_iff {db : TraceDb} {start finish : Nat} {found : List TraceEntry}
    (h : db.getRange start finish = .ok found) (e : TraceEntry) :
    e ∈ found ↔ ∃ key, db.get key = some e ∧ start ≤ key ∧ key ≤ finish := by
  obtain ⟨pairs, hp, rfl⟩ := (getRange_eq_ok_iff db start finish found).mp h
  simp only [List.mem_map, Prod.exists, exists_eq_right, OrderedMap.mem_range hp, get,
    Nat.isLE_compare]

section Insert

@[simp] theorem get_insert (db : TraceDb) (e : TraceEntry) (key : Nat) :
    get { db with entries := db.entries.insert e.step e } key =
      if e.step = key then some e else db.get key :=
  OrderedMap.getElem?_insert_eq db.entries e.step key e

theorem KeysAreSteps.insert {db : TraceDb} (h : db.KeysAreSteps) (e : TraceEntry) :
    KeysAreSteps { db with entries := db.entries.insert e.step e } := by
  intro key found hget
  rw [get_insert] at hget
  split at hget
  · rename_i hkey
    obtain rfl := Option.some.inj hget
    exact hkey
  · exact h key found hget

theorem ofInserts_concat (path : String) (history : List TraceEntry) (e : TraceEntry) :
    ofInserts path (history ++ [e]) =
      { ofInserts path history with
        entries := (ofInserts path history).entries.insert e.step e } := by
  simp [ofInserts]

theorem ofInserts_keysAreSteps (path : String) (history : List TraceEntry) :
    (ofInserts path history).KeysAreSteps := by
  induction history using List.reverseRecOn with
  | nil => intro key e h; simp [ofInserts, get] at h
  | append_singleton history e ih =>
      rw [ofInserts_concat]
      exact ih.insert e

theorem toList_insert_last {db : TraceDb} {e : TraceEntry}
    (hlast : ∀ key, key ∈ db.entries → key < e.step) :
    (db.entries.insert e.step e).toList = db.entries.toList ++ [(e.step, e)] := by
  apply OrderedMap.toList_insert_last
  rintro ⟨key, old⟩ hp
  have hget : db.entries[key]? = some old := ExtTreeMap.mem_toList_iff_getElem?_eq_some.mp hp
  have hmem : key ∈ db.entries := by
    by_contra hn
    simp [ExtTreeMap.getElem?_eq_none hn] at hget
  exact Nat.compare_eq_lt.mpr (hlast key hmem)

end Insert

section KeysAreSteps

variable {db : TraceDb} (h : db.KeysAreSteps)
include h

theorem KeysAreSteps.mem_getAll_iff (e : TraceEntry) : e ∈ db.getAll ↔ db.get e.step = some e := by
  rw [TraceDb.mem_getAll_iff]
  constructor
  · rintro ⟨key, hget⟩
    rwa [h key e hget]
  · intro hget
    exact ⟨e.step, hget⟩

theorem KeysAreSteps.stepsAscend {pairs : List (Nat × TraceEntry)}
    (hs : OrderedMap.KeysAscend pairs) (hstored : ∀ p ∈ pairs, p ∈ db.entries.toList) :
    (pairs.map Prod.snd).Pairwise (fun a b => a.step < b.step) := by
  refine List.pairwise_map.mpr (List.Pairwise.imp_of_mem ?_ hs)
  intro a b ha hb hlt
  have hka := h a.1 a.2 ((mem_toList_iff db a.1 a.2).mp (hstored a ha))
  have hkb := h b.1 b.2 ((mem_toList_iff db b.1 b.2).mp (hstored b hb))
  rw [hka, hkb]
  exact Nat.compare_eq_lt.mp hlt

theorem KeysAreSteps.getAll_stepsAscend :
    db.getAll.Pairwise (fun a b => a.step < b.step) :=
  h.stepsAscend (OrderedMap.toList_keysAscend db.entries) fun _ hp => hp

theorem KeysAreSteps.getRange_stepsAscend {start finish : Nat} {found : List TraceEntry}
    (hrange : db.getRange start finish = .ok found) :
    found.Pairwise (fun a b => a.step < b.step) := by
  obtain ⟨pairs, hp, rfl⟩ := (getRange_eq_ok_iff db start finish found).mp hrange
  refine h.stepsAscend (OrderedMap.range_keysAscend hp) ?_
  rintro ⟨key, e⟩ hm
  exact (mem_toList_iff db key e).mpr ((OrderedMap.mem_range hp key e).mp hm).1

theorem KeysAreSteps.mem_getRange_iff {start finish : Nat} {found : List TraceEntry}
    (hrange : db.getRange start finish = .ok found) (e : TraceEntry) :
    e ∈ found ↔ db.get e.step = some e ∧ start ≤ e.step ∧ e.step ≤ finish := by
  rw [TraceDb.mem_getRange_iff hrange]
  constructor
  · rintro ⟨key, hget, hlo, hhi⟩
    obtain rfl := h key e hget
    exact ⟨hget, hlo, hhi⟩
  · rintro ⟨hget, hlo, hhi⟩
    exact ⟨e.step, hget, hlo, hhi⟩

end KeysAreSteps

end Tdb.Storage.TraceDb
