import Mathlib.Data.Finset.Dedup
import Mathlib.Data.Finset.Card
import Tdb.Library.OrderedMap

namespace Tdb.Library.KeyedStore

open Std OrderedMap

variable {κ α : Type*} [Ord κ] [TransOrd κ]

-- A map filled item by item, each under its own key.
def fill (key : α → κ) (items : List α) : ExtTreeMap κ α :=
  items.foldl (fun m a => m.insert (key a) a) ∅

variable (key : α → κ)

theorem fill_concat (items : List α) (a : α) :
    fill key (items ++ [a]) = (fill key items).insert (key a) a := by
  simp [fill]

variable [LawfulEqOrd κ] [DecidableEq κ]

-- The last item with a key is the one that is kept.
theorem getElem?_fill (items : List α) (k : κ) :
    (fill key items)[k]? = items.reverse.find? fun a => key a = k := by
  induction items using List.reverseRecOn with
  | nil => simp [fill]
  | append_singleton items a ih =>
      rw [fill_concat, getElem?_insert_eq, ih, List.reverse_concat, List.find?_cons]
      by_cases ha : key a = k <;> simp [ha]

-- What is listed: one item for each key that occurs.
theorem mem_keys_fill_iff (items : List α) (k : κ) :
    k ∈ (fill key items).toList.map Prod.fst ↔ k ∈ items.map key := by
  rw [ExtTreeMap.map_fst_toList_eq_keys, ExtTreeMap.mem_keys, ExtTreeMap.mem_iff_isSome_getElem?,
    getElem?_fill, List.find?_isSome]
  simp only [List.mem_reverse, decide_eq_true_eq, List.mem_map]

theorem size_fill (items : List α) :
    (fill key items).size = (items.map key).toFinset.card := by
  have hnodup : ((fill key items).toList.map Prod.fst).Nodup := by
    refine List.pairwise_map.mpr ((toList_keysAscend _).imp fun hlt heq => ?_)
    simp [heq] at hlt
  have hsame : ((fill key items).toList.map Prod.fst).toFinset = (items.map key).toFinset := by
    ext k
    rw [List.mem_toFinset, List.mem_toFinset, mem_keys_fill_iff]
  rw [← hsame, List.toFinset_card_of_nodup hnodup, List.length_map, ExtTreeMap.length_toList]

-- When no two items share a key, each of them is found under its own.
theorem getElem?_fill_eq_some_iff {items : List α} (hnodup : (items.map key).Nodup) (k : κ)
    (a : α) : (fill key items)[k]? = some a ↔ a ∈ items ∧ key a = k := by
  rw [getElem?_fill, List.find?_eq_some_iff_append]
  constructor
  · rintro ⟨hkey, before, after, hitems, _⟩
    refine ⟨?_, of_decide_eq_true hkey⟩
    rw [← List.mem_reverse, hitems]
    simp
  · rintro ⟨ha, rfl⟩
    obtain ⟨before, after, hitems⟩ := List.append_of_mem (List.mem_reverse.mpr ha)
    refine ⟨decide_eq_true rfl, before, after, hitems, fun b hb => ?_⟩
    have hother : key b ≠ key a := by
      have hall := List.nodup_reverse.mpr hnodup
      rw [← List.map_reverse, hitems, List.map_append, List.map_cons] at hall
      intro heq
      exact List.disjoint_of_nodup_append hall (List.mem_map_of_mem hb) (by simp [heq])
    simp [hother]

-- Items with keys of their own can be put in in any order.
theorem fill_perm {items items' : List α} (h : items.Perm items')
    (hnodup : (items.map key).Nodup) : fill key items = fill key items' := by
  have hnodup' := (h.map key).nodup_iff.mp hnodup
  apply ExtTreeMap.ext_getElem?
  intro k
  ext a
  rw [getElem?_fill_eq_some_iff key hnodup, getElem?_fill_eq_some_iff key hnodup', h.mem_iff]

end Tdb.Library.KeyedStore
