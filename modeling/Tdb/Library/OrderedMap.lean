import Mathlib.Data.List.Sort
import Mathlib.Data.List.Infix

namespace Tdb.Library

open Std

-- Why a call can panic: the text the standard library or the caller panics with.
structure Panic where
  message : String
deriving DecidableEq, Repr

namespace OrderedMap

variable {κ α : Type*} [Ord κ] [TransOrd κ]

def KeysAscend (pairs : List (κ × α)) : Prop :=
  pairs.Pairwise (fun a b => compare a.1 b.1 = .lt)

theorem KeysAscend.nodup {pairs : List (κ × α)} (h : KeysAscend pairs) : pairs.Nodup :=
  h.imp fun hlt he => by simp [he] at hlt

theorem KeysAscend.eq_of_mem_iff {left right : List (κ × α)} (hl : KeysAscend left)
    (hr : KeysAscend right) (hmem : ∀ p, p ∈ left ↔ p ∈ right) : left = right := by
  refine List.Perm.eq_of_pairwise (fun a b _ _ hab hba => ?_) hl hr
    ((List.perm_ext_iff_of_nodup hl.nodup hr.nodup).mpr hmem)
  exact False.elim (OrientedCmp.not_lt_of_lt hab hba)

theorem toList_keysAscend (m : ExtTreeMap κ α) : KeysAscend m.toList :=
  ExtTreeMap.ordered_keys_toList

section Range

-- An inclusive range query, with the panic a tree map documents for an inverted range.
def range (m : ExtTreeMap κ α) (lo hi : κ) : Except Panic (List (κ × α)) :=
  if (compare lo hi).isGT then .error ⟨"range start is greater than range end in BTreeMap"⟩
  else .ok (m.toList.filter fun p => (compare lo p.1).isLE && (compare p.1 hi).isLE)

theorem range_eq_ok_iff (m : ExtTreeMap κ α) (lo hi : κ) (pairs : List (κ × α)) :
    range m lo hi = .ok pairs ↔ (compare lo hi).isLE ∧
      pairs = m.toList.filter fun p => (compare lo p.1).isLE && (compare p.1 hi).isLE := by
  unfold range
  cases h : compare lo hi <;> simp [eq_comm]

theorem range_isOk_iff (m : ExtTreeMap κ α) (lo hi : κ) :
    (∃ pairs, range m lo hi = .ok pairs) ↔ (compare lo hi).isLE := by
  simp [range_eq_ok_iff]

theorem range_keysAscend {m : ExtTreeMap κ α} {lo hi : κ} {pairs : List (κ × α)}
    (h : range m lo hi = .ok pairs) : KeysAscend pairs := by
  obtain ⟨_, rfl⟩ := (range_eq_ok_iff m lo hi pairs).mp h
  exact (toList_keysAscend m).filter _

-- Two ranges that meet are one: `next` is the least key above `mid`.
theorem range_append (m : ExtTreeMap κ α) {lo mid next hi : κ}
    (hnext : ∀ k, (compare next k).isLE ↔ compare mid k = .lt) (hlo : (compare lo mid).isLE)
    (hhi : (compare next hi).isLE) :
    ∃ left right, range m lo mid = .ok left ∧ range m next hi = .ok right ∧
      range m lo hi = .ok (left ++ right) := by
  have hmid : (compare mid hi).isLE := by rw [(hnext hi).mp hhi]; rfl
  refine ⟨_, _, (range_eq_ok_iff m lo mid _).mpr ⟨hlo, rfl⟩,
    (range_eq_ok_iff m next hi _).mpr ⟨hhi, rfl⟩,
    (range_eq_ok_iff m lo hi _).mpr ⟨TransCmp.isLE_trans hlo hmid, ?_⟩⟩
  refine KeysAscend.eq_of_mem_iff (List.pairwise_append.mpr ⟨(toList_keysAscend m).filter _,
    (toList_keysAscend m).filter _, ?_⟩) ((toList_keysAscend m).filter _) ?_
  · intro p hp q hq
    have hle := (Bool.and_eq_true_iff.mp (List.mem_filter.mp hp).2).2
    have hlt := (hnext q.1).mp (Bool.and_eq_true_iff.mp (List.mem_filter.mp hq).2).1
    exact TransCmp.lt_of_isLE_of_lt hle hlt
  · intro p
    simp only [List.mem_append, List.mem_filter, Bool.and_eq_true, hnext]
    constructor
    · rintro (⟨hp, hlow, hhigh⟩ | ⟨hp, hlow, hhigh⟩)
      · exact ⟨hp, hlow, TransCmp.isLE_trans hhigh hmid⟩
      · exact ⟨hp, TransCmp.isLE_trans hlo (by rw [hlow]; rfl), hhigh⟩
    · rintro ⟨hp, hlow, hhigh⟩
      cases hcmp : compare mid p.1 with
      | lt => exact Or.inr ⟨hp, rfl, hhigh⟩
      | eq => exact Or.inl ⟨hp, hlow, by rw [OrientedCmp.eq_symm hcmp]; rfl⟩
      | gt => exact Or.inl ⟨hp, hlow, by rw [OrientedCmp.lt_of_gt hcmp]; rfl⟩

end Range

variable [LawfulEqOrd κ]

theorem mem_range {m : ExtTreeMap κ α} {lo hi : κ} {pairs : List (κ × α)}
    (h : range m lo hi = .ok pairs) (k : κ) (v : α) :
    (k, v) ∈ pairs ↔ m[k]? = some v ∧ (compare lo k).isLE ∧ (compare k hi).isLE := by
  obtain ⟨_, rfl⟩ := (range_eq_ok_iff m lo hi pairs).mp h
  simp [ExtTreeMap.mem_toList_iff_getElem?_eq_some]

theorem range_self_iff (m : ExtTreeMap κ α) (k : κ) (v : α) :
    range m k k = .ok [(k, v)] ↔ m[k]? = some v := by
  constructor
  · intro h
    exact ((mem_range h k v).mp (List.mem_singleton_self _)).1
  · intro h
    refine (range_eq_ok_iff m k k _).mpr ⟨by simp, ?_⟩
    refine KeysAscend.eq_of_mem_iff (List.pairwise_singleton _ _)
      ((toList_keysAscend m).filter _) ?_
    rintro ⟨a, w⟩
    rw [List.mem_singleton, List.mem_filter, ExtTreeMap.mem_toList_iff_getElem?_eq_some]
    constructor
    · rintro ⟨rfl, rfl⟩
      simp [h]
    · rintro ⟨hw, hbounds⟩
      obtain ⟨hlow, hhigh⟩ := Bool.and_eq_true_iff.mp hbounds
      obtain rfl := LawfulEqCmp.compare_eq_iff_eq.mp (OrientedCmp.isLE_antisymm hlow hhigh)
      rw [h, Option.some.injEq] at hw
      rw [hw]

theorem toList_eq_of_getElem? {m : ExtTreeMap κ α} {pairs : List (κ × α)}
    (hs : KeysAscend pairs) (hmem : ∀ k v, (k, v) ∈ pairs ↔ m[k]? = some v) :
    m.toList = pairs := by
  apply (toList_keysAscend m).eq_of_mem_iff hs
  rintro ⟨k, v⟩
  rw [hmem, ExtTreeMap.mem_toList_iff_getElem?_eq_some]

variable [DecidableEq κ]

theorem getElem?_insert_eq (m : ExtTreeMap κ α) (a k : κ) (v : α) :
    (m.insert a v)[k]? = if a = k then some v else m[k]? := by
  rw [ExtTreeMap.getElem?_insert]
  by_cases h : a = k
  · simp [h]
  · simp [h]

-- Inserting above every stored key appends at the end of the iteration order.
theorem toList_insert_last {m : ExtTreeMap κ α} {a : κ} (v : α)
    (hlast : ∀ p ∈ m.toList, compare p.1 a = .lt) :
    (m.insert a v).toList = m.toList ++ [(a, v)] := by
  apply toList_eq_of_getElem?
  · refine List.pairwise_append.mpr ⟨toList_keysAscend m, List.pairwise_singleton _ _, ?_⟩
    intro p hp q hq
    obtain rfl := List.mem_singleton.mp hq
    exact hlast p hp
  · intro k w
    rw [List.mem_append, ExtTreeMap.mem_toList_iff_getElem?_eq_some, List.mem_singleton,
      getElem?_insert_eq]
    by_cases he : a = k
    · subst he
      have hnone : m[a]? ≠ some w := by
        intro hs
        have hlt := hlast _ (ExtTreeMap.mem_toList_iff_getElem?_eq_some.mpr hs)
        simp at hlt
      simp [hnone, eq_comm]
    · simp [he, Ne.symm he]

omit [LawfulEqOrd κ] [DecidableEq κ] in
theorem ofList_append_singleton (pairs : List (κ × α)) (a : κ) (v : α) :
    ExtTreeMap.ofList (pairs ++ [(a, v)]) compare = (ExtTreeMap.ofList pairs compare).insert a v := by
  simp [ExtTreeMap.ofList_eq_foldl]

-- Filling a map pair by pair keeps, for each key, the last pair that names it.
theorem getElem?_ofList_eq_some_iff (pairs : List (κ × α)) (k : κ) (v : α) :
    (ExtTreeMap.ofList pairs compare)[k]? = some v ↔
      ∃ before after, pairs = before ++ (k, v) :: after ∧ ∀ p ∈ after, p.1 ≠ k := by
  induction pairs using List.reverseRecOn with
  | nil => simp [ExtTreeMap.ofList_nil]
  | append_singleton pairs last ih =>
      obtain ⟨a, w⟩ := last
      rw [ofList_append_singleton, getElem?_insert_eq]
      by_cases ha : a = k
      · subst ha
        simp only [ite_true, Option.some.injEq]
        constructor
        · rintro rfl
          exact ⟨pairs, [], by simp, by simp⟩
        · rintro ⟨before, after, he, hne⟩
          rcases List.eq_nil_or_concat after with rfl | ⟨init, last, rfl⟩
          · simpa using (List.append_inj' he rfl).2
          · have hl : (a, w) = last := by
              rw [List.concat_eq_append, ← List.cons_append, ← List.append_assoc] at he
              simpa using (List.append_inj' he rfl).2
            exact False.elim (hne last (by simp) (by rw [← hl]))
      · simp only [ha, ite_false]
        rw [ih]
        constructor
        · rintro ⟨before, after, rfl, hne⟩
          refine ⟨before, after ++ [(a, w)], by simp, ?_⟩
          intro p hp
          rcases List.mem_append.mp hp with hp | hp
          · exact hne p hp
          · obtain rfl := List.mem_singleton.mp hp
            exact ha
        · rintro ⟨before, after, he, hne⟩
          rcases List.eq_nil_or_concat after with rfl | ⟨init, last, rfl⟩
          · have hl : (a, w) = (k, v) := by simpa using (List.append_inj' he rfl).2
            exact False.elim (ha (Prod.mk.inj hl).1)
          · rw [List.concat_eq_append, ← List.cons_append, ← List.append_assoc] at he
            refine ⟨before, init, (List.append_inj' he rfl).1, ?_⟩
            intro p hp
            exact hne p (by simp [hp])

theorem mem_of_mem_toList_ofList {pairs : List (κ × α)} {p : κ × α}
    (h : p ∈ (ExtTreeMap.ofList pairs compare).toList) : p ∈ pairs := by
  obtain ⟨k, v⟩ := p
  rw [ExtTreeMap.mem_toList_iff_getElem?_eq_some, getElem?_ofList_eq_some_iff] at h
  obtain ⟨before, after, rfl, _⟩ := h
  simp

theorem length_toList_ofList_le (pairs : List (κ × α)) :
    (ExtTreeMap.ofList pairs compare).toList.length ≤ pairs.length :=
  (List.subperm_of_subset (toList_keysAscend _).nodup
    fun _ => mem_of_mem_toList_ofList).length_le

-- Only a list in the order of its keys, none of them twice, comes back as it went in.
theorem toList_ofList_eq_iff (pairs : List (κ × α)) :
    (ExtTreeMap.ofList pairs compare).toList = pairs ↔ KeysAscend pairs := by
  constructor
  · intro h
    rw [← h]
    exact toList_keysAscend _
  · intro h
    refine toList_eq_of_getElem? h fun k v => ?_
    rw [getElem?_ofList_eq_some_iff]
    constructor
    · intro hmem
      obtain ⟨before, after, rfl⟩ := List.append_of_mem hmem
      have hlater := (List.pairwise_cons.mp (List.pairwise_append.mp h).2.1).1
      refine ⟨before, after, rfl, fun p hp hsame => ?_⟩
      have hlt := hlater p hp
      simp [hsame] at hlt
    · rintro ⟨before, after, rfl, _⟩
      simp

theorem ofList_toList (m : ExtTreeMap κ α) : ExtTreeMap.ofList m.toList compare = m := by
  have hsame := (toList_ofList_eq_iff m.toList).mpr (toList_keysAscend m)
  apply ExtTreeMap.ext_getElem?
  intro k
  ext v
  rw [← ExtTreeMap.mem_toList_iff_getElem?_eq_some, hsame,
    ExtTreeMap.mem_toList_iff_getElem?_eq_some]

end OrderedMap

end Tdb.Library
