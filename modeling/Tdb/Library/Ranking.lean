import Mathlib.Data.List.Sort
import Mathlib.Data.List.Induction

namespace Tdb.Library.Ranking

variable {α β : Type*} [LinearOrder β]

-- A stable sort by descending key.
def sort (key : α → β) (l : List α) : List α :=
  l.insertionSort fun a b => key b ≤ key a

-- How many items rank strictly before `a`, whatever the order of the list.
def above (key : α → β) (l : List α) (a : α) : Nat :=
  l.countP fun b => key a < key b

-- The last of the items with the largest key.
def maxBy (key : α → β) (l : List α) : Option α :=
  l.foldl (fun best a =>
    match best with
    | none => some a
    | some b => if key b ≤ key a then some a else some b) none

variable (key : α → β)

section Sorting

theorem sort_perm (l : List α) : (sort key l).Perm l :=
  List.perm_insertionSort _ l

theorem sort_pairwise (l : List α) : (sort key l).Pairwise fun a b => key b ≤ key a := by
  have : Std.Total (fun a b => key b ≤ key a) := ⟨fun a b => le_total (key b) (key a)⟩
  have : IsTrans α (fun a b => key b ≤ key a) := ⟨fun _ _ _ hab hbc => hbc.trans hab⟩
  exact List.pairwise_insertionSort _ l

theorem above_perm {l l' : List α} (h : l.Perm l') (a : α) : above key l a = above key l' a :=
  h.countP_eq _

theorem above_congr (l : List α) {a b : α} (h : key a = key b) : above key l a = above key l b := by
  unfold above
  rw [h]

variable {key}

-- In a ranked list the items above a bound come first.
theorem takeWhile_eq_filter {l : List α} (h : l.Pairwise fun a b => key b ≤ key a) (bound : β) :
    (l.takeWhile fun b => bound < key b) = l.filter fun b => bound < key b := by
  induction l with
  | nil => rfl
  | cons a rest ih =>
      obtain ⟨hfirst, hrest⟩ := List.pairwise_cons.mp h
      by_cases ha : bound < key a
      · simp [ha, ih hrest]
      · have hnone : ∀ b ∈ rest, ¬bound < key b := fun b hb hlt => ha (hlt.trans_le (hfirst b hb))
        have hempty : (rest.filter fun b => bound < key b) = [] := by
          simpa [List.filter_eq_nil_iff] using hnone
        simp [ha, hempty]

theorem above_le_index {l : List α} (h : l.Pairwise fun a b => key b ≤ key a) {i : Nat} {a : α}
    (hi : l[i]? = some a) : above key l a ≤ i := by
  unfold above
  rw [List.countP_eq_length_filter, ← takeWhile_eq_filter h]
  by_contra hlt
  obtain ⟨hlen, rfl⟩ := List.getElem?_eq_some_iff.mp hi
  have hprefix := List.takeWhile_prefix (fun b => decide (key l[i] < key b)) (l := l)
  have hsame := hprefix.getElem (show i < _ by omega)
  have hpos := List.all_takeWhile (p := fun b => decide (key l[i] < key b)) (l := l)
  rw [List.all_eq_true] at hpos
  have hself := hpos _ (List.getElem_mem (show i < _ by omega))
  rw [hsame] at hself
  simp at hself

-- An item that comes first in the input is placed right after the items above it.
theorem getElem?_sort_cons (a : α) (l : List α) :
    (sort key (a :: l))[above key l a]? = some a := by
  have hwhile : (fun b => decide ¬(key b ≤ key a)) = fun b => decide (key a < key b) := by
    funext b
    simp
  have hlen : above key l a = ((sort key l).takeWhile fun b => decide (key a < key b)).length := by
    rw [takeWhile_eq_filter (sort_pairwise key l), ← List.countP_eq_length_filter,
      ← above_perm key (sort_perm key l) a]
    rfl
  unfold sort
  rw [List.insertionSort_cons_eq_take_drop, hwhile, hlen]
  simp [sort]

-- The first `n` places do not depend on the order of the input when no two items tie there.
theorem take_sort_eq {l l' : List α} (hperm : l.Perm l') {n : Nat}
    (hclear : ∀ a ∈ l, ∀ b ∈ l, key a = key b → above key l a < n → a = b) :
    (sort key l).take n = (sort key l').take n := by
  have hkeys : (sort key l).map key = (sort key l').map key := by
    have hdesc : ∀ items, ((sort key items).map key).Pairwise fun x y => y ≤ x := fun items =>
      List.pairwise_map.mpr (sort_pairwise key items)
    have hsame := ((sort_perm key l).trans hperm).trans (sort_perm key l').symm
    exact (hsame.map key).eq_of_pairwise (fun x y _ _ hxy hyx => le_antisymm hyx hxy)
      (hdesc l) (hdesc l')
  apply List.ext_getElem?
  intro i
  rw [List.getElem?_take, List.getElem?_take]
  split
  · rename_i hi
    have hkey := congrArg (fun keys => keys[i]?) hkeys
    simp only [List.getElem?_map] at hkey
    cases ha : (sort key l)[i]? with
    | none =>
        rw [ha] at hkey
        cases hb : (sort key l')[i]? with
        | none => rfl
        | some b => simp [hb] at hkey
    | some a =>
        cases hb : (sort key l')[i]? with
        | none => simp [ha, hb] at hkey
        | some b =>
            simp only [ha, hb, Option.map_some, Option.some.injEq] at hkey
            have hal : a ∈ l := (sort_perm key l).mem_iff.mp (List.mem_of_getElem? ha)
            have hbl : b ∈ l :=
              hperm.mem_iff.mpr ((sort_perm key l').mem_iff.mp (List.mem_of_getElem? hb))
            have habove : above key l a < n := by
              rw [← above_perm key (sort_perm key l)]
              exact (above_le_index (sort_pairwise key l) ha).trans_lt hi
            rw [hclear a hal b hbl hkey habove]
  · rfl

end Sorting

section MaxBy

theorem maxBy_concat (l : List α) (a : α) :
    maxBy key (l ++ [a]) = match maxBy key l with
      | none => some a
      | some b => if key b ≤ key a then some a else some b := by
  unfold maxBy
  rw [List.foldl_append]
  rfl

theorem maxBy_spec (l : List α) :
    match maxBy key l with
    | none => l = []
    | some a => a ∈ l ∧ ∀ b ∈ l, key b ≤ key a := by
  induction l using List.reverseRecOn with
  | nil => rfl
  | append_singleton rest last ih =>
      rw [maxBy_concat]
      cases hbest : maxBy key rest with
      | none =>
          rw [hbest] at ih
          subst ih
          simp
      | some best =>
          rw [hbest] at ih
          obtain ⟨hmem, hmax⟩ := ih
          by_cases hle : key best ≤ key last
          · simp only [if_pos hle]
            refine ⟨by simp, fun b hb => ?_⟩
            rcases List.mem_append.mp hb with hb | hb
            · exact (hmax b hb).trans hle
            · obtain rfl := List.mem_singleton.mp hb
              exact le_refl _
          · simp only [if_neg hle]
            refine ⟨by simp [hmem], fun b hb => ?_⟩
            rcases List.mem_append.mp hb with hb | hb
            · exact hmax b hb
            · obtain rfl := List.mem_singleton.mp hb
              exact (not_le.mp hle).le

theorem maxBy_eq_some {l : List α} {a : α} (h : maxBy key l = some a) :
    a ∈ l ∧ ∀ b ∈ l, key b ≤ key a := by
  have hspec := maxBy_spec key l
  rwa [h] at hspec

-- Of several largest items the one that comes last is found.
theorem maxBy_concat_of_le {l : List α} {a : α} (h : ∀ b ∈ l, key b ≤ key a) :
    maxBy key (l ++ [a]) = some a := by
  rw [maxBy_concat]
  cases hbest : maxBy key l with
  | none => rfl
  | some best => simp [h best (maxBy_eq_some key hbest).1]

-- A single largest item is found whatever the order of the list.
theorem maxBy_eq_of_perm {l l' : List α} (hperm : l.Perm l')
    (hclear : ∀ a ∈ l, ∀ b ∈ l, (∀ c ∈ l, key c ≤ key a) → (∀ c ∈ l, key c ≤ key b) → a = b) :
    maxBy key l = maxBy key l' := by
  cases hbest : maxBy key l with
  | none =>
      have hspec := maxBy_spec key l
      rw [hbest] at hspec
      subst hspec
      rw [← hperm.nil_eq]
      rfl
  | some a =>
      obtain ⟨ha, hamax⟩ := maxBy_eq_some key hbest
      cases hbest' : maxBy key l' with
      | none =>
          have hspec := maxBy_spec key l'
          rw [hbest'] at hspec
          subst hspec
          rw [hperm.eq_nil] at ha
          cases ha
      | some b =>
          obtain ⟨hb, hbmax⟩ := maxBy_eq_some key hbest'
          rw [hclear a ha b (hperm.mem_iff.mpr hb) hamax fun c hc => hbmax c (hperm.mem_iff.mp hc)]

end MaxBy

section Rearrange

variable [DecidableEq α]

-- Two rearrangements of a list that bring one of its items to an end.
def toFront (a : α) (l : List α) : List α :=
  if a ∈ l then a :: l.erase a else l

def toBack (a : α) (l : List α) : List α :=
  if a ∈ l then l.erase a ++ [a] else l

theorem toFront_perm (a : α) (l : List α) : (toFront a l).Perm l := by
  unfold toFront
  split
  · rename_i h
    exact (List.perm_cons_erase h).symm
  · exact List.Perm.refl l

theorem toBack_perm (a : α) (l : List α) : (toBack a l).Perm l := by
  unfold toBack
  split
  · rename_i h
    exact (List.perm_append_singleton a _).trans (List.perm_cons_erase h).symm
  · exact List.Perm.refl l

theorem getElem?_sort_toFront {a : α} {l : List α} (ha : a ∈ l) :
    (sort key (toFront a l))[above key l a]? = some a := by
  have habove : above key l a = above key (l.erase a) a := by
    rw [above_perm key (List.perm_cons_erase ha) a]
    simp [above]
  rw [habove, toFront, if_pos ha]
  exact getElem?_sort_cons a _

theorem maxBy_toBack {a : α} {l : List α} (ha : a ∈ l) (hmax : ∀ b ∈ l, key b ≤ key a) :
    maxBy key (toBack a l) = some a := by
  rw [toBack, if_pos ha]
  exact maxBy_concat_of_le key fun b hb => hmax b (List.mem_of_mem_erase hb)

end Rearrange

end Tdb.Library.Ranking
