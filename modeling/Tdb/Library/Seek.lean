import Mathlib.Data.List.Sort
import Mathlib.Order.Bounds.Basic

namespace Tdb.Library

section Neighbours

variable {marked : Nat → Bool} {c i : Nat}

-- The first marked place behind `c`, and the last one in front of it.
def IsNext (marked : Nat → Bool) (c i : Nat) : Prop :=
  IsLeast {i | c < i ∧ marked i = true} i

def IsPrev (marked : Nat → Bool) (c i : Nat) : Prop :=
  IsGreatest {i | i < c ∧ marked i = true} i

-- From a marked place the two directions undo each other.
theorem IsNext.isPrev (hc : marked c = true) (h : IsNext marked c i) : IsPrev marked i c := by
  refine ⟨⟨h.1.1, hc⟩, fun j hj => ?_⟩
  by_contra hlt
  have hle := h.2 (show c < j ∧ marked j = true from ⟨by omega, hj.2⟩)
  have hji := hj.1
  omega

theorem IsPrev.isNext (hc : marked c = true) (h : IsPrev marked c i) : IsNext marked i c := by
  refine ⟨⟨h.1.1, hc⟩, fun j hj => ?_⟩
  by_contra hlt
  have hle := h.2 (show j < c ∧ marked j = true from ⟨by omega, hj.2⟩)
  have hij := hj.1
  omega

theorem find?_ahead_iff {len : Nat} (hmarked : ∀ j, marked j = true → j < len) :
    (List.range' (c + 1) (len - (c + 1))).find? marked = some i ↔ IsNext marked c i := by
  rw [List.find?_range'_eq_some, List.mem_range'_1]
  constructor
  · rintro ⟨hi, hrange, hfirst⟩
    refine ⟨⟨by omega, hi⟩, fun j hj => ?_⟩
    by_contra hlt
    have hno := hfirst j hj.1 (by omega)
    rw [hj.2] at hno
    cases hno
  · intro h
    have hlt := hmarked i h.1.2
    have hci := h.1.1
    refine ⟨h.1.2, by omega, fun j hj hji => ?_⟩
    rw [Bool.not_eq_true', ← Bool.not_eq_true]
    intro hmark
    have hle := h.2 (show c < j ∧ marked j = true from ⟨hj, hmark⟩)
    omega

theorem isPrev_succ_iff (hc : marked c = false) :
    IsPrev marked (c + 1) i ↔ IsPrev marked c i := by
  have hsame : {i | i < c + 1 ∧ marked i = true} = {i | i < c ∧ marked i = true} := by
    ext j
    refine and_congr_left fun hj => ?_
    have hne : j ≠ c := by
      rintro rfl
      rw [hc] at hj
      cases hj
    omega
  unfold IsPrev
  rw [hsame]

theorem find?_behind_iff :
    (List.range c).reverse.find? marked = some i ↔ IsPrev marked c i := by
  induction c with
  | zero => simp [IsPrev, IsGreatest]
  | succ c ih =>
      rw [List.range_succ, List.reverse_append, List.reverse_singleton, List.singleton_append,
        List.find?_cons]
      cases hc : marked c with
      | true =>
          rw [Option.some.injEq]
          constructor
          · rintro rfl
            exact ⟨⟨by omega, hc⟩, fun j hj => Nat.le_of_lt_succ hj.1⟩
          · intro h
            have hle := h.2 (show c < c + 1 ∧ marked c = true from ⟨by omega, hc⟩)
            have hlt := h.1.1
            omega
      | false =>
          rw [isPrev_succ_iff hc]
          exact ih

end Neighbours

section Seeks

variable {σ : Type*} {dest : Nat → Nat → Prop} {place : σ → Nat} {go : σ → σ → Prop} {s : σ}

-- A search answers always: it goes where it should, and nothing happens where there is nothing.
structure Seeks (dest : Nat → Nat → Prop) (place : σ → Nat) (go : σ → σ → Prop) (s : σ) :
    Prop where
  answers : ∃ s', go s s'
  found : ∀ s', go s s' → ∀ i, dest (place s) i → place s' = i
  missed : ∀ s', go s s' → (∀ i, ¬dest (place s) i) → s' = s

theorem Seeks.of_found {found : Option Nat} (hdest : ∀ i, found = some i ↔ dest (place s) i)
    (hanswers : ∃ s', go s s') (hfound : ∀ i, found = some i → ∀ s', go s s' → place s' = i)
    (hmissed : found = none → ∀ s', go s s' → s' = s) : Seeks dest place go s where
  answers := hanswers
  found s' hgo i hi := hfound i ((hdest i).mpr hi) s' hgo
  missed s' hgo hnone := by
    refine hmissed ?_ s' hgo
    rw [Option.eq_none_iff_forall_ne_some]
    exact fun i hi => hnone i ((hdest i).mp hi)

-- A search that moves has found something.
theorem Seeks.dest_of_moved (h : Seeks dest place go s) {s' : σ} (hgo : go s s')
    (hmoved : place s' ≠ place s) : dest (place s) (place s') := by
  by_contra hnone
  by_cases hdest : ∃ i, dest (place s) i
  · obtain ⟨i, hi⟩ := hdest
    rw [h.found s' hgo i hi] at hnone
    exact hnone hi
  · rw [h.missed s' hgo fun i hi => hdest ⟨i, hi⟩] at hmoved
    exact hmoved rfl

-- Two searches for the same from the same place end in the same place.
theorem Seeks.agree {τ : Type*} {place' : τ → Nat} {go' : τ → τ → Prop} {t : τ}
    (h : Seeks dest place go s) (h' : Seeks dest place' go' t) (hsame : place s = place' t)
    {s' : σ} {t' : τ} (hgo : go s s') (hgo' : go' t t') : place s' = place' t' := by
  by_cases hdest : ∃ i, dest (place s) i
  · obtain ⟨i, hi⟩ := hdest
    rw [h.found s' hgo i hi, h'.found t' hgo' i (hsame ▸ hi)]
  · have hnone : ∀ i, ¬dest (place s) i := fun i hi => hdest ⟨i, hi⟩
    rw [h.missed s' hgo hnone, h'.missed t' hgo' (hsame ▸ hnone)]
    exact hsame

-- The places that lie one after the other from `c` on.
def Stops (dest : Nat → Nat → Prop) : Nat → List Nat → Prop
  | c, [] => ∀ i, ¬dest c i
  | c, i :: rest => dest c i ∧ Stops dest i rest

-- Searching again and again makes every stop once, in their order, and then stays.
theorem stops_visited {Inv : σ → Prop} (hseeks : ∀ s, Inv s → Seeks dest place go s)
    (hgo : ∀ s s', Inv s → go s s' → Inv s') {path : List σ} (hs : Inv s)
    (hpath : List.IsChain go (s :: path)) {stops : List Nat} (hstops : Stops dest (place s) stops)
    {k : Nat} {s' : σ} (hk : (s :: path)[k]? = some s') :
    (place s :: stops)[min k stops.length]? = some (place s') := by
  induction path generalizing s stops k with
  | nil =>
      cases k with
      | zero =>
          cases hk
          simp
      | succ k => cases hk
  | cons t path ih =>
      obtain ⟨hst, hrest⟩ := List.isChain_cons_cons.mp hpath
      cases k with
      | zero =>
          cases hk
          simp
      | succ k =>
          have ht := hgo s t hs hst
          cases stops with
          | nil =>
              have hsame := (hseeks s hs).missed t hst hstops
              subst hsame
              have hlater := ih hs hrest hstops hk
              simpa using hlater
          | cons i stops =>
              have hplace := (hseeks s hs).found t hst i hstops.1
              have hlater := ih ht hrest (hplace.symm ▸ hstops.2) hk
              rw [hplace] at hlater
              rw [List.length_cons, Nat.succ_min_succ, List.getElem?_cons_succ]
              exact hlater

variable {marked : Nat → Bool}

-- The marked places beyond `c` in the order of `r` are its stops.
theorem stops_of_sorted (r : Nat → Nat → Prop) [IsTrans Nat r] [Std.Irrefl r]
    (hdest : ∀ c i, dest c i ↔ (r c i ∧ marked i = true) ∧
      ∀ j, r c j → marked j = true → j = i ∨ r i j)
    {stops : List Nat} {c : Nat} (hsorted : stops.Pairwise r)
    (hmem : ∀ i, i ∈ stops ↔ r c i ∧ marked i = true) : Stops dest c stops := by
  induction stops generalizing c with
  | nil =>
      intro i hi
      exact List.not_mem_nil ((hmem i).mpr ((hdest c i).mp hi).1)
  | cons t rest ih =>
      rw [List.pairwise_cons] at hsorted
      have ht := (hmem t).mp (List.mem_cons_self ..)
      refine ⟨(hdest c t).mpr ⟨ht, fun j hcj hj => ?_⟩, ih hsorted.2 fun i => ?_⟩
      · rcases List.mem_cons.mp ((hmem j).mpr ⟨hcj, hj⟩) with rfl | hrest
        · exact Or.inl rfl
        · exact Or.inr (hsorted.1 j hrest)
      · constructor
        · intro hi
          exact ⟨hsorted.1 i hi, ((hmem i).mp (List.mem_cons_of_mem t hi)).2⟩
        · intro hi
          rcases List.mem_cons.mp ((hmem i).mpr ⟨IsTrans.trans _ _ _ ht.1 hi.1, hi.2⟩) with rfl | hrest
          · exact absurd hi.1 (irrefl i)
          · exact hrest

theorem stops_next {stops : List Nat} {c : Nat} (hsorted : stops.Pairwise (· < ·))
    (hmem : ∀ i, i ∈ stops ↔ c < i ∧ marked i = true) : Stops (IsNext marked) c stops := by
  refine stops_of_sorted (· < ·) (fun c i => and_congr_right fun _ => ?_) hsorted hmem
  constructor
  · intro h j hcj hj
    exact (h ⟨hcj, hj⟩).eq_or_lt.imp_left Eq.symm
  · intro h j hj
    rcases h j hj.1 hj.2 with rfl | hij
    · exact le_rfl
    · exact hij.le

theorem stops_prev {stops : List Nat} {c : Nat} (hsorted : stops.Pairwise (· > ·))
    (hmem : ∀ i, i ∈ stops ↔ i < c ∧ marked i = true) : Stops (IsPrev marked) c stops := by
  refine stops_of_sorted (· > ·) (fun c i => and_congr_right fun _ => ?_) hsorted hmem
  constructor
  · intro h j hcj hj
    exact (h ⟨hcj, hj⟩).eq_or_lt
  · intro h j hj
    rcases h j hj.1 hj.2 with rfl | hij
    · exact le_rfl
    · exact hij.le

end Seeks

end Tdb.Library
