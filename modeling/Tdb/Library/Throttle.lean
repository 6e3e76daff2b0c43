import Mathlib.Data.List.Induction
import Tdb.Library.Run

namespace Tdb.Library

variable {α : Type*}

-- What is let through of a stream: some items always, others as long as the last item that was
-- let through lies far enough behind.
structure Throttle (α : Type*) where
  always : α → Prop
  wanted : α → Prop
  place : α → Nat
  gap : Nat

namespace Throttle

-- The items that are through, and the place of the last one.
structure Passed (α : Type*) where
  items : List α := []
  last : Nat := 0

variable (t : Throttle α)

section Stream

variable [DecidablePred t.always] [DecidablePred t.wanted]

def offer (p : Passed α) (x : α) : Passed α :=
  if t.always x ∨ (t.place x - p.last > t.gap ∧ t.wanted x) then
    { items := p.items ++ [x], last := t.place x }
  else
    p

def passed (stream : List α) : Passed α := run t.offer {} stream

end Stream

-- Between an item and those before it there is a gap.
def Clear (items : List α) (x : α) : Prop :=
  t.gap < t.place x ∧ ∀ y ∈ items, t.place y < t.place x → t.place y + t.gap < t.place x

-- What is through of a stream is determined by the gaps alone.
structure Law (stream items : List α) : Prop where
  sublist : items.Sublist stream
  mem_iff : ∀ x ∈ stream, x ∈ items ↔ t.always x ∨ (t.wanted x ∧ t.Clear items x)

variable {t} {stream items : List α}

-- No wanted item is far behind the next one that is through.
theorem Law.near (h : t.Law stream items) {x : α} (hx : x ∈ stream) (hwanted : t.wanted x) :
    t.place x ≤ t.gap ∨ ∃ y ∈ items, t.place y ≤ t.place x ∧ t.place x ≤ t.place y + t.gap := by
  by_cases hpassed : x ∈ items
  · exact Or.inr ⟨x, hpassed, Nat.le_refl _, Nat.le_add_right _ _⟩
  · have hblocked : ¬t.Clear items x := fun hclear =>
      hpassed ((h.mem_iff x hx).mpr (Or.inr ⟨hwanted, hclear⟩))
    unfold Clear at hblocked
    by_contra hfar
    rw [not_or] at hfar
    refine hblocked ⟨by omega, fun y hy hlt => ?_⟩
    by_contra hclose
    exact hfar.2 ⟨y, hy, by omega, by omega⟩

section Stream

variable [DecidablePred t.always] [DecidablePred t.wanted]

theorem passed_concat (stream : List α) (x : α) :
    t.passed (stream ++ [x]) = t.offer (t.passed stream) x := by
  unfold passed
  rw [run_append]
  rfl

theorem last_cases (stream : List α) :
    (t.passed stream).last = 0 ∨ ∃ y ∈ (t.passed stream).items, t.place y = (t.passed stream).last := by
  induction stream using List.reverseRecOn with
  | nil => exact Or.inl rfl
  | append_singleton stream x ih =>
      rw [passed_concat]
      unfold offer
      split
      · exact Or.inr ⟨x, by simp, rfl⟩
      · exact ih

theorem place_le_last (hascends : stream.Pairwise fun x y => t.place x < t.place y) :
    (∀ y ∈ (t.passed stream).items, y ∈ stream) ∧
      ∀ y ∈ (t.passed stream).items, t.place y ≤ (t.passed stream).last := by
  induction stream using List.reverseRecOn with
  | nil => exact ⟨fun y hy => absurd hy List.not_mem_nil, fun y hy => absurd hy List.not_mem_nil⟩
  | append_singleton stream x ih =>
      rw [List.pairwise_append] at hascends
      obtain ⟨hmem, hle⟩ := ih hascends.1
      rw [passed_concat]
      unfold offer
      split
      · refine ⟨fun y hy => ?_, fun y hy => ?_⟩
        · rcases List.mem_append.mp hy with hy | hy
          · exact List.mem_append_left _ (hmem y hy)
          · exact List.mem_append_right _ hy
        · rcases List.mem_append.mp hy with hy | hy
          · exact Nat.le_of_lt (hascends.2.2 y (hmem y hy) x (List.mem_singleton_self x))
          · exact Nat.le_of_eq (congrArg t.place (List.mem_singleton.mp hy))
      · exact ⟨fun y hy => List.mem_append_left _ (hmem y hy), hle⟩

-- With the items in order, it is the last one alone that has to lie behind.
theorem clear_iff (hascends : stream.Pairwise fun x y => t.place x < t.place y) {x : α}
    (hlater : ∀ y ∈ stream, t.place y < t.place x) :
    t.Clear (t.passed stream).items x ↔ t.place x - (t.passed stream).last > t.gap := by
  obtain ⟨hmem, hle⟩ := place_le_last (t := t) hascends
  unfold Clear
  constructor
  · rintro ⟨hgap, hclear⟩
    rcases last_cases (t := t) stream with hzero | ⟨y, hy, hlast⟩
    · omega
    · have hbehind := hclear y hy (hlater y (hmem y hy))
      omega
  · intro hgap
    refine ⟨by omega, fun y hy _ => ?_⟩
    have hylast := hle y hy
    omega

theorem passed_law (hascends : stream.Pairwise fun x y => t.place x < t.place y) :
    t.Law stream (t.passed stream).items := by
  induction stream using List.reverseRecOn with
  | nil => exact ⟨List.Sublist.refl [], fun x hx => absurd hx List.not_mem_nil⟩
  | append_singleton stream x ih =>
      rw [List.pairwise_append] at hascends
      have hlater : ∀ y ∈ stream, t.place y < t.place x :=
        fun y hy => hascends.2.2 y hy x (List.mem_singleton_self x)
      obtain ⟨hsublist, hmem⟩ := ih hascends.1
      have hclear := clear_iff hascends.1 hlater
      have hnew : x ∉ (t.passed stream).items := fun hx =>
        Nat.lt_irrefl _ (hlater x (hsublist.subset hx))
      -- what comes later is in nobody's way
      have hold : ∀ y ∈ stream, t.Clear ((t.passed stream).items ++ [x]) y ↔
          t.Clear (t.passed stream).items y := by
        intro y hy
        have hxy := hlater y hy
        unfold Clear
        simp only [List.mem_append, List.mem_singleton, or_imp, forall_and, forall_eq]
        refine and_congr_right fun _ => and_iff_left fun hbefore => ?_
        omega
      have hself : t.Clear ((t.passed stream).items ++ [x]) x ↔
          t.Clear (t.passed stream).items x := by
        unfold Clear
        simp only [List.mem_append, List.mem_singleton, or_imp, forall_and, forall_eq]
        exact and_congr_right fun _ => and_iff_left fun hbefore => absurd hbefore (Nat.lt_irrefl _)
      rw [passed_concat]
      unfold offer
      split
      · rename_i hoffer
        refine ⟨hsublist.append (List.Sublist.refl [x]), fun y hy => ?_⟩
        rcases List.mem_append.mp hy with hy | hy
        · have hne : y ≠ x := fun heq => Nat.ne_of_lt (hlater y hy) (congrArg t.place heq)
          rw [List.mem_append, List.mem_singleton, or_iff_left hne, hmem y hy, hold y hy]
        · rw [List.mem_singleton.mp hy, hself, hclear, and_comm]
          exact iff_of_true (by simp) hoffer
      · rename_i hoffer
        refine ⟨hsublist.trans (List.sublist_append_left stream [x]), fun y hy => ?_⟩
        rcases List.mem_append.mp hy with hy | hy
        · exact hmem y hy
        · rw [List.mem_singleton.mp hy, hclear, and_comm]
          exact iff_of_false hnew hoffer

end Stream

end Throttle

end Tdb.Library
