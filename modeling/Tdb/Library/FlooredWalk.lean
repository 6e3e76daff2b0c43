import Mathlib.Algebra.Order.Group.Int
import Mathlib.Data.List.Count
import Mathlib.Data.List.Induction
import Mathlib.Order.Bounds.Basic
import Mathlib.Order.Interval.Set.Defs

namespace Tdb.Library

-- What one step does to a counter that is kept at zero or above.
inductive Turn where
  | up | down | flat
deriving DecidableEq, Repr

namespace Turn

def apply : Turn → Nat → Nat
  | up, n => n + 1
  | down, n => n - 1
  | flat, n => n

-- The counter after a walk from `start`.
def height (start : Nat) (walk : List Turn) : Nat :=
  walk.foldl (fun n turn => turn.apply n) start

-- How many more turns of a walk go down than up.
def deficit (walk : List Turn) : Int :=
  walk.count down - walk.count up

-- Every way up is followed by its way down, and the other way round.
structure Balanced (walk : List Turn) : Prop where
  stays : ∀ k, deficit (walk.take k) ≤ 0
  returns : deficit walk = 0

@[simp] theorem height_nil (start : Nat) : height start [] = start := rfl

theorem height_append (start : Nat) (left right : List Turn) :
    height start (left ++ right) = height (height start left) right :=
  List.foldl_append

theorem height_concat (start : Nat) (walk : List Turn) (turn : Turn) :
    height start (walk ++ [turn]) = turn.apply (height start walk) :=
  height_append start walk [turn]

@[simp] theorem deficit_nil : deficit [] = 0 := rfl

theorem deficit_append (left right : List Turn) :
    deficit (left ++ right) = deficit left + deficit right := by
  simp only [deficit, List.count_append]
  omega

theorem deficit_singleton (turn : Turn) :
    deficit [turn] = match turn with
      | up => -1
      | down => 1
      | flat => 0 := by
  cases turn <;> rfl

-- The deficits met on the way.
def deficits (walk : List Turn) : Set Int :=
  (fun k => deficit (walk.take k)) '' Set.Iic walk.length

theorem deficits_concat (walk : List Turn) (turn : Turn) :
    deficits (walk ++ [turn]) = insert (deficit (walk ++ [turn])) (deficits walk) := by
  ext d
  simp only [deficits, Set.mem_image, Set.mem_Iic, Set.mem_insert_iff, List.length_append,
    List.length_singleton]
  constructor
  · rintro ⟨k, hk, rfl⟩
    by_cases hlast : k = walk.length + 1
    · subst hlast
      exact Or.inl (by rw [List.take_of_length_le (by simp)])
    · exact Or.inr ⟨k, by omega, by rw [List.take_append_of_le_length (by omega)]⟩
  · rintro (rfl | ⟨k, hk, rfl⟩)
    · exact ⟨walk.length + 1, le_refl _, by rw [List.take_of_length_le (by simp)]⟩
    · exact ⟨k, by omega, by rw [List.take_append_of_le_length hk]⟩

-- The floor lifts the counter by the deepest deficit so far.
theorem height_isGreatest (walk : List Turn) :
    IsGreatest (deficits walk) (height 0 walk + deficit walk) := by
  induction walk using List.reverseRecOn with
  | nil => exact ⟨⟨0, Nat.le_refl 0, rfl⟩, by rintro d ⟨k, _, rfl⟩; simp⟩
  | append_singleton walk turn ih =>
      rw [deficits_concat, height_concat, deficit_append, deficit_singleton]
      obtain ⟨hmem, hmax⟩ := ih
      have hceiling : ∀ top, (height 0 walk : Int) + deficit walk ≤ top →
          top ∈ upperBounds (deficits walk) := fun top htop d hd => (hmax hd).trans htop
      cases turn with
      | up =>
          dsimp only [apply]
          have hsame : ((height 0 walk + 1 : Nat) : Int) + (deficit walk + -1) =
              height 0 walk + deficit walk := by omega
          rw [hsame]
          exact ⟨Or.inr hmem, fun d hd => hd.elim (by omega) fun hd => hmax hd⟩
      | flat =>
          dsimp only [apply]
          rw [add_zero]
          exact ⟨Or.inr hmem, fun d hd => hd.elim (by omega) fun hd => hmax hd⟩
      | down =>
          dsimp only [apply]
          by_cases hzero : height 0 walk = 0
          · rw [hzero] at hceiling ⊢
            refine ⟨Or.inl (by omega), fun d hd => hd.elim (by omega) fun hd => ?_⟩
            exact hceiling _ (by omega) hd
          · have hsame : ((height 0 walk - 1 : Nat) : Int) + (deficit walk + 1) =
                height 0 walk + deficit walk := by omega
            rw [hsame]
            exact ⟨Or.inr hmem, fun d hd => hd.elim (by omega) fun hd => hmax hd⟩

-- A walk that never falls below where it starts does not feel the floor.
theorem height_of_stays {walk : List Turn} (h : ∀ k, deficit (walk.take k) ≤ 0) (start : Nat) :
    (height start walk : Int) = start - deficit walk := by
  induction walk using List.reverseRecOn with
  | nil => simp
  | append_singleton walk turn ih =>
      have hbefore : ∀ k, deficit (walk.take k) ≤ 0 := by
        intro k
        by_cases hk : k ≤ walk.length
        · have htake := h k
          rwa [List.take_append_of_le_length hk] at htake
        · have htake := h walk.length
          rw [List.take_append_of_le_length (Nat.le_refl _), List.take_length] at htake
          rwa [List.take_of_length_le (by omega)]
      have hall := h (walk.length + 1)
      rw [List.take_of_length_le (by simp), deficit_append, deficit_singleton] at hall
      have hheight := ih hbefore
      rw [height_concat, deficit_append, deficit_singleton]
      cases turn with
      | up =>
          simp only [apply]
          omega
      | down =>
          simp only [apply] at hall ⊢
          omega
      | flat =>
          simp only [apply]
          omega

theorem Balanced.height_eq {walk : List Turn} (h : Balanced walk) (start : Nat) :
    height start walk = start := by
  have hheight := height_of_stays h.stays start
  rw [h.returns] at hheight
  omega

end Turn

end Tdb.Library
