import Mathlib.Data.List.Basic

namespace Tdb.Library.Mailbox

variable {α : Type*}

-- The moves of a slot for one item. Taking what it holds empties it, whether the
-- receiver then gets the item or not.
inductive Move (α : Type*) where
  | put (item : α)
  | hand (item : Option α)
  | lose (item : Option α)

-- A put into a full slot and a handover of something else than its content are no moves.
def next [DecidableEq α] (slot : Option α) : Move α → Option (Option α)
  | .put item => if slot = none then some (some item) else none
  | .hand item => if item = slot then some none else none
  | .lose item => if item = slot then some none else none

def posted : List (Move α) → List α
  | [] => []
  | .put item :: rest => item :: posted rest
  | _ :: rest => posted rest

def received : List (Move α) → List α
  | [] => []
  | .hand item :: rest => item.toList ++ received rest
  | _ :: rest => received rest

def lost : List (Move α) → List α
  | [] => []
  | .lose item :: rest => item.toList ++ lost rest
  | _ :: rest => lost rest

@[simp] theorem lost_append (left right : List (Move α)) :
    lost (left ++ right) = lost left ++ lost right := by
  induction left with
  | nil => rfl
  | cons move rest ih => cases move <;> simp [lost, ih]

section Run

variable [DecidableEq α] {slot final : Option α} {moves : List (Move α)}

-- What one move does, as equations between the slot before and after it.
theorem next_eq_some_iff (slot final : Option α) (move : Move α) :
    next slot move = some final ↔
      match move with
      | .put item => slot = none ∧ final = some item
      | .hand item => item = slot ∧ final = none
      | .lose item => item = slot ∧ final = none := by
  cases move <;> simp [next, eq_comm]

theorem run_cons_iff (move : Move α) :
    (move :: moves).foldlM next slot = some final ↔
      ∃ middle, next slot move = some middle ∧ moves.foldlM next middle = some final := by
  simp [List.foldlM_cons, Option.bind_eq_some_iff]

-- Every item that was posted is received, lost or still there.
theorem balance (h : moves.foldlM next slot = some final) :
    (received moves).length + (lost moves).length + final.toList.length =
      slot.toList.length + (posted moves).length := by
  induction moves generalizing slot with
  | nil =>
      obtain rfl : slot = final := by simpa using h
      simp [received, lost, posted]
  | cons move rest ih =>
      obtain ⟨middle, hmove, hrest⟩ := (run_cons_iff move).mp h
      have hlater := ih hrest
      rw [next_eq_some_iff] at hmove
      cases move with
      | put item =>
          obtain ⟨rfl, rfl⟩ := hmove
          simp only [received, lost, posted, List.length_cons, Option.toList_none,
            Option.toList_some, List.length_nil] at hlater ⊢
          omega
      | hand item =>
          obtain ⟨rfl, rfl⟩ := hmove
          simp only [received, lost, posted, List.length_append, Option.toList_none,
            List.length_nil] at hlater ⊢
          omega
      | lose item =>
          obtain ⟨rfl, rfl⟩ := hmove
          simp only [received, lost, posted, List.length_append, Option.toList_none,
            List.length_nil] at hlater ⊢
          omega

theorem received_of_lost_nil (h : moves.foldlM next slot = some final) (hlost : lost moves = []) :
    received moves ++ final.toList = slot.toList ++ posted moves := by
  induction moves generalizing slot with
  | nil =>
      obtain rfl : slot = final := by simpa using h
      simp [received, posted]
  | cons move rest ih =>
      obtain ⟨middle, hmove, hrest⟩ := (run_cons_iff move).mp h
      rw [next_eq_some_iff] at hmove
      cases move with
      | put item =>
          obtain ⟨rfl, rfl⟩ := hmove
          simpa [received, posted] using ih hrest hlost
      | hand item =>
          obtain ⟨rfl, rfl⟩ := hmove
          have hlater := ih hrest hlost
          simpa [received, posted] using hlater
      | lose item =>
          obtain ⟨rfl, rfl⟩ := hmove
          obtain ⟨hnone, hlost⟩ := List.append_eq_nil_iff.mp hlost
          have hlater := ih hrest hlost
          simpa [received, posted, hnone] using hlater

-- The items that arrive are the items that were posted, in their order, when none is lost.
theorem received_eq_posted_iff (h : moves.foldlM next slot = some final) :
    received moves ++ final.toList = slot.toList ++ posted moves ↔ lost moves = [] := by
  constructor
  · intro heq
    have hlen := congrArg List.length heq
    have hbalance := balance h
    simp only [List.length_append] at hlen
    exact List.eq_nil_of_length_eq_zero (by omega)
  · exact received_of_lost_nil h

-- An item in the slot goes to the next receiver.
theorem hand_of_full {item : α} {between after : List (Move α)} {handed : Option α}
    (h : (between ++ .hand handed :: after).foldlM next (some item) = some final)
    (hlost : lost between = []) (hquiet : ∀ given, Move.hand given ∉ between) :
    handed = some item := by
  cases between with
  | nil =>
      obtain ⟨middle, hmove, _⟩ := (run_cons_iff _).mp h
      exact ((next_eq_some_iff _ _ _).mp hmove).1
  | cons move rest =>
      obtain ⟨middle, hmove, _⟩ := (run_cons_iff move).mp h
      rw [next_eq_some_iff] at hmove
      cases move with
      | put other => simp at hmove
      | hand given => exact False.elim (hquiet given (List.mem_cons_self ..))
      | lose given =>
          obtain ⟨rfl, _⟩ := hmove
          simp [lost] at hlost

theorem hand_of_put {item : α} {before between after : List (Move α)} {handed : Option α}
    (h : (before ++ .put item :: between ++ .hand handed :: after).foldlM next slot = some final)
    (hlost : lost between = []) (hquiet : ∀ given, Move.hand given ∉ between) :
    handed = some item := by
  rw [List.append_assoc, List.foldlM_append, List.cons_append] at h
  obtain ⟨middle, _, hrest⟩ := Option.bind_eq_some_iff.mp h
  obtain ⟨filled, hmove, hrest⟩ := (run_cons_iff _).mp hrest
  obtain ⟨_, rfl⟩ := (next_eq_some_iff _ _ _).mp hmove
  exact hand_of_full hrest hlost hquiet

end Run

end Tdb.Library.Mailbox
