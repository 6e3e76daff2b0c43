import Mathlib.Logic.Function.Basic
import Mathlib.Data.List.Infix
import Tdb.Library.LastWrite
import Tdb.Library.Run

namespace Tdb.Library

variable {κ β : Type*}

-- The files of a disk, by their names.
abbrev Disk (κ β : Type*) := κ → Option (List β)

-- How the write of a whole file ends: it is done, it fails before the file is touched, or the
-- file has been emptied and takes some of the new content, never its end.
inductive WriteOutcome where
  | done
  | refused (message : String)
  | cut (kept : Nat) (message : String)
deriving DecidableEq, Repr

namespace WriteOutcome

def result : WriteOutcome → Except String Unit
  | .done => .ok ()
  | .refused message | .cut _ message => .error message

-- What stands in the file afterwards, if it is touched.
def leaves (content : List β) : WriteOutcome → Option (List β)
  | .done => some content
  | .refused _ => none
  | .cut kept _ => some (content.dropLast.take kept)

end WriteOutcome

-- One attempt to write a file.
structure Saving (κ β : Type*) where
  name : κ
  content : List β
  outcome : WriteOutcome

namespace Saving

-- The file that an attempt touches, with what then stands in it.
def touched (saving : Saving κ β) : Option (κ × List β) :=
  (saving.outcome.leaves saving.content).map fun content => (saving.name, content)

theorem touched_eq_some_iff {saving : Saving κ β} {name : κ} {content : List β} :
    saving.touched = some (name, content) ↔
      saving.name = name ∧ saving.outcome.leaves saving.content = some content := by
  unfold touched
  cases saving.outcome.leaves saving.content <;> simp [and_comm]

-- The `j`-th moment is the last one before moment `k` at which the file is touched.
structure LastTouch (history : Nat → Option (Saving κ β)) (name : κ) (k j : Nat)
    (saving : Saving κ β) : Prop where
  before : j < k
  saved : history j = some saving
  names : saving.name = name
  touches : saving.touched ≠ none
  quiet : ∀ i, j < i → i < k → ∀ later, history i = some later → later.name = name →
    later.touched = none

variable {history : Nat → Option (Saving κ β)} {name : κ} {k : Nat}

theorem lastWrite_iff (j : Nat) (content : List β) :
    LastWrite (fun i => (history i).bind touched) name k j content ↔
      ∃ saving, LastTouch history name k j saving ∧
        saving.outcome.leaves saving.content = some content := by
  constructor
  · intro h
    obtain ⟨saving, hsaving, htouched⟩ := Option.bind_eq_some_iff.mp h.wrote
    obtain ⟨hname, hleaves⟩ := touched_eq_some_iff.mp htouched
    refine ⟨saving, ⟨h.before, hsaving, hname, by simp [htouched], ?_⟩, hleaves⟩
    intro i hji hik later hlater hnamed
    refine Option.eq_none_iff_forall_ne_some.mpr fun write hwrite => ?_
    obtain ⟨written, other⟩ := write
    obtain ⟨rfl, _⟩ := touched_eq_some_iff.mp hwrite
    exact h.quiet i hji hik other (by simp [hlater, hwrite, hnamed])
  · rintro ⟨saving, h, hleaves⟩
    have htouched : saving.touched = some (name, content) :=
      touched_eq_some_iff.mpr ⟨h.names, hleaves⟩
    refine ⟨h.before, by simp [h.saved, htouched], fun i hji hik other hwrite => ?_⟩
    obtain ⟨later, hlater, hlatertouched⟩ := Option.bind_eq_some_iff.mp hwrite
    obtain ⟨hnamed, _⟩ := touched_eq_some_iff.mp hlatertouched
    have hnone := h.quiet i hji hik later hlater hnamed
    rw [hnone] at hlatertouched
    cases hlatertouched

section History

variable [DecidableEq κ]

def save (disk : Disk κ β) (saving : Saving κ β) : Disk κ β :=
  match saving.touched with
  | none => disk
  | some (name, content) => Function.update disk name (some content)

-- The disk after a history of attempts, none at all where a moment has none.
def diskAt (history : Nat → Option (Saving κ β)) : Nat → Disk κ β
  | 0 => fun _ => none
  | k + 1 =>
      match history k with
      | none => diskAt history k
      | some saving => save (diskAt history k) saving

theorem diskAt_eq_some_iff (content : List β) :
    diskAt history k name = some content ↔
      ∃ j, LastWrite (fun i => (history i).bind touched) name k j content := by
  refine lookup_eq_some_iff_lastWrite (fun k => diskAt history k) (fun _ => rfl) ?_ k name content
  intro k key
  cases hsaving : history k with
  | none => simp [diskAt, hsaving]
  | some saving =>
      cases htouched : saving.touched with
      | none => simp [diskAt, hsaving, save, htouched]
      | some write =>
          obtain ⟨written, content⟩ := write
          simp only [diskAt, hsaving, save, htouched, Option.bind_some, Function.update_apply]
          by_cases hkey : written = key
          · rw [if_pos hkey, if_pos hkey.symm]
          · rw [if_neg hkey, if_neg (fun h => hkey h.symm)]

end History

end Saving

-- Values with a text of their own that no shorter text can be taken for.
structure CutProof (α γ β : Type*) where
  encode : α → List β
  decode : List β → Option γ
  view : α → γ
  Valid : α → Prop
  decode_encode : ∀ a, Valid a → decode (encode a) = some (view a)
  decode_cut : ∀ a, Valid a → ∀ cut, cut <+: encode a → cut ≠ encode a → decode cut = none
  encode_ne_nil : ∀ a, encode a ≠ []

namespace CutProof

variable {α γ : Type*} {format : CutProof α γ β}

-- A file that is cut short is not read at all.
theorem decode_leaves_eq_some_iff {a : α} (hvalid : format.Valid a) {outcome : WriteOutcome}
    (content : List β) (hleaves : outcome.leaves (format.encode a) = some content) (c : γ) :
    format.decode content = some c ↔ outcome = .done ∧ c = format.view a := by
  cases outcome with
  | done =>
      cases hleaves
      rw [format.decode_encode _ hvalid]
      simp [eq_comm]
  | refused message => cases hleaves
  | cut kept message =>
      cases hleaves
      have hne : ((format.encode a).dropLast.take kept) ≠ format.encode a := by
        intro heq
        have hpos := List.length_pos_iff.mpr (format.encode_ne_nil a)
        have hlength := congrArg List.length heq
        rw [List.length_take, List.length_dropLast] at hlength
        omega
      have hcut := (List.take_prefix kept _).trans (List.dropLast_prefix (format.encode a))
      rw [format.decode_cut _ hvalid _ hcut hne]
      simp

theorem view_eq_of_encode_eq {a b : α} (ha : format.Valid a) (hb : format.Valid b)
    (hsame : format.encode a = format.encode b) : format.view a = format.view b := by
  have hread := format.decode_encode a ha
  rw [hsame, format.decode_encode b hb] at hread
  exact (Option.some.inj hread).symm

-- Whatever became of earlier attempts, what can be read is what the last attempt to touch the
-- file was to save, and it can be read exactly if that attempt was done.
theorem read_eq_some_iff [DecidableEq κ] {history : Nat → Option (Saving κ β)} {name : κ} {k : Nat}
    (hvalid : ∀ i saving, history i = some saving →
      ∃ a, format.Valid a ∧ saving.content = format.encode a) (c : γ) :
    (Saving.diskAt history k name).bind format.decode = some c ↔
      ∃ j saving, Saving.LastTouch history name k j saving ∧ saving.outcome = .done ∧
        ∃ a, format.Valid a ∧ saving.content = format.encode a ∧ c = format.view a := by
  rw [Option.bind_eq_some_iff]
  simp only [Saving.diskAt_eq_some_iff, Saving.lastWrite_iff]
  constructor
  · rintro ⟨content, ⟨j, saving, htouch, hleaves⟩, hdecode⟩
    obtain ⟨a, hfits, hcontent⟩ := hvalid j saving htouch.saved
    rw [hcontent] at hleaves
    obtain ⟨hdone, hc⟩ := (decode_leaves_eq_some_iff hfits content hleaves c).mp hdecode
    exact ⟨j, saving, htouch, hdone, a, hfits, hcontent, hc⟩
  · rintro ⟨j, saving, htouch, hdone, a, hfits, hcontent, hc⟩
    have hleaves : saving.outcome.leaves (format.encode a) = some (format.encode a) := by
      rw [hdone]
      rfl
    exact ⟨_, ⟨j, saving, htouch, by rwa [hcontent]⟩,
      (decode_leaves_eq_some_iff hfits _ hleaves c).mpr ⟨hdone, hc⟩⟩

end CutProof

end Tdb.Library
