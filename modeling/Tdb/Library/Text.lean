import Mathlib.Data.List.Infix
import Mathlib.Data.List.Basic

namespace Tdb.Library.Text

section Infix

variable {α : Type*}

theorem prefix_of_prefix_append_cons {pattern : List α} {separator : α} (hsep : separator ∉ pattern)
    (left right : List α) (h : pattern <+: left ++ separator :: right) : pattern <+: left := by
  induction left generalizing pattern with
  | nil =>
      cases pattern with
      | nil => exact List.prefix_refl []
      | cons p ps =>
          obtain ⟨rfl, _⟩ := List.cons_prefix_cons.mp h
          exact False.elim (hsep (List.mem_cons_self ..))
  | cons a left ih =>
      cases pattern with
      | nil => exact List.nil_prefix
      | cons p ps =>
          obtain ⟨rfl, htail⟩ := List.cons_prefix_cons.mp h
          exact List.cons_prefix_cons.mpr ⟨rfl, ih (List.not_mem_of_not_mem_cons hsep) htail⟩

-- A pattern without the separator lies on one side of it.
theorem infix_append_cons_iff {pattern : List α} {separator : α} (hsep : separator ∉ pattern)
    (left right : List α) :
    pattern <:+: left ++ separator :: right ↔ pattern <:+: left ∨ pattern <:+: right := by
  induction left with
  | nil =>
      rw [List.nil_append, List.infix_cons_iff]
      constructor
      · rintro (h | h)
        · exact Or.inl (prefix_of_prefix_append_cons hsep [] right h).isInfix
        · exact Or.inr h
      · rintro (h | h)
        · exact Or.inr (h.trans (List.nil_infix))
        · exact Or.inr h
  | cons a left ih =>
      rw [List.cons_append, List.infix_cons_iff, List.infix_cons_iff, ih, ← or_assoc]
      constructor
      · rintro ((h | h) | h)
        · exact Or.inl (Or.inl (prefix_of_prefix_append_cons hsep (a :: left) right h))
        · exact Or.inl (Or.inr h)
        · exact Or.inr h
      · rintro ((h | h) | h)
        · exact Or.inl (Or.inl (h.trans (List.prefix_append (a :: left) (separator :: right))))
        · exact Or.inl (Or.inr h)
        · exact Or.inr h

theorem not_infix_of_notMem {pattern text : List α} {c : α} (hc : c ∈ pattern) (ht : c ∉ text) :
    ¬pattern <:+: text :=
  fun h => ht (h.subset hc)

end Infix

-- `str::contains`: UTF-8 makes a match of bytes a match of characters.
def contains (text pattern : String) : Bool :=
  decide (pattern.toList <:+: text.toList)

theorem contains_iff (text pattern : String) :
    contains text pattern = true ↔ pattern.toList <:+: text.toList := by
  simp [contains]

def startsWith (text pattern : String) : Bool :=
  pattern.toList.isPrefixOf text.toList

theorem startsWith_iff (text pattern : String) :
    startsWith text pattern = true ↔ pattern.toList <+: text.toList :=
  List.isPrefixOf_iff_prefix

-- The first character decides between patterns that start differently.
theorem head?_of_startsWith {text pattern : String} {c : Char}
    (hc : pattern.toList.head? = some c) (h : startsWith text pattern = true) :
    text.toList.head? = some c := by
  obtain ⟨rest, hrest⟩ := (startsWith_iff text pattern).mp h
  rw [← hrest]
  cases hp : pattern.toList with
  | nil =>
      rw [hp] at hc
      cases hc
  | cons d ds =>
      rw [hp] at hc
      exact hc

theorem startsWith_char_iff (text : String) (c : Char) :
    startsWith text (String.singleton c) = true ↔ text.toList.head? = some c := by
  rw [startsWith_iff, String.toList_singleton]
  cases text.toList with
  | nil => simp
  | cons d ds => simp [eq_comm]

theorem contains_of_startsWith {text pattern : String} (h : startsWith text pattern = true) :
    contains text pattern = true :=
  (contains_iff text pattern).mpr ((startsWith_iff text pattern).mp h).isInfix

theorem contains_trans {text middle pattern : String} (h : contains text middle = true)
    (hpattern : pattern.toList <:+: middle.toList) : contains text pattern = true :=
  (contains_iff text pattern).mpr (hpattern.trans ((contains_iff text middle).mp h))

section Slices

-- The characters that make up exactly the first `n` bytes, when a character ends there.
def slicePrefix : List Char → Nat → Option (List Char)
  | _, 0 => some []
  | [], _ + 1 => none
  | c :: rest, n + 1 =>
      if c.utf8Size ≤ n + 1 then (slicePrefix rest (n + 1 - c.utf8Size)).map (c :: ·) else none

-- The character that byte `n` belongs to, with the number of bytes in front of it.
def characterAt : List Char → Nat → Option (Char × Nat)
  | [], _ => none
  | c :: rest, n =>
      if n < c.utf8Size then some (c, 0)
      else (characterAt rest (n - c.utf8Size)).map fun (d, before) => (d, before + c.utf8Size)

-- As many characters as `n` bytes have room for.
def fitting : List Char → Nat → List Char
  | [], _ => []
  | c :: rest, n => if c.utf8Size ≤ n then c :: fitting rest (n - c.utf8Size) else []

-- What a cut at byte `n` says that a character straddles. The escapes of characters that do not
-- print are left out.
def midCharacter (text : String) (n : Nat) : String :=
  let shown := String.ofList (fitting text.toList 256)
  let place := (characterAt text.toList n).elim "" fun (c, before) =>
    s!"'{c}' (bytes {before}..{before + c.utf8Size})"
  s!"byte index {n} is not a char boundary; it is inside {place} of `{shown}`" ++
    if shown = text then "" else "[...]"

theorem midCharacter_head? (text : String) (n : Nat) :
    (midCharacter text n).toList.head? = some 'b' := by
  unfold midCharacter
  simp only [toString, String.toList_append]
  rfl

theorem utf8ByteSize_ofList_cons (c : Char) (chars : List Char) :
    (String.ofList (c :: chars)).utf8ByteSize = c.utf8Size + (String.ofList chars).utf8ByteSize := by
  rw [String.ofList_cons, String.utf8ByteSize_append, String.utf8ByteSize_singleton]

theorem slicePrefix_eq_some_iff {chars kept : List Char} {n : Nat} :
    slicePrefix chars n = some kept ↔
      kept <+: chars ∧ (String.ofList kept).utf8ByteSize = n := by
  -- the cases are those of the definition; what is kept has a first character or has none
  induction chars, n using slicePrefix.induct generalizing kept with
  | case1 chars =>
      cases kept with
      | nil => exact iff_of_true (by simp [slicePrefix]) ⟨List.nil_prefix, rfl⟩
      | cons d kept =>
          have hpos := d.utf8Size_pos
          rw [utf8ByteSize_ofList_cons]
          exact iff_of_false (by simp [slicePrefix]) fun h => by omega
  | case2 n =>
      rw [List.prefix_nil]
      refine iff_of_false (by simp [slicePrefix]) ?_
      rintro ⟨rfl, hsize⟩
      cases hsize
  | case3 c rest n hle ih =>
      rw [slicePrefix, if_pos hle, Option.map_eq_some_iff]
      cases kept with
      | nil => exact iff_of_false (by simp) fun h => by cases h.2
      | cons d kept =>
          rw [List.cons_prefix_cons, utf8ByteSize_ofList_cons]
          constructor
          · rintro ⟨tail, htail, heq⟩
            cases heq
            obtain ⟨hbegins, hsize⟩ := ih.mp htail
            exact ⟨⟨rfl, hbegins⟩, by omega⟩
          · rintro ⟨⟨rfl, hbegins⟩, hsize⟩
            exact ⟨kept, ih.mpr ⟨hbegins, by omega⟩, rfl⟩
  | case4 c rest n hlt =>
      rw [slicePrefix, if_neg hlt]
      refine iff_of_false (by simp) ?_
      cases kept with
      | nil => exact fun h => by cases h.2
      | cons d kept =>
          rw [List.cons_prefix_cons, utf8ByteSize_ofList_cons]
          rintro ⟨⟨rfl, _⟩, hsize⟩
          omega

-- A character of the text ends at byte `n`, or the text begins there.
def EndsAt (text : String) (n : Nat) : Prop :=
  ∃ kept rest : String, text = kept ++ rest ∧ kept.utf8ByteSize = n

theorem endsAt_iff {text : String} {n : Nat} :
    EndsAt text n ↔ ∃ kept, slicePrefix text.toList n = some kept := by
  simp only [slicePrefix_eq_some_iff]
  constructor
  · rintro ⟨kept, rest, rfl, hsize⟩
    refine ⟨kept.toList, ?_, by rw [String.ofList_toList]; exact hsize⟩
    rw [String.toList_append]
    exact List.prefix_append _ _
  · rintro ⟨kept, ⟨rest, hrest⟩, hsize⟩
    refine ⟨String.ofList kept, String.ofList rest, ?_, hsize⟩
    rw [← String.ofList_append, hrest, String.ofList_toList]

def IsAscii (text : String) : Prop :=
  ∀ c ∈ text.toList, c.toNat < 0x80

instance (text : String) : Decidable (IsAscii text) :=
  List.decidableBAll (fun c : Char => c.toNat < 0x80) text.toList

theorem IsAscii.append {left right : String} (hleft : IsAscii left) (hright : IsAscii right) :
    IsAscii (left ++ right) := by
  intro c hc
  rw [String.toList_append] at hc
  rcases List.mem_append.mp hc with hc | hc
  · exact hleft c hc
  · exact hright c hc

-- Every byte of such a text is a character of its own.
theorem IsAscii.slicePrefix {chars : List Char} (h : ∀ c ∈ chars, c.toNat < 0x80) {n : Nat}
    (hn : n ≤ (String.ofList chars).utf8ByteSize) :
    Text.slicePrefix chars n = some (chars.take n) := by
  induction chars generalizing n with
  | nil =>
      have hzero : n = 0 := Nat.le_zero.mp hn
      subst hzero
      rfl
  | cons c rest ih =>
      have hsize : c.utf8Size = 1 := by
        have hc := h c (List.mem_cons_self ..)
        rw [Char.utf8Size_eq_one_iff, UInt32.le_iff_toNat_le]
        exact Nat.le_of_lt_succ hc
      cases n with
      | zero => rfl
      | succ n =>
          rw [utf8ByteSize_ofList_cons, hsize] at hn
          unfold Text.slicePrefix
          rw [if_pos (by omega), hsize, Nat.add_sub_cancel,
            ih (fun d hd => h d (List.mem_cons_of_mem c hd)) (by omega)]
          rfl

theorem IsAscii.endsAt {text : String} (h : IsAscii text) {n : Nat} (hn : n ≤ text.utf8ByteSize) :
    EndsAt text n :=
  endsAt_iff.mpr ⟨_, IsAscii.slicePrefix h (by rwa [String.ofList_toList])⟩

-- A text that is shown whole or as a beginning of it with an ellipsis.
def Shortened (text ellipsis shown : String) : Prop :=
  shown = text ∨ ∃ kept rest : String, text = kept ++ rest ∧ shown = kept ++ ellipsis

variable {ε : Type*}

-- Texts of more than `limit` bytes are cut after `cut` of them.
def truncated (limit cut : Nat) (ellipsis : String) (failure : ε) (text : String) :
    Except ε String :=
  if text.utf8ByteSize > limit then
    match slicePrefix text.toList cut with
    | some kept => .ok (String.ofList kept ++ ellipsis)
    | none => .error failure
  else
    .ok text

theorem truncated_shortened {limit cut : Nat} {ellipsis : String} {failure : ε}
    {text shown : String} (h : truncated limit cut ellipsis failure text = .ok shown) :
    Shortened text ellipsis shown := by
  unfold truncated at h
  split at h
  · split at h
    · rename_i kept hkept
      cases h
      obtain ⟨⟨rest, hrest⟩, _⟩ := slicePrefix_eq_some_iff.mp hkept
      refine Or.inr ⟨String.ofList kept, String.ofList rest, ?_, rfl⟩
      rw [← String.ofList_append, hrest, String.ofList_toList]
    · cases h
  · cases h
    exact Or.inl rfl

theorem truncated_eq_error_iff {limit cut : Nat} {ellipsis : String} {failure e : ε}
    {text : String} : truncated limit cut ellipsis failure text = .error e ↔
      failure = e ∧ text.utf8ByteSize > limit ∧ slicePrefix text.toList cut = none := by
  unfold truncated
  by_cases hlong : text.utf8ByteSize > limit
  · rw [if_pos hlong]
    cases slicePrefix text.toList cut <;> simp [hlong]
  · simp [hlong]

theorem truncated_ok_iff (limit cut : Nat) (ellipsis : String) (failure : ε) (text : String) :
    (∃ shown, truncated limit cut ellipsis failure text = .ok shown) ↔
      (text.utf8ByteSize > limit → EndsAt text cut) := by
  unfold truncated
  by_cases hlong : text.utf8ByteSize > limit
  · rw [if_pos hlong, endsAt_iff]
    cases slicePrefix text.toList cut <;> simp [hlong]
  · simp [hlong]

end Slices

section Words

-- The code points with the Unicode property White_Space, as `char::is_whitespace` has them.
def isWhitespace (c : Char) : Bool :=
  let n := c.toNat
  (9 ≤ n && n ≤ 13) || n == 0x20 || n == 0x85 || n == 0xA0 || n == 0x1680 ||
    (0x2000 ≤ n && n ≤ 0x200A) || n == 0x2028 || n == 0x2029 || n == 0x202F || n == 0x205F ||
    n == 0x3000

-- `split_whitespace().next().unwrap_or("")`
def firstWord (text : String) : String :=
  String.ofList ((text.toList.dropWhile isWhitespace).takeWhile fun c => !isWhitespace c)

def IsWord (word : String) : Prop :=
  word ≠ "" ∧ ∀ c ∈ word.toList, isWhitespace c = false

theorem IsWord.firstWord_append {word : String} (h : IsWord word) (rest : String)
    (hrest : ∀ c ∈ rest.toList.head?, isWhitespace c = true) :
    firstWord (word ++ rest) = word := by
  obtain ⟨hne, hword⟩ := h
  have hdrop : (word ++ rest).toList.dropWhile isWhitespace = word.toList ++ rest.toList := by
    rw [String.toList_append]
    cases hw : word.toList with
    | nil => exact False.elim (hne (String.toList_eq_nil_iff.mp hw))
    | cons c cs =>
        have hc := hword c (by simp [hw])
        simp [hc]
  have htake : (word.toList ++ rest.toList).takeWhile (fun c => !isWhitespace c) = word.toList := by
    rw [List.takeWhile_append_of_pos (by simpa using hword)]
    cases hr : rest.toList with
    | nil => simp
    | cons c cs => simp [hrest c (by simp [hr])]
  unfold firstWord
  rw [hdrop, htake, String.ofList_toList]

end Words

end Tdb.Library.Text
