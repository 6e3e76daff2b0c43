import Mathlib.Data.List.DropRight
import Mathlib.Data.List.Forall2
import Tdb.Library.Json

namespace Tdb.Library.Json

-- The texts that a value has, whoever has written them.
section Grammar

def Spaces (chars : List Char) : Prop :=
  ∀ c ∈ chars, isSpace c = true

-- What stands between the quotes of a string.
inductive CharsText : List Char → List Char → Prop where
  | nil : CharsText [] []
  | plain {c : Char} {chars text : List Char} :
      c ≠ '"' ∧ c ≠ '\\' ∧ 0x20 ≤ c.toNat → CharsText chars text →
        CharsText (c :: chars) (c :: text)
  | escape {e c : Char} {chars text : List Char} :
      escapedChar e = some c → CharsText chars text → CharsText (c :: chars) ('\\' :: e :: text)
  | code {h i j k : Char} {bits : Nat} {chars text : List Char} :
      hexBits h i j k = some bits → isHigh bits = false → isLow bits = false →
        CharsText chars text →
          CharsText (Char.ofNat bits :: chars) ('\\' :: 'u' :: h :: i :: j :: k :: text)
  | pair {h i j k h' i' j' k' : Char} {high low : Nat} {chars text : List Char} :
      hexBits h i j k = some high → isHigh high = true → hexBits h' i' j' k' = some low →
        isLow low = true → CharsText chars text →
          CharsText (Char.ofNat (0x10000 + (high - 0xD800) * 0x400 + (low - 0xDC00)) :: chars)
            ('\\' :: 'u' :: h :: i :: j :: k :: '\\' :: 'u' :: h' :: i' :: j' :: k' :: text)

def StringText (s : String) (text : List Char) : Prop :=
  ∃ body, CharsText s.toList body ∧ text = '"' :: (body ++ ['"'])

-- Items with commas between them, or nothing but spaces.
def Listed (texts : List (List Char)) (inner : List Char) : Prop :=
  texts = [] ∧ Spaces inner ∨ texts ≠ [] ∧ inner = [','].intercalate texts

-- With nothing but spaces in front and behind.
def Around (core text : List Char) : Prop :=
  ∃ before after, Spaces before ∧ Spaces after ∧ text = before ++ core ++ after

def Padded (P : List Char → Prop) (text : List Char) : Prop :=
  ∃ core, P core ∧ Around core text

-- The text of a member whose value has this text.
def MemberText (key : String) (value text : List Char) : Prop :=
  ∃ quoted, Padded (StringText key) quoted ∧ text = quoted ++ ':' :: value

variable {ν : Type} (number : ν → List Char → Prop)

mutual

-- What the texts of a number are, is left to `number`.
def Denotes : Json ν → List Char → Prop
  | .null, text => text = "null".toList
  | .bool true, text => text = "true".toList
  | .bool false, text => text = "false".toList
  | .num n, text => number n text
  | .str s, text => StringText s text
  | .arr items, text =>
      ∃ texts inner, DenotesItems items texts ∧ Listed texts inner ∧ text = '[' :: (inner ++ [']'])
  | .obj fields, text =>
      ∃ texts inner, DenotesFields fields texts ∧ Listed texts inner ∧
        text = '\x7b' :: (inner ++ ['\x7d'])

def DenotesItems : List (Json ν) → List (List Char) → Prop
  | [], texts => texts = []
  | v :: vs, texts => ∃ text rest, Padded (Denotes v) text ∧ DenotesItems vs rest ∧
      texts = text :: rest

def DenotesFields : List (String × Json ν) → List (List Char) → Prop
  | [], texts => texts = []
  | (key, v) :: fields, texts => ∃ value text rest, Padded (Denotes v) value ∧
      MemberText key value text ∧ DenotesFields fields rest ∧ texts = text :: rest

end

def DenotesField (m : String × Json ν) (text : List Char) : Prop :=
  ∃ value, Padded (Denotes number m.2) value ∧ MemberText m.1 value text

theorem denotesItems_iff (items : List (Json ν)) (texts : List (List Char)) :
    DenotesItems number items texts ↔
      List.Forall₂ (fun v => Padded (Denotes number v)) items texts := by
  induction items generalizing texts with
  | nil => simp [DenotesItems, List.forall₂_nil_left_iff]
  | cons v vs ih =>
      simp only [DenotesItems, ih, List.forall₂_cons_left_iff]

theorem denotesFields_iff (fields : List (String × Json ν)) (texts : List (List Char)) :
    DenotesFields number fields texts ↔
      List.Forall₂ (DenotesField number) fields texts := by
  induction fields generalizing texts with
  | nil => simp [DenotesFields, List.forall₂_nil_left_iff]
  | cons m ms ih =>
      simp only [DenotesFields, ih, List.forall₂_cons_left_iff]
      constructor
      · rintro ⟨value, text, rest, hvalue, htext, hrest, rfl⟩
        exact ⟨text, rest, ⟨value, hvalue, htext⟩, hrest, rfl⟩
      · rintro ⟨text, rest, ⟨value, hvalue, htext⟩, hrest, rfl⟩
        exact ⟨value, text, rest, hvalue, htext, hrest, rfl⟩

theorem MemberText.length_le {key : String} {value text : List Char}
    (h : MemberText key value text) : value.length ≤ text.length := by
  obtain ⟨quoted, _, rfl⟩ := h
  simp only [List.length_append, List.length_cons]
  omega

theorem Spaces.nil : Spaces [] :=
  fun _ hc => absurd hc List.not_mem_nil

theorem listed_intercalate (texts : List (List Char)) :
    Listed texts ([','].intercalate texts) := by
  cases texts with
  | nil => exact Or.inl ⟨rfl, Spaces.nil⟩
  | cons t ts => exact Or.inr ⟨by simp, rfl⟩

theorem Padded.of_core {P : List Char → Prop} {core : List Char} (h : P core) : Padded P core :=
  ⟨core, h, [], [], .nil, .nil, by simp⟩

end Grammar

section Strings

theorem readUnits_charsText {chars text : List Char} (h : CharsText chars text)
    (rest : List Char) :
    ∃ units, readUnits (text ++ '"' :: rest) = some (units, rest) ∧ joinUnits units = chars := by
  induction h with
  | nil => exact ⟨[], by simp [readUnits], rfl⟩
  | @plain c chars text hplain _ ih =>
      obtain ⟨hquote, hslash, hcontrol⟩ := hplain
      obtain ⟨units, hread, hjoin⟩ := ih
      refine ⟨.char c :: units, ?_, by rw [joinUnits, hjoin]⟩
      rw [List.cons_append, readUnits]
      · rw [if_neg (by simpa [hslash] using hcontrol), hread]
        rfl
      all_goals simp_all
  | @escape e c chars text hescape _ ih =>
      obtain ⟨units, hread, hjoin⟩ := ih
      refine ⟨.char c :: units, ?_, by rw [joinUnits, hjoin]⟩
      have he : e ≠ 'u' := by
        rintro rfl
        cases hescape
      rw [List.cons_append, List.cons_append, readUnits]
      · rw [hescape]
        dsimp only
        rw [hread]
        rfl
      · simp [he]
  | @code h i j k bits chars text hbits hhigh hlow _ ih =>
      obtain ⟨units, hread, hjoin⟩ := ih
      refine ⟨.escaped bits :: units, ?_, ?_⟩
      · simp only [List.cons_append]
        rw [readUnits, hbits]
        dsimp only
        rw [hread]
        rfl
      · have hchar : bitsChar bits = Char.ofNat bits := by simp [bitsChar, hhigh, hlow]
        rw [← hjoin]
        cases units with
        | nil => simp [joinUnits, hchar]
        | cons unit later =>
            cases unit with
            | char c => simp [joinUnits, hchar]
            | escaped next => simp [joinUnits, hhigh, hchar]
  | @pair h i j k h' i' j' k' high low chars text hbits hhigh hbits' hlow _ ih =>
      obtain ⟨units, hread, hjoin⟩ := ih
      refine ⟨.escaped high :: .escaped low :: units, ?_, ?_⟩
      · simp only [List.cons_append]
        rw [readUnits, hbits]
        dsimp only
        rw [readUnits, hbits']
        dsimp only
        rw [hread]
        rfl
      · rw [joinUnits, hhigh, hlow, Bool.and_self, if_pos rfl, hjoin]

theorem readString_charsText {s : String} {body : List Char} (h : CharsText s.toList body)
    (rest : List Char) : readString (body ++ '"' :: rest) = some (s, rest) := by
  obtain ⟨units, hread, hjoin⟩ := readUnits_charsText h rest
  unfold readString
  rw [hread, Option.map_some]
  dsimp only
  rw [hjoin, String.ofList_toList]

-- A name that is written without escapes.
def PlainKey (key : String) : Prop :=
  ∀ c ∈ key.toList, c ≠ '"' ∧ c ≠ '\\' ∧ 0x20 ≤ c.toNat

theorem charsText_plain {chars : List Char}
    (h : ∀ c ∈ chars, c ≠ '"' ∧ c ≠ '\\' ∧ 0x20 ≤ c.toNat) : CharsText chars chars := by
  induction chars with
  | nil => exact .nil
  | cons c cs ih =>
      exact .plain (h c (List.mem_cons_self ..)) (ih fun d hd => h d (List.mem_cons_of_mem c hd))

end Strings

section Skip

theorem isSpace_eq_false_of_isDigit {c : Char} (h : c.isDigit = true) : isSpace c = false := by
  have hne : ∀ d : Char, d.isDigit = false → c ≠ d := by
    rintro d hd rfl
    rw [hd] at h
    cases h
  simp [isSpace, hne ' ' (by decide), hne '\t' (by decide), hne '\n' (by decide),
    hne '\r' (by decide)]

theorem skipSpace_cons {c : Char} (h : isSpace c = false) (rest : List Char) :
    skipSpace (c :: rest) = c :: rest := by
  simp [skipSpace, h]

theorem skipSpace_append {spaces : List Char} (h : Spaces spaces) (rest : List Char) :
    skipSpace (spaces ++ rest) = skipSpace rest :=
  List.dropWhile_append_of_pos h

theorem skipSpace_idem (chars : List Char) : skipSpace (skipSpace chars) = skipSpace chars :=
  List.dropWhile_idempotent ..

-- What a text starts with, behind its spaces.
def StartsWith (P : Char → Prop) (text : List Char) : Prop :=
  ∃ c cs, P c ∧ skipSpace text = c :: cs

theorem StartsWith.append {P : Char → Prop} {text : List Char} (h : StartsWith P text)
    (rest : List Char) : StartsWith P (text ++ rest) := by
  obtain ⟨c, cs, hc, htext⟩ := h
  have hskip : skipSpace (text ++ rest) = c :: (cs ++ rest) := by
    rw [skipSpace] at htext ⊢
    rw [List.dropWhile_append, htext]
    rfl
  exact ⟨c, cs ++ rest, hc, hskip⟩

theorem Padded.startsWith {P : List Char → Prop} {Q : Char → Prop} {text : List Char}
    (h : Padded P text) (hcore : ∀ core, P core → StartsWith Q core) : StartsWith Q text := by
  obtain ⟨core, hP, before, after, hbefore, _, rfl⟩ := h
  obtain ⟨c, cs, hc, hskip⟩ := (hcore core hP).append after
  refine ⟨c, cs, hc, ?_⟩
  rw [List.append_assoc, skipSpace_append hbefore, hskip]

theorem expect_skipSpace (mark : Char) (chars : List Char) :
    expect mark (skipSpace chars) = expect mark chars := by
  unfold expect
  rw [skipSpace_idem]

theorem expect_spaces {mark : Char} (hmark : isSpace mark = false) {spaces : List Char}
    (h : Spaces spaces) (rest : List Char) : expect mark (spaces ++ mark :: rest) = some rest := by
  unfold expect
  rw [skipSpace_append h, skipSpace_cons hmark]
  simp

end Skip

section Sequences

variable {α : Type} (item : Reader α) (close : Char)

-- The text of an item inside a sequence: only spaces are left of it.
def Reads (a : α) (text : List Char) : Prop :=
  ∀ c rest, c = ',' ∨ c = close → ∃ left,
    item (text ++ c :: rest) = some (a, left) ∧ skipSpace left = c :: rest

theorem readItems_intercalate {texts : List (List Char)} {items : List α} (hne : texts ≠ [])
    (hcomma : close ≠ ',') (hitems : List.Forall₂ (Reads item close) items texts) {n : Nat}
    (hn : texts.length ≤ n) (rest : List Char) :
    readItems item close n ([','].intercalate texts ++ close :: rest) = some (items, rest) := by
  induction hitems generalizing n with
  | nil => exact absurd rfl hne
  | @cons a t as ts hfirst hlater ih =>
      obtain ⟨n, rfl⟩ : ∃ k, n = k + 1 := ⟨n - 1, by simp at hn; omega⟩
      cases ts with
      | nil =>
          obtain rfl := List.forall₂_nil_right_iff.mp hlater
          obtain ⟨left, hread, hskip⟩ := hfirst close rest (Or.inr rfl)
          unfold readItems
          rw [List.intercalate_singleton, hread]
          dsimp only
          rw [hskip]
          simp
      | cons u us =>
          have htext : [','].intercalate (t :: u :: us) ++ close :: rest =
              t ++ ',' :: ([','].intercalate (u :: us) ++ close :: rest) := by
            simp [List.intercalate_cons_cons]
          obtain ⟨left, hread, hskip⟩ := hfirst ',' _ (Or.inl rfl)
          have hrest := ih (by simp) (n := n) (by simpa using hn)
          unfold readItems
          rw [htext, hread]
          dsimp only
          rw [hskip]
          dsimp only
          rw [if_neg (fun h => hcomma h.symm), if_pos rfl, hrest]
          rfl

theorem length_le_intercalate (texts : List (List Char)) :
    texts.length ≤ ([','].intercalate texts).length + 1 := by
  induction texts with
  | nil => simp
  | cons t ts ih =>
      cases ts with
      | nil => simp
      | cons u us =>
          rw [List.intercalate_cons_cons]
          simp only [List.length_cons, List.length_append] at ih ⊢
          omega

theorem length_le_of_mem_intercalate {texts : List (List Char)} {t : List Char} (h : t ∈ texts) :
    t.length ≤ ([','].intercalate texts).length := by
  induction texts with
  | nil => exact absurd h List.not_mem_nil
  | cons u us ih =>
      cases us with
      | nil =>
          obtain rfl := List.mem_singleton.mp h
          simp
      | cons w ws =>
          rw [List.intercalate_cons_cons]
          simp only [List.length_append]
          rcases List.mem_cons.mp h with rfl | hlater
          · omega
          · have hle := ih hlater
            omega

theorem Listed.length_le {texts : List (List Char)} {inner t : List Char}
    (h : Listed texts inner) (ht : t ∈ texts) : t.length ≤ inner.length := by
  rcases h with ⟨rfl, _⟩ | ⟨_, rfl⟩
  · exact absurd ht List.not_mem_nil
  · exact length_le_of_mem_intercalate ht

-- The spaces in front of the first item are no part of it.
theorem readItems_skipSpace {item : Reader α} (hskip : ∀ chars, item (skipSpace chars) = item chars)
    (n : Nat) (chars : List Char) :
    readItems item close n (skipSpace chars) = readItems item close n chars := by
  cases n with
  | zero => rfl
  | succ n => rw [readItems, readItems, hskip]

theorem readSequence_listed {item : Reader α} {close : Char}
    (hskip : ∀ chars, item (skipSpace chars) = item chars)
    (hclose : isSpace close = false ∧ close ≠ ',') {texts : List (List Char)} {inner : List Char}
    (hlisted : Listed texts inner) {items : List α}
    (hitems : List.Forall₂ (fun a t => Reads item close a t ∧ StartsWith (fun c => c ≠ close) t)
      items texts)
    (rest : List Char) :
    readSequence item close (inner ++ close :: rest) = some (items, rest) := by
  unfold readSequence
  rcases hlisted with ⟨rfl, hspaces⟩ | ⟨hne, rfl⟩
  · obtain rfl := List.forall₂_nil_right_iff.mp hitems
    rw [skipSpace_append hspaces, skipSpace_cons hclose.1]
    simp
  · have hfront : StartsWith (fun c => c ≠ close) ([','].intercalate texts ++ close :: rest) := by
      cases hitems with
      | nil => exact absurd rfl hne
      | @cons a t as ts hitem _ =>
          have hfirst := hitem.2
          cases ts with
          | nil =>
              rw [List.intercalate_singleton]
              exact hfirst.append _
          | cons u us =>
              rw [List.intercalate_cons_cons, List.append_assoc, List.append_assoc]
              exact hfirst.append _
    have hlength := length_le_intercalate texts
    have hfuel : texts.length ≤ ([','].intercalate texts ++ close :: rest).length + 1 := by
      rw [List.length_append]
      omega
    have hread := readItems_intercalate item close hne hclose.2 (hitems.imp fun _ _ h => h.1) hfuel
      rest
    obtain ⟨c, cs, hc, hchars⟩ := hfront
    rw [← readItems_skipSpace close hskip, hchars] at hread
    rw [hchars]
    dsimp only
    rw [if_neg hc, hread]

end Sequences

section Values

variable {ν μ : Type} (number : ν → List Char → Prop) (read : Decimal → μ) (value : ν → μ)

-- A whole number as a reader makes it from its digits.
def whole (n : Nat) : μ := read { negative := false, mantissa := n, exponent := 0 }

-- The texts of the numbers are digits that are read as what they stand for.
def WholeNumbers : Prop :=
  ∀ n text, number n text → ∃ k, text = Nat.toDigits 10 k ∧ value n = whole read k

theorem readValue_skipSpace (depth : Nat) (chars : List Char) :
    readValue read depth (skipSpace chars) = readValue read depth chars := by
  cases depth with
  | zero => rfl
  | succ depth =>
      unfold readValue
      rw [skipSpace_idem]

theorem readMember_skipSpace {α : Type} (item : Reader α) (chars : List Char) :
    readMember item (skipSpace chars) = readMember item chars := by
  unfold readMember
  rw [expect_skipSpace]

theorem readValue_spaces {spaces : List Char} (h : Spaces spaces) (depth : Nat)
    (chars : List Char) : readValue read depth (spaces ++ chars) = readValue read depth chars := by
  rw [← readValue_skipSpace, skipSpace_append h, readValue_skipSpace]

theorem readValue_string (depth : Nat) (rest : List Char) :
    readValue read (depth + 1) ('"' :: rest) =
      (readString rest).map fun (s, rest) => (.str s, rest) := by
  rfl

theorem readValue_array (depth : Nat) (rest : List Char) :
    readValue read (depth + 1) ('[' :: rest) =
      (readSequence (readValue read depth) ']' rest).map fun (items, rest) =>
        (.arr items, rest) := by
  rfl

theorem readValue_members (depth : Nat) (rest : List Char) :
    readValue read (depth + 1) ('\x7b' :: rest) =
      (readSequence (readMember (readValue read depth)) '\x7d' rest).map fun (members, rest) =>
        (.obj (members.foldl setMember []), rest) := by
  rfl

theorem readValue_of_digit (depth : Nat) {c : Char} {cs : List Char} (h : c.isDigit = true) :
    readValue read (depth + 1) (c :: cs) =
      (readNumber (c :: cs)).map fun (d, rest) => (.num (read d), rest) := by
  unfold readValue
  rw [skipSpace_cons (isSpace_eq_false_of_isDigit h)]
  split
  case h_7 => rfl
  all_goals
    rename_i heq
    cases heq
    exact absurd h (by decide)

theorem toDigits_eq_cons (n : Nat) :
    ∃ c cs, Nat.toDigits 10 n = c :: cs ∧ c.isDigit = true := by
  cases hdigits : Nat.toDigits 10 n with
  | nil => exact absurd hdigits Nat.toDigits_ne_nil
  | cons c cs =>
      exact ⟨c, cs, rfl, Nat.isDigit_of_mem_toDigits (b := 10) (n := n) (by decide) (by decide)
        (hdigits ▸ List.mem_cons_self ..)⟩

theorem readValue_toDigits (depth n : Nat) {rest : List Char} (hrest : EndsNumber rest) :
    readValue read (depth + 1) (Nat.toDigits 10 n ++ rest) =
      some (.num (whole read n), rest) := by
  have hnumber := readNumber_toDigits n hrest
  obtain ⟨c, cs, hdigits, hdigit⟩ := toDigits_eq_cons n
  rw [hdigits, List.cons_append] at hnumber
  rw [hdigits, List.cons_append, readValue_of_digit read depth hdigit, hnumber]
  rfl

theorem endsNumber_nil : EndsNumber [] :=
  fun c hc => by cases hc

theorem endsNumber_spaces {spaces : List Char} (h : Spaces spaces) {rest : List Char}
    (hrest : EndsNumber rest) : EndsNumber (spaces ++ rest) := by
  cases spaces with
  | nil => exact hrest
  | cons c cs =>
      rintro d ⟨rfl⟩
      have hspace := h c (List.mem_cons_self ..)
      refine ⟨?_, ?_, ?_, ?_⟩
      · cases hdigit : c.isDigit with
        | false => rfl
        | true =>
            rw [isSpace_eq_false_of_isDigit hdigit] at hspace
            cases hspace
      all_goals
        rintro rfl
        exact absurd hspace (by decide)

theorem endsNumber_cons {c : Char} (hc : c = ',' ∨ c = ']' ∨ c = '\x7d') (cs : List Char) :
    EndsNumber (c :: cs) := by
  rintro d ⟨rfl⟩
  rcases hc with rfl | rfl | rfl <;> decide

variable {number read value}

theorem denotes_startsWith (hnumbers : WholeNumbers number read value) {v : Json ν}
    {text : List Char} (h : Denotes number v text) :
    StartsWith (fun c => c ≠ ']' ∧ c ≠ '\x7d') text := by
  cases v with
  | num n =>
      obtain ⟨k, rfl, _⟩ := hnumbers n text h
      obtain ⟨c, cs, hdigits, hdigit⟩ := toDigits_eq_cons k
      refine ⟨c, cs, ⟨?_, ?_⟩, ?_⟩
      · rintro rfl
        exact absurd hdigit (by decide)
      · rintro rfl
        exact absurd hdigit (by decide)
      · rw [hdigits, skipSpace_cons (isSpace_eq_false_of_isDigit hdigit)]
  | bool b =>
      cases b with
      | false =>
          obtain rfl := h
          exact ⟨_, _, ⟨by decide, by decide⟩, rfl⟩
      | true =>
          obtain rfl := h
          exact ⟨_, _, ⟨by decide, by decide⟩, rfl⟩
  | null =>
      obtain rfl := h
      exact ⟨_, _, ⟨by decide, by decide⟩, rfl⟩
  | str s =>
      obtain ⟨body, _, rfl⟩ := h
      exact ⟨_, _, ⟨by decide, by decide⟩, rfl⟩
  | arr items =>
      obtain ⟨texts, inner, _, _, rfl⟩ := h
      exact ⟨_, _, ⟨by decide, by decide⟩, rfl⟩
  | obj fields =>
      obtain ⟨texts, inner, _, _, rfl⟩ := h
      exact ⟨_, _, ⟨by decide, by decide⟩, rfl⟩

theorem denotesField_startsWith {m : String × Json ν} {text : List Char}
    (h : DenotesField number m text) : StartsWith (fun c => c ≠ '\x7d') text := by
  obtain ⟨value, _, quoted, hquoted, rfl⟩ := h
  refine StartsWith.append (hquoted.startsWith ?_) _
  rintro core ⟨body, _, rfl⟩
  exact ⟨_, _, by decide, rfl⟩

-- A name given once keeps the order of the members.
theorem foldl_setMember {α : Type} (before : List (String × α)) {members : List (String × α)}
    (hnodup : ((before ++ members).map Prod.fst).Nodup) :
    members.foldl setMember before = before ++ members := by
  induction members generalizing before with
  | nil => simp
  | cons m ms ih =>
      have hnew : before.any (fun field => field.1 == m.1) = false := by
        rw [List.any_eq_false]
        intro field hfield
        rw [beq_iff_eq]
        intro hsame
        rw [List.map_append, List.nodup_append] at hnodup
        exact hnodup.2.2 field.1 (List.mem_map_of_mem hfield) m.1 (by simp) hsame
      have hset : setMember before m = before ++ [m] := by
        unfold setMember
        rw [hnew]
        rfl
      rw [List.foldl_cons, hset, ih _ (by simpa using hnodup)]
      simp

-- The text of a value, whatever follows it.
def ReadsValue (read : Decimal → μ) (depth : Nat) (v : Json μ) (text : List Char) : Prop :=
  ∀ rest, EndsNumber rest → readValue read depth (text ++ rest) = some (v, rest)

theorem reads_padded {P : List Char → Prop} {depth : Nat} {text : List Char} {v : Json μ}
    (h : Padded P text)
    (hread : ∀ core, P core → core.length ≤ text.length → ReadsValue read depth v core)
    {close : Char} (hclose : close = ']' ∨ close = '\x7d') :
    Reads (readValue read depth) close v text := by
  obtain ⟨core, hcore, before, after, hbefore, hafter, rfl⟩ := h
  intro c rest hc
  have hmark : c = ',' ∨ c = ']' ∨ c = '\x7d' := by
    rcases hc with rfl | rfl
    · exact Or.inl rfl
    · exact Or.inr hclose
  have hspace : isSpace c = false := by
    rcases hmark with rfl | rfl | rfl <;> decide
  have hlength : core.length ≤ (before ++ core ++ after).length := by
    simp only [List.length_append]
    omega
  refine ⟨after ++ c :: rest, ?_, ?_⟩
  · rw [List.append_assoc, List.append_assoc, readValue_spaces read hbefore]
    exact hread core hcore hlength _ (endsNumber_spaces hafter (endsNumber_cons hmark rest))
  · rw [skipSpace_append hafter, skipSpace_cons hspace]

theorem reads_member {item : Reader (Json μ)} {close : Char} {key : String}
    {value text : List Char} {v : Json μ} (hvalue : Reads item close v value)
    (h : MemberText key value text) : Reads (readMember item) close (key, v) text := by
  obtain ⟨quoted, ⟨_, ⟨body, hbody, rfl⟩, before, after, hbefore, hafter, rfl⟩, rfl⟩ := h
  intro c rest hc
  obtain ⟨left, hread, hskip⟩ := hvalue c rest hc
  have hchars : before ++ '"' :: (body ++ ['"']) ++ after ++ ':' :: value ++ c :: rest =
      before ++ '"' :: (body ++ '"' :: (after ++ ':' :: (value ++ c :: rest))) := by
    simp
  refine ⟨left, ?_, hskip⟩
  unfold readMember
  rw [hchars, expect_spaces rfl hbefore]
  dsimp only
  rw [readString_charsText hbody]
  dsimp only
  rw [expect_spaces rfl hafter]
  dsimp only
  rw [hread]
  rfl

theorem forall₂_imp_of_mem {α β : Type} {R S : α → β → Prop} {as : List α} {bs : List β}
    (h : List.Forall₂ R as bs) (himp : ∀ a ∈ as, ∀ b ∈ bs, R a b → S a b) :
    List.Forall₂ S as bs := by
  obtain ⟨hlength, hzip⟩ := List.forall₂_iff_zip.mp h
  refine List.forall₂_iff_zip.mpr ⟨hlength, fun hmem => ?_⟩
  obtain ⟨ha, hb⟩ := List.of_mem_zip hmem
  exact himp _ ha _ hb (hzip hmem)

-- A text is read as the value that it denotes. The induction is on the value: its items are
-- values of shorter texts, whoever has put the spaces between them.
theorem readsValue_of_denotes (hnumbers : WholeNumbers number read value) (v : Json ν)
    (hnames : v.WellNamed) {text : List Char} (h : Denotes number v text) {depth : Nat}
    (hdepth : text.length < depth) : ReadsValue read depth (v.map value) text := by
  induction v using induct generalizing text depth with
  | null =>
      obtain ⟨depth, rfl⟩ : ∃ k, depth = k + 1 := ⟨depth - 1, by omega⟩
      obtain rfl := h
      exact fun rest _ => rfl
  | bool b =>
      obtain ⟨depth, rfl⟩ : ∃ k, depth = k + 1 := ⟨depth - 1, by omega⟩
      cases b with
      | false =>
          obtain rfl := h
          exact fun rest _ => rfl
      | true =>
          obtain rfl := h
          exact fun rest _ => rfl
  | num n =>
      obtain ⟨depth, rfl⟩ : ∃ k, depth = k + 1 := ⟨depth - 1, by omega⟩
      obtain ⟨k, rfl, hvalue⟩ := hnumbers n text h
      intro rest hrest
      rw [map, hvalue]
      exact readValue_toDigits read depth k hrest
  | str s =>
      obtain ⟨depth, rfl⟩ : ∃ k, depth = k + 1 := ⟨depth - 1, by omega⟩
      obtain ⟨body, hbody, rfl⟩ := h
      intro rest _
      have hchars : '"' :: (body ++ ['"']) ++ rest = '"' :: (body ++ '"' :: rest) := by simp
      rw [hchars, readValue_string, readString_charsText hbody]
      rfl
  | arr items ih =>
      obtain ⟨depth, rfl⟩ : ∃ k, depth = k + 1 := ⟨depth - 1, by omega⟩
      obtain ⟨texts, inner, htexts, hlisted, rfl⟩ := h
      have hitems := (wellNamedItems_iff items).mp hnames
      have hread : List.Forall₂ (fun a t => Reads (readValue read depth) ']' a t ∧
          StartsWith (fun c => c ≠ ']') t) (items.map fun v => v.map value) texts := by
        rw [List.forall₂_map_left_iff]
        refine forall₂_imp_of_mem ((denotesItems_iff number items texts).mp htexts) ?_
        intro v hv t ht hpadded
        have hlength := hlisted.length_le ht
        simp only [List.length_cons, List.length_append] at hdepth
        constructor
        · refine reads_padded hpadded (fun core hcore hle => ?_) (Or.inl rfl)
          exact ih v hv (hitems v hv) hcore (by omega)
        · refine hpadded.startsWith fun core hcore => ?_
          obtain ⟨c, cs, hc, hskip⟩ := denotes_startsWith hnumbers hcore
          exact ⟨c, cs, hc.1, hskip⟩
      intro rest _
      have hchars : '[' :: (inner ++ [']']) ++ rest = '[' :: (inner ++ ']' :: rest) := by simp
      rw [hchars, readValue_array, readSequence_listed (readValue_skipSpace read depth)
        (by decide) hlisted hread, map, mapItems_eq]
      rfl
  | obj fields ih =>
      obtain ⟨depth, rfl⟩ : ∃ k, depth = k + 1 := ⟨depth - 1, by omega⟩
      obtain ⟨texts, inner, htexts, hlisted, rfl⟩ := h
      obtain ⟨hnodup, hfields⟩ := hnames
      have hfields := (wellNamedFields_iff fields).mp hfields
      have hread : List.Forall₂ (fun a t => Reads (readMember (readValue read depth)) '\x7d' a t ∧
          StartsWith (fun c => c ≠ '\x7d') t) (fields.map fun m => (m.1, m.2.map value)) texts := by
        rw [List.forall₂_map_left_iff]
        refine forall₂_imp_of_mem ((denotesFields_iff number fields texts).mp htexts) ?_
        intro m hm t ht hmember
        refine ⟨?_, denotesField_startsWith hmember⟩
        obtain ⟨value, hpadded, htext⟩ := hmember
        have hlength := hlisted.length_le ht
        have hvalue := htext.length_le
        simp only [List.length_cons, List.length_append] at hdepth
        refine reads_member (reads_padded hpadded (fun core hcore hle => ?_) (Or.inr rfl)) htext
        exact ih m hm (hfields m hm) hcore (by omega)
      intro rest _
      have hchars : '\x7b' :: (inner ++ ['\x7d']) ++ rest =
          '\x7b' :: (inner ++ '\x7d' :: rest) := by
        simp
      rw [hchars, readValue_members, readSequence_listed
        (readMember_skipSpace (readValue read depth)) (by decide) hlisted hread, Option.map_some,
        map, mapFields_eq]
      dsimp only
      rw [foldl_setMember [] (by simpa [Function.comp_def] using hnodup), List.nil_append]

-- Every text of a value is read as that value, up to what the reader makes of the numbers.
theorem parse_of_denotes (hnumbers : WholeNumbers number read value) (v : Json ν)
    (hnames : v.WellNamed) {text : String} (h : Padded (Denotes number v) text.toList) :
    parse read text = some (v.map value) := by
  obtain ⟨core, hcore, before, after, hbefore, hafter, htext⟩ := h
  have hlength : core.length < text.toList.length + 1 := by
    rw [htext]
    simp only [List.length_append]
    omega
  have hends : EndsNumber (after ++ []) := endsNumber_spaces hafter endsNumber_nil
  rw [List.append_nil] at hends
  have hread := readsValue_of_denotes hnumbers v hnames hcore hlength after hends
  have hskip : skipSpace after = [] := by
    rw [← List.append_nil after, skipSpace_append hafter]
    rfl
  unfold parse
  rw [htext, List.append_assoc, readValue_spaces read hbefore, ← List.append_assoc, ← htext, hread]
  dsimp only
  rw [hskip]
  rfl

end Values

section Objects

-- A whole number stands as its digits.
def digits (n : Nat) (text : List Char) : Prop :=
  text = Nat.toDigits 10 n

theorem wholeNumbers_digits {ν : Type} (read : Decimal → ν) :
    WholeNumbers digits read (whole read) :=
  fun n _ htext => ⟨n, htext, rfl⟩

-- A member that has a whole number, without spaces.
def member (key : String) (n : Nat) : List Char :=
  '"' :: (key.toList ++ '"' :: ':' :: Nat.toDigits 10 n)

theorem denotesField_member {key : String} (hkey : PlainKey key) (n : Nat) :
    DenotesField digits (key, .num n) (member key n) := by
  refine ⟨Nat.toDigits 10 n, Padded.of_core rfl, '"' :: (key.toList ++ ['"']), ?_, ?_⟩
  · exact Padded.of_core ⟨key.toList, charsText_plain hkey, rfl⟩
  · simp [member]

-- An object of naturals under distinct names is read as it is written.
theorem parse_object {ν : Type} (number : Decimal → ν) (members : List (String × Nat))
    (hnodup : (members.map Prod.fst).Nodup) (hplain : ∀ m ∈ members, PlainKey m.1) {text : String}
    (htext : text.toList =
      '\x7b' :: ([','].intercalate (members.map fun m => member m.1 m.2) ++ ['\x7d'])) :
    parse number text = some (.obj (members.map fun m =>
      (m.1, .num (number { negative := false, mantissa := m.2, exponent := 0 })))) := by
  have hnames : WellNamed (.obj (members.map fun m => (m.1, .num m.2))) := by
    refine ⟨by simpa [Function.comp_def] using hnodup, (wellNamedFields_iff _).mpr ?_⟩
    rintro _ hm
    obtain ⟨m, _, rfl⟩ := List.mem_map.mp hm
    trivial
  have hmembers : DenotesFields digits (members.map fun m => (m.1, .num m.2))
      (members.map fun m => member m.1 m.2) := by
    rw [denotesFields_iff, List.forall₂_map_left_iff, List.forall₂_map_right_iff,
      List.forall₂_same]
    exact fun m hm => denotesField_member (hplain m hm) m.2
  have hdenotes : Denotes digits (.obj (members.map fun m => (m.1, .num m.2))) text.toList :=
    ⟨_, _, hmembers, listed_intercalate _, htext⟩
  rw [parse_of_denotes (wholeNumbers_digits number) _ hnames (Padded.of_core hdenotes), map,
    mapFields_eq, List.map_map]
  rfl

end Objects

end Tdb.Library.Json
