import Tdb.Library.JsonGrammar

namespace Tdb.Library.Json

section Write

-- A quote, a backslash and the control characters do not stand in a text as they are.
def escapeChar (c : Char) : List Char :=
  if c = '"' then ['\\', '"']
  else if c = '\\' then ['\\', '\\']
  else if c = '\x08' then ['\\', 'b']
  else if c = '\x0c' then ['\\', 'f']
  else if c = '\n' then ['\\', 'n']
  else if c = '\r' then ['\\', 'r']
  else if c = '\t' then ['\\', 't']
  else if c.toNat < 0x20 then
    ['\\', 'u', '0', '0', Nat.digitChar (c.toNat / 16), Nat.digitChar (c.toNat % 16)]
  else [c]

def writeString (s : String) : List Char :=
  '"' :: (s.toList.flatMap escapeChar ++ ['"'])

mutual

-- The compact text of a value, without spaces and with the members in their order.
def write : Json Nat → List Char
  | .null => "null".toList
  | .bool true => "true".toList
  | .bool false => "false".toList
  | .num n => Nat.toDigits 10 n
  | .str s => writeString s
  | .arr items => '[' :: ([','].intercalate (writeItems items) ++ [']'])
  | .obj fields => '\x7b' :: ([','].intercalate (writeFields fields) ++ ['\x7d'])

def writeItems : List (Json Nat) → List (List Char)
  | [] => []
  | v :: vs => write v :: writeItems vs

def writeFields : List (String × Json Nat) → List (List Char)
  | [] => []
  | (key, v) :: fields => (writeString key ++ ':' :: write v) :: writeFields fields

end

theorem writeItems_eq (items : List (Json Nat)) : writeItems items = items.map write := by
  induction items with
  | nil => rfl
  | cons v vs ih => rw [writeItems, ih, List.map_cons]

theorem writeFields_eq (fields : List (String × Json Nat)) :
    writeFields fields = fields.map fun m => writeString m.1 ++ ':' :: write m.2 := by
  induction fields with
  | nil => rfl
  | cons m ms ih => rw [writeFields, ih, List.map_cons]

end Write

section Grammar

theorem hexDigit_digitChar {d : Nat} (h : d < 16) : hexDigit (Nat.digitChar d) = some d := by
  have hall : ∀ d < 16, hexDigit (Nat.digitChar d) = some d := by decide
  exact hall d h

theorem charsText_escapeChar (c : Char) {chars text : List Char} (h : CharsText chars text) :
    CharsText (c :: chars) (escapeChar c ++ text) := by
  by_cases hquote : c = '"'
  · subst hquote
    exact .escape rfl h
  by_cases hslash : c = '\\'
  · subst hslash
    exact .escape rfl h
  by_cases hshort : c = '\x08' ∨ c = '\x0c' ∨ c = '\n' ∨ c = '\r' ∨ c = '\t'
  · rcases hshort with rfl | rfl | rfl | rfl | rfl <;> exact .escape rfl h
  simp only [not_or] at hshort
  obtain ⟨hback, hfeed, hline, hreturn, htab⟩ := hshort
  unfold escapeChar
  simp only [hquote, hslash, hback, hfeed, hline, hreturn, htab, if_false]
  by_cases hcontrol : c.toNat < 0x20
  · have hhigh := hexDigit_digitChar (d := c.toNat / 16) (by omega)
    have hlow := hexDigit_digitChar (d := c.toNat % 16) (by omega)
    have hbits : hexBits '0' '0' (Nat.digitChar (c.toNat / 16)) (Nat.digitChar (c.toNat % 16)) =
        some c.toNat := by
      have hzero : hexDigit '0' = some 0 := rfl
      have hsum : ((0 * 16 + 0) * 16 + c.toNat / 16) * 16 + c.toNat % 16 = c.toNat := by omega
      simp only [hexBits, hzero, hhigh, hlow, hsum]
    have hcode := CharsText.code hbits (by simp [isHigh]; omega) (by simp [isLow]; omega) h
    rw [Char.ofNat_toNat] at hcode
    rw [if_pos hcontrol]
    exact hcode
  · rw [if_neg hcontrol]
    exact .plain ⟨hquote, hslash, not_lt.mp hcontrol⟩ h

theorem stringText_writeString (s : String) : StringText s (writeString s) := by
  have hchars : ∀ chars : List Char, CharsText chars (chars.flatMap escapeChar) := by
    intro chars
    induction chars with
    | nil => exact .nil
    | cons c cs ih =>
        rw [List.flatMap_cons]
        exact charsText_escapeChar c ih
  exact ⟨_, hchars s.toList, rfl⟩

-- What is written is a text of the value.
theorem write_denotes (v : Json Nat) : Denotes digits v (write v) := by
  induction v using induct with
  | null => exact rfl
  | bool b => cases b <;> exact rfl
  | num n => exact rfl
  | str s => exact stringText_writeString s
  | arr items ih =>
      refine ⟨writeItems items, _, ?_, listed_intercalate _, rfl⟩
      rw [denotesItems_iff, writeItems_eq, List.forall₂_map_right_iff, List.forall₂_same]
      exact fun v hv => Padded.of_core (ih v hv)
  | obj fields ih =>
      refine ⟨writeFields fields, _, ?_, listed_intercalate _, rfl⟩
      rw [denotesFields_iff, writeFields_eq, List.forall₂_map_right_iff, List.forall₂_same]
      exact fun m hm => ⟨write m.2, Padded.of_core (ih m hm), writeString m.1,
        Padded.of_core (stringText_writeString m.1), rfl⟩

end Grammar

section Format

-- How the values of a type are written as JSON.
structure Format (α : Type) where
  toJson : α → Json Nat
  wellNamed : ∀ a, (toJson a).WellNamed
  injective : Function.Injective toJson

namespace Format

variable {α β : Type}

def text (format : Format α) (a : α) : String :=
  String.ofList (write (format.toJson a))

theorem denotes_text (format : Format α) (a : α) :
    Denotes digits (format.toJson a) (format.text a).toList := by
  rw [text, String.toList_ofList]
  exact write_denotes (format.toJson a)

def nat : Format Nat where
  toJson := .num
  wellNamed _ := trivial
  injective _ _ h := Json.num.inj h

-- Values that are written as what they stand for.
def via (format : Format β) (f : α → β) (hf : Function.Injective f) : Format α where
  toJson a := format.toJson (f a)
  wellNamed a := format.wellNamed (f a)
  injective := format.injective.comp hf

def list (format : Format α) : Format (List α) where
  toJson items := .arr (items.map format.toJson)
  wellNamed items := by
    refine (wellNamedItems_iff _).mpr fun v hv => ?_
    obtain ⟨a, _, rfl⟩ := List.mem_map.mp hv
    exact format.wellNamed a
  injective _ _ h := List.map_injective_iff.mpr format.injective (Json.arr.inj h)

end Format

end Format

end Tdb.Library.Json
