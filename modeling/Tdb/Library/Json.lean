import Mathlib.Data.List.Basic
import Mathlib.Tactic.IntervalCases

namespace Tdb.Library

-- A JSON value; what a number is, is up to who reads it.
inductive Json (ν : Type) where
  | null
  | bool (b : Bool)
  | num (n : ν)
  | str (s : String)
  | arr (items : List (Json ν))
  | obj (fields : List (String × Json ν))

-- A number as written: a sign, the digits as one whole number and a power of ten.
structure Decimal where
  negative : Bool
  mantissa : Nat
  exponent : Int
deriving DecidableEq, Repr

namespace Json

section Structure

@[elab_as_elim] theorem induct {ν : Type} {motive : Json ν → Prop} (null : motive .null)
    (bool : ∀ b, motive (.bool b)) (num : ∀ n, motive (.num n)) (str : ∀ s, motive (.str s))
    (arr : ∀ items, (∀ v ∈ items, motive v) → motive (.arr items))
    (obj : ∀ fields, (∀ m ∈ fields, motive m.2) → motive (.obj fields)) (v : Json ν) :
    motive v :=
  @Json.rec ν motive (fun items => ∀ v ∈ items, motive v)
    (fun fields => ∀ m ∈ fields, motive m.2) (fun m => motive m.2) null bool num str arr obj
    (fun _ hv => absurd hv List.not_mem_nil)
    (fun _ _ hv hvs => List.forall_mem_cons.mpr ⟨hv, hvs⟩)
    (fun _ hm => absurd hm List.not_mem_nil)
    (fun _ _ hm hms => List.forall_mem_cons.mpr ⟨hm, hms⟩)
    (fun _ _ hv => hv) v

variable {ν μ : Type} (f : ν → μ)

mutual

def map : Json ν → Json μ
  | .null => .null
  | .bool b => .bool b
  | .num n => .num (f n)
  | .str s => .str s
  | .arr items => .arr (mapItems items)
  | .obj fields => .obj (mapFields fields)

def mapItems : List (Json ν) → List (Json μ)
  | [] => []
  | v :: vs => map v :: mapItems vs

def mapFields : List (String × Json ν) → List (String × Json μ)
  | [] => []
  | (key, v) :: fields => (key, map v) :: mapFields fields

end

mutual

-- No object has a name twice, at any depth.
def WellNamed : Json ν → Prop
  | .arr items => WellNamedItems items
  | .obj fields => (fields.map Prod.fst).Nodup ∧ WellNamedFields fields
  | _ => True

def WellNamedItems : List (Json ν) → Prop
  | [] => True
  | v :: vs => WellNamed v ∧ WellNamedItems vs

def WellNamedFields : List (String × Json ν) → Prop
  | [] => True
  | (_, v) :: fields => WellNamed v ∧ WellNamedFields fields

end

theorem mapItems_eq (items : List (Json ν)) : mapItems f items = items.map (map f) := by
  induction items with
  | nil => rfl
  | cons v vs ih => rw [mapItems, ih, List.map_cons]

theorem mapFields_eq (fields : List (String × Json ν)) :
    mapFields f fields = fields.map fun m => (m.1, map f m.2) := by
  induction fields with
  | nil => rfl
  | cons m ms ih => rw [mapFields, ih, List.map_cons]

theorem wellNamedItems_iff (items : List (Json ν)) :
    WellNamedItems items ↔ ∀ v ∈ items, WellNamed v := by
  induction items with
  | nil => simp [WellNamedItems]
  | cons v vs ih => simp [WellNamedItems, ih]

theorem wellNamedFields_iff (fields : List (String × Json ν)) :
    WellNamedFields fields ↔ ∀ m ∈ fields, WellNamed m.2 := by
  induction fields with
  | nil => simp [WellNamedFields]
  | cons m ms ih => simp [WellNamedFields, ih]

theorem map_map {ξ : Type} (g : μ → ξ) (v : Json ν) : (v.map f).map g = v.map (g ∘ f) := by
  induction v using induct with
  | null | bool | num | str => simp [map]
  | arr items ih =>
      simp only [map, mapItems_eq, List.map_map]
      congr 1
      exact List.map_congr_left ih
  | obj fields ih =>
      simp only [map, mapFields_eq, List.map_map]
      congr 1
      exact List.map_congr_left fun m hm => congrArg (Prod.mk m.1) (ih m hm)

theorem map_eq_self {f : ν → ν} (hf : ∀ n, f n = n) (v : Json ν) : v.map f = v := by
  induction v using induct with
  | null | bool | str => simp [map]
  | num n => rw [map, hf]
  | arr items ih =>
      rw [map, mapItems_eq, List.map_congr_left ih, List.map_id']
  | obj fields ih =>
      rw [map, mapFields_eq,
        List.map_congr_left fun m hm => congrArg (Prod.mk m.1) (ih m hm), List.map_id']

end Structure

-- A reader of some thing: the thing and the rest of the text, if it stands at the front.
abbrev Reader (α : Type) := List Char → Option (α × List Char)

def isSpace (c : Char) : Bool :=
  c = ' ' || c = '\t' || c = '\n' || c = '\r'

def skipSpace (chars : List Char) : List Char :=
  chars.dropWhile isSpace

section Numbers

def readDigits : Reader (List Char) := fun chars =>
  let digits := chars.takeWhile Char.isDigit
  if digits.isEmpty then none else some (digits, chars.dropWhile Char.isDigit)

-- No zero in front of other digits.
def readWhole : Reader (List Char) := fun chars =>
  match readDigits chars with
  | some ('0' :: _ :: _, _) => none
  | other => other

def readFraction : Reader (List Char)
  | '.' :: rest => readDigits rest
  | chars => some ([], chars)

def readSign : List Char → Bool × List Char
  | '-' :: rest => (true, rest)
  | '+' :: rest => (false, rest)
  | chars => (false, chars)

def readExponent : Reader Int
  | [] => some (0, [])
  | c :: rest =>
      if c = 'e' || c = 'E' then
        let (negative, rest) := readSign rest
        match readDigits rest with
        | none => none
        | some (digits, rest) =>
            let n : Int := Nat.ofDigitChars 10 digits 0
            some (if negative then -n else n, rest)
      else
        some (0, c :: rest)

def readMinus : List Char → Bool × List Char
  | '-' :: rest => (true, rest)
  | chars => (false, chars)

def readNumber : Reader Decimal := fun chars =>
  let (negative, chars) := readMinus chars
  match readWhole chars with
  | none => none
  | some (whole, chars) =>
      match readFraction chars with
      | none => none
      | some (fraction, chars) =>
          match readExponent chars with
          | none => none
          | some (exponent, chars) =>
              some
                ({ negative
                   mantissa := Nat.ofDigitChars 10 (whole ++ fraction) 0
                   exponent := exponent - fraction.length }, chars)

end Numbers

section Strings

-- A character as it stands, or the 16 bits of a `\u` escape.
inductive StringUnit where
  | char (c : Char)
  | escaped (bits : Nat)
deriving DecidableEq, Repr

def hexDigit (c : Char) : Option Nat :=
  if c.isDigit then some (c.toNat - '0'.toNat)
  else if 'a' ≤ c ∧ c ≤ 'f' then some (c.toNat - 'a'.toNat + 10)
  else if 'A' ≤ c ∧ c ≤ 'F' then some (c.toNat - 'A'.toNat + 10)
  else none

def hexBits (a b c d : Char) : Option Nat :=
  match hexDigit a, hexDigit b, hexDigit c, hexDigit d with
  | some a, some b, some c, some d => some (((a * 16 + b) * 16 + c) * 16 + d)
  | _, _, _, _ => none

def escapedChar (c : Char) : Option Char :=
  if c = '"' || c = '\\' || c = '/' then some c
  else if c = 'b' then some '\x08'
  else if c = 'f' then some '\x0c'
  else if c = 'n' then some '\n'
  else if c = 'r' then some '\r'
  else if c = 't' then some '\t'
  else none

-- From behind the opening quote to the closing one.
def readUnits : Reader (List StringUnit)
  | [] => none
  | '"' :: rest => some ([], rest)
  | '\\' :: 'u' :: a :: b :: c :: d :: rest =>
      match hexBits a b c d with
      | none => none
      | some bits => (readUnits rest).map fun (units, rest) => (.escaped bits :: units, rest)
  | '\\' :: c :: rest =>
      match escapedChar c with
      | none => none
      | some c => (readUnits rest).map fun (units, rest) => (.char c :: units, rest)
  | c :: rest =>
      if c = '\\' || c.toNat < 0x20 then
        none
      else
        (readUnits rest).map fun (units, rest) => (.char c :: units, rest)

def isHigh (bits : Nat) : Bool := 0xD800 ≤ bits && bits < 0xDC00

def isLow (bits : Nat) : Bool := 0xDC00 ≤ bits && bits < 0xE000

-- A String cannot hold half of a surrogate pair: it stands as the replacement character.
def bitsChar (bits : Nat) : Char :=
  if isHigh bits || isLow bits then '\uFFFD' else Char.ofNat bits

def joinUnits : List StringUnit → List Char
  | [] => []
  | .char c :: rest => c :: joinUnits rest
  | .escaped high :: .escaped low :: rest =>
      if isHigh high && isLow low then
        Char.ofNat (0x10000 + (high - 0xD800) * 0x400 + (low - 0xDC00)) :: joinUnits rest
      else
        bitsChar high :: joinUnits (.escaped low :: rest)
  | .escaped bits :: rest => bitsChar bits :: joinUnits rest

def readString : Reader String := fun chars =>
  (readUnits chars).map fun (units, rest) => (String.ofList (joinUnits units), rest)

end Strings

section Sequences

variable {α : Type}

-- At least one item, with commas between and the closing character behind. A text of `n`
-- characters holds fewer than `n` items.
def readItems (item : Reader α) (close : Char) : Nat → Reader (List α)
  | 0, _ => none
  | n + 1, chars =>
      match item chars with
      | none => none
      | some (a, rest) =>
          match skipSpace rest with
          | [] => none
          | c :: rest =>
              if c = close then
                some ([a], rest)
              else if c = ',' then
                (readItems item close n rest).map fun (items, rest) => (a :: items, rest)
              else
                none

def readSequence (item : Reader α) (close : Char) : Reader (List α) := fun chars =>
  match skipSpace chars with
  | [] => none
  | c :: rest =>
      if c = close then some ([], rest) else readItems item close (chars.length + 1) (c :: rest)

def expect (mark : Char) (chars : List Char) : Option (List Char) :=
  match skipSpace chars with
  | [] => none
  | c :: rest => if c = mark then some rest else none

def readMember (value : Reader α) : Reader (String × α) := fun chars =>
  match expect '"' chars with
  | none => none
  | some rest =>
      match readString rest with
      | none => none
      | some (key, rest) =>
          match expect ':' rest with
          | none => none
          | some rest => (value rest).map fun (v, rest) => ((key, v), rest)

-- A name given again keeps its place and takes the later value.
def setMember (fields : List (String × α)) (member : String × α) : List (String × α) :=
  if fields.any fun field => field.1 == member.1 then
    fields.map fun field => if field.1 = member.1 then member else field
  else
    fields ++ [member]

end Sequences

section Values

variable {ν : Type} (number : Decimal → ν)

-- `depth` bounds the nesting. A text is nested less deeply than it is long.
def readValue : Nat → Reader (Json ν)
  | 0, _ => none
  | depth + 1, chars =>
      match skipSpace chars with
      | 'n' :: 'u' :: 'l' :: 'l' :: rest => some (.null, rest)
      | 't' :: 'r' :: 'u' :: 'e' :: rest => some (.bool true, rest)
      | 'f' :: 'a' :: 'l' :: 's' :: 'e' :: rest => some (.bool false, rest)
      | '"' :: rest => (readString rest).map fun (s, rest) => (.str s, rest)
      | '[' :: rest =>
          (readSequence (readValue depth) ']' rest).map fun (items, rest) => (.arr items, rest)
      | '\x7b' :: rest =>
          (readSequence (readMember (readValue depth)) '\x7d' rest).map fun (members, rest) =>
            (.obj (members.foldl setMember []), rest)
      | chars => (readNumber chars).map fun (d, rest) => (.num (number d), rest)

def parse (text : String) : Option (Json ν) :=
  match readValue number (text.toList.length + 1) text.toList with
  | none => none
  | some (v, rest) => if (skipSpace rest).isEmpty then some v else none

end Values

section Digits

-- No digit, point or exponent goes on with a number.
def EndsNumber (rest : List Char) : Prop :=
  ∀ c ∈ rest.head?, c.isDigit = false ∧ c ≠ '.' ∧ c ≠ 'e' ∧ c ≠ 'E'

theorem head?_toDigits_eq_zero {n : Nat} (h : (Nat.toDigits 10 n).head? = some '0') : n = 0 := by
  induction n using Nat.strongRecOn with
  | ind n ih =>
      rw [Nat.toDigits_eq_if (by decide)] at h
      split at h
      · rename_i hlt
        interval_cases n <;> first | rfl | cases h
      · rename_i hge
        rw [List.head?_append_of_ne_nil _ Nat.toDigits_ne_nil] at h
        have hzero := ih (n / 10) (by omega) h
        omega

theorem readDigits_append {digits rest : List Char} (hne : digits ≠ [])
    (hdigits : ∀ c ∈ digits, c.isDigit = true) (hrest : ∀ c ∈ rest.head?, c.isDigit = false) :
    readDigits (digits ++ rest) = some (digits, rest) := by
  have htake : (digits ++ rest).takeWhile Char.isDigit = digits := by
    rw [List.takeWhile_append_of_pos hdigits]
    cases rest with
    | nil => simp
    | cons c cs => simp [hrest c rfl]
  have hdrop : (digits ++ rest).dropWhile Char.isDigit = rest := by
    rw [List.dropWhile_append_of_pos hdigits]
    cases rest with
    | nil => simp
    | cons c cs => simp [hrest c rfl]
  unfold readDigits
  dsimp only
  rw [htake, hdrop, if_neg (by simpa using hne)]

theorem readWhole_toDigits (n : Nat) {rest : List Char} (hrest : EndsNumber rest) :
    readWhole (Nat.toDigits 10 n ++ rest) = some (Nat.toDigits 10 n, rest) := by
  have hdigits : ∀ c ∈ Nat.toDigits 10 n, c.isDigit = true := fun c hc =>
    Nat.isDigit_of_mem_toDigits (by decide) (by decide) hc
  have hread := readDigits_append Nat.toDigits_ne_nil hdigits fun c hc => (hrest c hc).1
  unfold readWhole
  rw [hread]
  split
  · rename_i c cs rest' heq
    have hdigits : Nat.toDigits 10 n = '0' :: c :: cs := (Prod.mk.inj (Option.some.inj heq)).1
    have hzero := head?_toDigits_eq_zero (by rw [hdigits]; rfl)
    rw [hzero, Nat.toDigits_zero] at hdigits
    cases hdigits
  · rfl

theorem readFraction_of_ends {rest : List Char} (hrest : EndsNumber rest) :
    readFraction rest = some ([], rest) := by
  unfold readFraction
  split
  · exact absurd rfl (hrest '.' rfl).2.1
  · rfl

theorem readExponent_of_ends {rest : List Char} (hrest : EndsNumber rest) :
    readExponent rest = some (0, rest) := by
  cases rest with
  | nil => rfl
  | cons c cs =>
      obtain ⟨_, _, hlower, hupper⟩ := hrest c rfl
      unfold readExponent
      dsimp only
      rw [if_neg (by simp [hlower, hupper])]

-- A natural number is read as it is written.
theorem readNumber_toDigits (n : Nat) {rest : List Char} (hrest : EndsNumber rest) :
    readNumber (Nat.toDigits 10 n ++ rest) =
      some ({ negative := false, mantissa := n, exponent := 0 }, rest) := by
  have hminus : readMinus (Nat.toDigits 10 n ++ rest) = (false, Nat.toDigits 10 n ++ rest) := by
    unfold readMinus
    split
    · rename_i tail heq
      have hmem : '-' ∈ Nat.toDigits 10 n := by
        cases hdigits : Nat.toDigits 10 n with
        | nil => exact absurd hdigits Nat.toDigits_ne_nil
        | cons c cs =>
            rw [hdigits] at heq
            cases heq
            exact List.mem_cons_self ..
      exact absurd (Nat.isDigit_of_mem_toDigits (by decide) (by decide) hmem) (by decide)
    · rfl
  unfold readNumber
  rw [hminus]
  dsimp only
  rw [readWhole_toDigits n hrest]
  dsimp only
  rw [readFraction_of_ends hrest]
  dsimp only
  rw [readExponent_of_ends hrest]
  simp [Nat.ofDigitChars_ten_toDigits]

end Digits

end Json

end Tdb.Library
