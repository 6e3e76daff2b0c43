import Tdb.Library.JsonText

namespace Tdb.Library.Json

section Write

variable {ν : Type} (number : ν → List Char) (indent : Nat)

def newline (level : Nat) : List Char :=
  '\n' :: List.replicate (indent * level) ' '

-- Every item on a line of its own, one level further in than the brackets around them.
def block (opening closing : Char) (level : Nat) (lines : List (List Char)) : List Char :=
  match lines with
  | [] => [opening, closing]
  | lines =>
      opening :: (newline indent (level + 1) ++
        (',' :: newline indent (level + 1)).intercalate lines ++ newline indent level ++ [closing])

mutual

-- The text of a value over several lines, each level indented further.
def pretty : Nat → Json ν → List Char
  | _, .null => "null".toList
  | _, .bool true => "true".toList
  | _, .bool false => "false".toList
  | _, .num n => number n
  | _, .str s => writeString s
  | level, .arr items => block indent '[' ']' level (prettyItems (level + 1) items)
  | level, .obj fields => block indent '\x7b' '\x7d' level (prettyFields (level + 1) fields)

def prettyItems : Nat → List (Json ν) → List (List Char)
  | _, [] => []
  | level, v :: vs => pretty level v :: prettyItems level vs

def prettyFields : Nat → List (String × Json ν) → List (List Char)
  | _, [] => []
  | level, (key, v) :: fields =>
      (writeString key ++ ':' :: ' ' :: pretty level v) :: prettyFields level fields

end

mutual

def AllNumbers (P : ν → Prop) : Json ν → Prop
  | .num n => P n
  | .arr items => AllNumbersItems P items
  | .obj fields => AllNumbersFields P fields
  | _ => True

def AllNumbersItems (P : ν → Prop) : List (Json ν) → Prop
  | [] => True
  | v :: vs => AllNumbers P v ∧ AllNumbersItems P vs

def AllNumbersFields (P : ν → Prop) : List (String × Json ν) → Prop
  | [] => True
  | (_, v) :: fields => AllNumbers P v ∧ AllNumbersFields P fields

end

theorem prettyItems_eq (level : Nat) (items : List (Json ν)) :
    prettyItems number indent level items = items.map (pretty number indent level) := by
  induction items with
  | nil => rfl
  | cons v vs ih => rw [prettyItems, ih, List.map_cons]

theorem prettyFields_eq (level : Nat) (fields : List (String × Json ν)) :
    prettyFields number indent level fields =
      fields.map fun m => writeString m.1 ++ ':' :: ' ' :: pretty number indent level m.2 := by
  induction fields with
  | nil => rfl
  | cons m ms ih => rw [prettyFields, ih, List.map_cons]

theorem allNumbersItems_iff {P : ν → Prop} (items : List (Json ν)) :
    AllNumbersItems P items ↔ ∀ v ∈ items, AllNumbers P v := by
  induction items with
  | nil => simp [AllNumbersItems]
  | cons v vs ih => simp [AllNumbersItems, ih]

theorem allNumbersFields_iff {P : ν → Prop} (fields : List (String × Json ν)) :
    AllNumbersFields P fields ↔ ∀ m ∈ fields, AllNumbers P m.2 := by
  induction fields with
  | nil => simp [AllNumbersFields]
  | cons m ms ih => simp [AllNumbersFields, ih]

theorem AllNumbers.mono {P Q : ν → Prop} {v : Json ν} (h : v.AllNumbers P)
    (hPQ : ∀ n, P n → Q n) : v.AllNumbers Q := by
  induction v using Json.induct with
  | null | bool | str => trivial
  | num n => exact hPQ n h
  | arr items ih =>
      have hitems := (allNumbersItems_iff items).mp h
      exact (allNumbersItems_iff items).mpr fun v hv => ih v hv (hitems v hv)
  | obj fields ih =>
      have hfields := (allNumbersFields_iff fields).mp h
      exact (allNumbersFields_iff fields).mpr fun m hm => ih m hm (hfields m hm)

-- To change the numbers first is to write them otherwise.
theorem pretty_map {μ : Type} (f : μ → ν) (level : Nat) (v : Json μ) :
    pretty number indent level (v.map f) = pretty (number ∘ f) indent level v := by
  induction v using Json.induct generalizing level with
  | null | num | str => rfl
  | bool b => cases b <;> rfl
  | arr items ih =>
      rw [map, pretty, pretty, prettyItems_eq, prettyItems_eq, mapItems_eq, List.map_map]
      congr 1
      exact List.map_congr_left fun v hv => ih v hv (level + 1)
  | obj fields ih =>
      rw [map, pretty, pretty, prettyFields_eq, prettyFields_eq, mapFields_eq, List.map_map]
      congr 1
      refine List.map_congr_left fun m hm => ?_
      rw [Function.comp_apply, ih m hm (level + 1)]

end Write

section Grammar

theorem newline_spaces (indent level : Nat) : Spaces (newline indent level) := by
  intro c hc
  rcases List.mem_cons.mp hc with rfl | hc
  · rfl
  · rw [List.eq_of_mem_replicate hc]
    rfl

-- The spaces behind a comma belong to the next line, those at the end to the last one.
theorem around_intercalate {lead tail : List Char} (hlead : Spaces lead) (htail : Spaces tail)
    {lines : List (List Char)} (hne : lines ≠ []) :
    ∃ texts, texts ≠ [] ∧ List.Forall₂ Around lines texts ∧
      lead ++ (',' :: lead).intercalate lines ++ tail = [','].intercalate texts := by
  induction lines with
  | nil => exact absurd rfl hne
  | cons l ls ih =>
      cases ls with
      | nil =>
          refine ⟨[lead ++ l ++ tail], by simp, ?_, by simp⟩
          exact .cons ⟨lead, tail, hlead, htail, rfl⟩ .nil
      | cons k ks =>
          obtain ⟨texts, hnonempty, haround, htexts⟩ := ih (by simp)
          refine ⟨(lead ++ l) :: texts, by simp, ?_, ?_⟩
          · exact .cons ⟨lead, [], hlead, Spaces.nil, by simp⟩ haround
          · obtain ⟨t, ts, rfl⟩ := List.exists_cons_of_ne_nil hnonempty
            rw [List.intercalate_cons_cons, List.intercalate_cons_cons, ← htexts]
            simp

theorem block_listed (indent level : Nat) (opening closing : Char) (lines : List (List Char)) :
    ∃ texts inner, List.Forall₂ Around lines texts ∧ Listed texts inner ∧
      block indent opening closing level lines = opening :: (inner ++ [closing]) := by
  cases lines with
  | nil => exact ⟨[], [], .nil, Or.inl ⟨rfl, Spaces.nil⟩, rfl⟩
  | cons l ls =>
      obtain ⟨texts, hne, haround, htexts⟩ := around_intercalate (newline_spaces indent (level + 1))
        (newline_spaces indent level) (List.cons_ne_nil l ls)
      exact ⟨texts, _, haround, Or.inr ⟨hne, rfl⟩, by rw [← htexts]; simp [block]⟩

variable {ν μ : Type} (number : ν → List Char) (indent : Nat) (read : Decimal → μ) (value : ν → μ)

-- The numbers are written as whole numbers that are read as what they stand for.
def WritesWhole (n : ν) : Prop :=
  ∃ k, number n = Nat.toDigits 10 k ∧ value n = whole read k

def writtenWhole (n : ν) (text : List Char) : Prop :=
  text = number n ∧ WritesWhole number read value n

theorem wholeNumbers_written : WholeNumbers (writtenWhole number read value) read value := by
  rintro n _ ⟨rfl, k, htext, hvalue⟩
  exact ⟨k, htext, hvalue⟩

variable {number read value}

-- The lines of a value are a text of it.
theorem pretty_denotes (v : Json ν) (hnumbers : v.AllNumbers (WritesWhole number read value))
    (level : Nat) :
    Denotes (writtenWhole number read value) v (pretty number indent level v) := by
  induction v using induct generalizing level with
  | null => exact rfl
  | bool b => cases b <;> exact rfl
  | num n => exact ⟨rfl, hnumbers⟩
  | str s => exact stringText_writeString s
  | arr items ih =>
      have hall := (allNumbersItems_iff items).mp hnumbers
      obtain ⟨texts, inner, haround, hlisted, hblock⟩ := block_listed indent level '[' ']'
        (items.map (pretty number indent (level + 1)))
      rw [List.forall₂_map_left_iff] at haround
      refine ⟨texts, inner, (denotesItems_iff _ items texts).mpr ?_, hlisted, ?_⟩
      · refine forall₂_imp_of_mem haround ?_
        exact fun v hv _ _ haround => ⟨_, ih v hv (hall v hv) (level + 1), haround⟩
      · rw [pretty, prettyItems_eq, hblock]
  | obj fields ih =>
      have hall := (allNumbersFields_iff fields).mp hnumbers
      obtain ⟨texts, inner, haround, hlisted, hblock⟩ := block_listed indent level '\x7b' '\x7d'
        (fields.map fun m => writeString m.1 ++ ':' :: ' ' :: pretty number indent (level + 1) m.2)
      rw [List.forall₂_map_left_iff] at haround
      refine ⟨texts, inner, (denotesFields_iff _ fields texts).mpr ?_, hlisted, ?_⟩
      · refine forall₂_imp_of_mem haround ?_
        rintro m hm _ _ ⟨before, after, hbefore, hafter, rfl⟩
        have hblank : Spaces [' '] := by
          intro c hc
          rw [List.mem_singleton.mp hc]
          rfl
        refine ⟨[' '] ++ pretty number indent (level + 1) m.2 ++ after, ?_,
          before ++ writeString m.1 ++ [], ?_, by simp⟩
        · exact ⟨_, ih m hm (hall m hm) (level + 1), [' '], after, hblank, hafter, rfl⟩
        · exact ⟨_, stringText_writeString m.1, before, [], hbefore, Spaces.nil, rfl⟩
      · rw [pretty, prettyFields_eq, hblock]

theorem parse_pretty (v : Json ν) (hnames : v.WellNamed)
    (hnumbers : v.AllNumbers (WritesWhole number read value)) {text : String}
    (htext : text.toList = pretty number indent 0 v) : parse read text = some (v.map value) := by
  have hdenotes := pretty_denotes indent v hnumbers 0
  rw [← htext] at hdenotes
  exact parse_of_denotes (wholeNumbers_written number read value) v hnames (Padded.of_core hdenotes)

end Grammar

end Tdb.Library.Json
