import Tdb.Library.Run

namespace Tdb.Library.Html

-- What a markup stands for. A run of characters is one text node.
inductive Node where
  | char (c : Char)
  | element (name : List Char) (attributes : List (List Char × List Char)) (children : List Node)

def text (chars : List Char) : List Node :=
  chars.map .char

-- The part of the language that a template is written in.
section Grammar

def isSpace (c : Char) : Bool :=
  c = ' ' || c = '\t' || c = '\n' || c = '\x0c'

-- Characters that a name is made of as they are.
def IsName (chars : List Char) : Prop :=
  ∀ c ∈ chars, c.toLower = c ∧ isSpace c = false ∧ c ≠ '=' ∧ c ≠ '/' ∧ c ≠ '>' ∧ c ≠ '\x00'

instance (chars : List Char) : Decidable (IsName chars) :=
  List.decidableBAll _ chars

def IsValue (chars : List Char) : Prop :=
  ∀ c ∈ chars, c ≠ '"' ∧ c ≠ '&' ∧ c ≠ '\x00'

instance (chars : List Char) : Decidable (IsValue chars) :=
  List.decidableBAll _ chars

-- Elements that may stand in one another, with a closing tag for each.
def ordinary : List (List Char) :=
  ["div".toList, "span".toList]

def attributeText (a : List Char × List Char) : List Char :=
  ' ' :: (a.1 ++ '=' :: '"' :: (a.2 ++ ['"']))

def openTag (name : List Char) (a : List Char × List Char) : List Char :=
  '<' :: (name ++ attributeText a ++ ['>'])

def closeTag (name : List Char) : List Char :=
  '<' :: '/' :: (name ++ ['>'])

-- References closed by a semicolon.
def references : List (List Char × Char) :=
  [("amp".toList, '&'), ("lt".toList, '<'), ("gt".toList, '>')]

-- A character that stands for itself.
def PlainChar (c : Char) : Prop :=
  c ≠ '&' ∧ c ≠ '<' ∧ c ≠ '\x00'

instance (c : Char) : Decidable (PlainChar c) :=
  inferInstanceAs (Decidable (_ ∧ _))

-- Before this character the mark begins neither a reference nor a tag.
def Bare (mark c : Char) : Prop :=
  PlainChar c ∧ (mark = '&' ∧ c.isAlphanum = false ∧ c ≠ '#' ∨
    mark = '<' ∧ c.isAlpha = false ∧ c ≠ '/' ∧ c ≠ '!' ∧ c ≠ '?')

-- A markup and the nodes that it stands for. No document holds a NUL.
inductive Denotes : List Char → List Node → Prop where
  | nil : Denotes [] []
  | append {left right : List Char} {nodes nodes' : List Node} :
      Denotes left nodes → Denotes right nodes' → Denotes (left ++ right) (nodes ++ nodes')
  | char {c : Char} : PlainChar c → Denotes [c] (text [c])
  | nul : Denotes ['\x00'] []
  | bare {mark c : Char} : Bare mark c → Denotes [mark, c] (text [mark, c])
  | reference {name : List Char} {c : Char} :
      (name, c) ∈ references → Denotes ('&' :: (name ++ [';'])) (text [c])
  | element {name inner : List Char} {a : List Char × List Char} {children : List Node} :
      name ∈ ordinary → a.1 ≠ [] → IsName a.1 → IsValue a.2 → Denotes inner children →
        Denotes (openTag name a ++ inner ++ closeTag name) [.element name [a] children]

-- A line ends with a line feed, however it was written.
def normalizeNewlines : List Char → List Char
  | [] => []
  | '\r' :: '\n' :: rest => '\n' :: normalizeNewlines rest
  | c :: rest => (if c = '\r' then '\n' else c) :: normalizeNewlines rest

-- A parser makes what the markup stands for. Nothing is said of any other markup.
def Reads (parse : String → List Node) : Prop :=
  ∀ markup nodes, Denotes (normalizeNewlines markup.toList) nodes → parse markup = nodes

end Grammar

section Texts

theorem Denotes.flatMap {α : Type*} {f : α → List Char} {g : α → List Node} {items : List α}
    (h : ∀ a ∈ items, Denotes (f a) (g a)) : Denotes (items.flatMap f) (items.flatMap g) := by
  induction items with
  | nil => exact .nil
  | cons a as ih =>
      rw [List.flatMap_cons, List.flatMap_cons]
      exact (h a (List.mem_cons_self ..)).append (ih fun b hb => h b (List.mem_cons_of_mem a hb))

def Plain (chars : List Char) : Prop :=
  ∀ c ∈ chars, PlainChar c

instance (chars : List Char) : Decidable (Plain chars) :=
  List.decidableBAll _ chars

theorem Plain.denotes {chars : List Char} (h : Plain chars) : Denotes chars (text chars) := by
  induction chars with
  | nil => exact .nil
  | cons c cs ih =>
      exact (Denotes.char (h c (List.mem_cons_self ..))).append
        (ih fun d hd => h d (List.mem_cons_of_mem c hd))

def escapeChar (c : Char) : List Char :=
  if c = '&' then "&amp;".toList
  else if c = '<' then "&lt;".toList
  else if c = '>' then "&gt;".toList
  else [c]

theorem denotes_escapeChar (c : Char) :
    Denotes (escapeChar c) (text (if c = '\x00' then [] else [c])) := by
  by_cases hamp : c = '&'
  · subst hamp
    exact .reference (show ("amp".toList, '&') ∈ references by decide)
  by_cases hless : c = '<'
  · subst hless
    exact .reference (show ("lt".toList, '<') ∈ references by decide)
  by_cases hgreater : c = '>'
  · subst hgreater
    exact .reference (show ("gt".toList, '>') ∈ references by decide)
  unfold escapeChar
  rw [if_neg hamp, if_neg hless, if_neg hgreater]
  by_cases hnul : c = '\x00'
  · subst hnul
    exact .nul
  · rw [if_neg hnul]
    exact .char ⟨hamp, hless, hnul⟩

-- Escaped text is text, whatever is in it.
theorem denotes_escape (chars : List Char) :
    Denotes (chars.flatMap escapeChar) (text (chars.filter fun c => c ≠ '\x00')) := by
  induction chars with
  | nil => exact .nil
  | cons c cs ih =>
      have hnodes : text ((c :: cs).filter fun c => c ≠ '\x00') =
          text (if c = '\x00' then [] else [c]) ++ text (cs.filter fun c => c ≠ '\x00') := by
        by_cases hnul : c = '\x00' <;> simp [hnul, text]
      rw [hnodes, List.flatMap_cons]
      exact (denotes_escapeChar c).append ih

-- Between two quotes no character begins a tag or a reference.
theorem denotes_quoted {c : Char} (hnul : c ≠ '\x00') :
    Denotes ['\'', c, '\''] (text ['\'', c, '\'']) := by
  have hquote : PlainChar '\'' := by decide
  have hmark : Denotes [c, '\''] (text [c, '\'']) := by
    by_cases hamp : c = '&'
    · exact .bare ⟨hquote, Or.inl ⟨hamp, by decide⟩⟩
    by_cases hless : c = '<'
    · exact .bare ⟨hquote, Or.inr ⟨hless, by decide⟩⟩
    · exact (Denotes.char ⟨hamp, hless, hnul⟩).append (.char hquote)
  exact (Denotes.char hquote).append hmark

end Texts

section Newlines

theorem normalizeNewlines_append_of_notMem {left : List Char} (h : '\r' ∉ left)
    (right : List Char) :
    normalizeNewlines (left ++ right) = left ++ normalizeNewlines right := by
  induction left with
  | nil => rfl
  | cons c cs ih =>
      have hc : c ≠ '\r' := fun hc => h (hc ▸ List.mem_cons_self ..)
      have hrest := ih fun hmem => h (List.mem_cons_of_mem c hmem)
      rw [List.cons_append, normalizeNewlines, hrest, if_neg hc, List.cons_append]
      rintro rest rfl
      exact absurd rfl hc

theorem normalizeNewlines_eq_self {chars : List Char} (h : '\r' ∉ chars) :
    normalizeNewlines chars = chars := by
  have hwhole := normalizeNewlines_append_of_notMem h []
  rwa [List.append_nil, normalizeNewlines, List.append_nil] at hwhole

-- What does not begin with a line feed is normalized by itself.
theorem normalizeNewlines_append {left right : List Char} (h : right.head? ≠ some '\n') :
    normalizeNewlines (left ++ right) = normalizeNewlines left ++ normalizeNewlines right := by
  induction left using normalizeNewlines.induct with
  | case1 => rfl
  | case2 rest ih => simp only [List.cons_append, normalizeNewlines, ih]
  | case3 c rest hno ih =>
      rw [List.cons_append, normalizeNewlines, normalizeNewlines, ih, List.cons_append]
      · exact hno
      · rintro rest' hc hrest
        cases rest with
        | nil =>
            rw [List.nil_append] at hrest
            rw [hrest] at h
            exact h rfl
        | cons d ds =>
            obtain ⟨rfl, _⟩ := List.cons.inj hrest
            exact hno ds hc rfl

theorem escapeChar_cases (c : Char) :
    (∃ rest, escapeChar c = '&' :: rest ∧ '\r' ∉ escapeChar c) ∨ escapeChar c = [c] := by
  unfold escapeChar
  by_cases hamp : c = '&'
  · rw [if_pos hamp]
    exact Or.inl ⟨_, rfl, by decide⟩
  by_cases hless : c = '<'
  · rw [if_neg hamp, if_pos hless]
    exact Or.inl ⟨_, rfl, by decide⟩
  by_cases hgreater : c = '>'
  · rw [if_neg hamp, if_neg hless, if_pos hgreater]
    exact Or.inl ⟨_, rfl, by decide⟩
  · rw [if_neg hamp, if_neg hless, if_neg hgreater]
    exact Or.inr rfl

theorem return_notMem_escapeChar {c : Char} (hc : c ≠ '\r') : '\r' ∉ escapeChar c := by
  rcases escapeChar_cases c with ⟨_, _, hno⟩ | hself
  · exact hno
  · rw [hself]
    simpa using hc.symm

theorem head?_escape {chars : List Char} (h : chars.head? ≠ some '\n') :
    (chars.flatMap escapeChar).head? ≠ some '\n' := by
  cases chars with
  | nil => exact h
  | cons c cs =>
      rw [List.flatMap_cons]
      rcases escapeChar_cases c with ⟨rest, hescaped, _⟩ | hself
      · rw [hescaped, List.cons_append, List.head?_cons, Ne, Option.some.injEq]
        decide
      · rw [hself]
        exact h

-- No newline comes or goes by escaping.
theorem normalizeNewlines_escape (chars : List Char) :
    normalizeNewlines (chars.flatMap escapeChar) =
      (normalizeNewlines chars).flatMap escapeChar := by
  induction chars using normalizeNewlines.induct with
  | case1 => rfl
  | case2 rest ih =>
      rw [normalizeNewlines, List.flatMap_cons, List.flatMap_cons, List.flatMap_cons, ← ih]
      rfl
  | case3 c rest hno ih =>
      rw [normalizeNewlines, List.flatMap_cons, List.flatMap_cons, ← ih]
      · by_cases hc : c = '\r'
        · subst hc
          have hhead : (rest.flatMap escapeChar).head? ≠ some '\n' := by
            apply head?_escape
            cases rest with
            | nil => simp
            | cons d ds =>
                intro hd
                exact hno ds rfl (by rw [Option.some.inj hd])
          have hreturn : normalizeNewlines (['\r'] ++ rest.flatMap escapeChar) = _ :=
            normalizeNewlines_append hhead
          exact hreturn
        · rw [if_neg hc]
          exact normalizeNewlines_append_of_notMem (return_notMem_escapeChar hc) _
      · exact hno

end Newlines

-- One reader of this part of the language: what it stands for is unambiguous.
section Reader

structure Tag where
  name : List Char
  closing : Bool
  attributes : List (List Char × List Char) := []

-- Where in the markup the reader is. `beyond` is what it does not read: comments, unquoted
-- values, references in values, elements that end by themselves.
inductive Mode where
  | data
  | reference (name : List Char)
  | tagOpen
  | endTagOpen
  | tagName (tag : Tag)
  | beforeAttribute (tag : Tag)
  | attributeName (tag : Tag) (name : List Char)
  | beforeValue (tag : Tag) (name : List Char)
  | value (tag : Tag) (name text : List Char)
  | afterValue (tag : Tag)
  | beyond

-- The children of the innermost open element as far as they are read, and for every open element
-- what was read before it.
structure State where
  mode : Mode := .data
  content : List Node := []
  opened : List (Tag × List Node) := []

namespace State

def goTo (s : State) (mode : Mode) : State :=
  { s with mode }

def addText (s : State) (c : Char) : State :=
  { s with mode := .data, content := if c = '\x00' then s.content else s.content ++ [.char c] }

def inData (s : State) (c : Char) : State :=
  if c = '&' then s.goTo (.reference [])
  else if c = '<' then s.goTo .tagOpen
  else s.addText c

def addTag (s : State) (tag : Tag) : State :=
  if tag.closing then
    match s.opened with
    | [] => s.goTo .beyond
    | (opening, before) :: opened =>
        if opening.name = tag.name then
          { mode := .data
            content := before ++ [.element opening.name opening.attributes s.content]
            opened }
        else
          s.goTo .beyond
  else if tag.name ∈ ordinary then
    { mode := .data, content := [], opened := (tag, s.content) :: s.opened }
  else
    s.goTo .beyond

end State

open State

def step (s : State) (c : Char) : State :=
  match s.mode with
  | .data => s.inData c
  | .reference name =>
      if c.isAlphanum then
        s.goTo (.reference (name ++ [c]))
      else if name = [] ∧ c ≠ '#' then
        (s.addText '&').inData c
      else if c = ';' then
        match references.lookup name with
        | some d => s.addText d
        | none => s.goTo .beyond
      else
        s.goTo .beyond
  | .tagOpen =>
      if c.isAlpha then s.goTo (.tagName { name := [c.toLower], closing := false })
      else if c = '/' then s.goTo .endTagOpen
      else if c = '!' ∨ c = '?' then s.goTo .beyond
      else (s.addText '<').inData c
  | .endTagOpen =>
      if c.isAlpha then s.goTo (.tagName { name := [c.toLower], closing := true })
      else s.goTo .beyond
  | .tagName tag =>
      if isSpace c then s.goTo (.beforeAttribute tag)
      else if c = '>' then s.addTag tag
      else if c = '/' ∨ c = '\x00' then s.goTo .beyond
      else s.goTo (.tagName { tag with name := tag.name ++ [c.toLower] })
  | .beforeAttribute tag =>
      if isSpace c then s
      else if c = '>' then s.addTag tag
      else if c = '/' ∨ c = '=' ∨ c = '\x00' then s.goTo .beyond
      else s.goTo (.attributeName tag [c.toLower])
  | .attributeName tag name =>
      if c = '=' then s.goTo (.beforeValue tag name)
      else if isSpace c ∨ c = '/' ∨ c = '>' ∨ c = '\x00' then s.goTo .beyond
      else s.goTo (.attributeName tag (name ++ [c.toLower]))
  | .beforeValue tag name =>
      if isSpace c then s
      else if c = '"' then s.goTo (.value tag name [])
      else s.goTo .beyond
  | .value tag name text =>
      if c = '"' then
        if name ∈ tag.attributes.map Prod.fst then s.goTo .beyond
        else s.goTo (.afterValue { tag with attributes := tag.attributes ++ [(name, text)] })
      else if c = '&' ∨ c = '\x00' then s.goTo .beyond
      else s.goTo (.value tag name (text ++ [c]))
  | .afterValue tag =>
      if isSpace c then s.goTo (.beforeAttribute tag)
      else if c = '>' then s.addTag tag
      else s.goTo .beyond
  | .beyond => s

def read (markup : String) : List Node :=
  match run step {} (normalizeNewlines markup.toList) with
  | { mode := .data, content, opened := [] } => content
  | _ => []

-- The markup adds these nodes wherever text may stand.
def Stands (markup : List Char) (nodes : List Node) : Prop :=
  ∀ content opened, run step { mode := .data, content, opened } markup =
    { mode := .data, content := content ++ nodes, opened }

theorem Stands.append {left right : List Char} {nodes nodes' : List Node}
    (hleft : Stands left nodes) (hright : Stands right nodes') :
    Stands (left ++ right) (nodes ++ nodes') := by
  intro content opened
  rw [run_append, hleft, hright, List.append_assoc]

theorem stands_char {c : Char} (h : PlainChar c) : Stands [c] (text [c]) := by
  intro content opened
  obtain ⟨hamp, hless, hnul⟩ := h
  rw [run_cons, run_nil]
  simp [step, inData, addText, hamp, hless, hnul, text]

theorem stands_nul : Stands ['\x00'] [] := by
  intro content opened
  exact congrArg (fun nodes => State.mk .data nodes opened) (List.append_nil content).symm

theorem stands_bare {mark c : Char} (h : Bare mark c) : Stands [mark, c] (text [mark, c]) := by
  intro content opened
  obtain ⟨⟨hamp, hless, hnul⟩, ⟨rfl, halnum, hhash⟩ | ⟨rfl, halpha, hslash, hbang, hquestion⟩⟩ := h
  · have hbegin : step { mode := .data, content, opened } '&' =
        { mode := .reference [], content, opened } := rfl
    rw [run_cons, hbegin, run_cons, run_nil]
    simp [step, inData, addText, halnum, hhash, hamp, hless, hnul, text]
  · have hbegin : step { mode := .data, content, opened } '<' =
        { mode := .tagOpen, content, opened } := rfl
    rw [run_cons, hbegin, run_cons, run_nil]
    simp [step, inData, addText, halpha, hslash, hbang, hquestion, hamp, hless, hnul, text]

theorem stands_reference {name : List Char} {c : Char} (h : (name, c) ∈ references) :
    Stands ('&' :: (name ++ [';'])) (text [c]) := by
  simp only [references, List.mem_cons, List.not_mem_nil, or_false, Prod.mk.injEq] at h
  rcases h with ⟨rfl, rfl⟩ | ⟨rfl, rfl⟩ | ⟨rfl, rfl⟩ <;> exact fun content opened => rfl

section Tags

variable {tag : Tag} {content : List Node} {opened : List (Tag × List Node)}

theorem run_attributeName {chars : List Char} (h : IsName chars) (name : List Char) :
    run step { mode := .attributeName tag name, content, opened } chars =
      { mode := .attributeName tag (name ++ chars), content, opened } := by
  induction chars generalizing name with
  | nil => simp
  | cons c cs ih =>
      obtain ⟨hlower, hspace, hequals, hslash, hend, hnul⟩ := h c (List.mem_cons_self ..)
      have hstep : step { mode := .attributeName tag name, content, opened } c =
          { mode := .attributeName tag (name ++ [c]), content, opened } := by
        simp [step, goTo, hlower, hspace, hequals, hslash, hend, hnul]
      rw [run_cons, hstep, ih fun d hd => h d (List.mem_cons_of_mem c hd), List.append_assoc,
        List.singleton_append]

theorem run_value {name chars : List Char} (h : IsValue chars) (read : List Char) :
    run step { mode := .value tag name read, content, opened } chars =
      { mode := .value tag name (read ++ chars), content, opened } := by
  induction chars generalizing read with
  | nil => simp
  | cons c cs ih =>
      obtain ⟨hquote, hamp, hnul⟩ := h c (List.mem_cons_self ..)
      have hstep : step { mode := .value tag name read, content, opened } c =
          { mode := .value tag name (read ++ [c]), content, opened } := by
        simp [step, goTo, hquote, hamp, hnul]
      rw [run_cons, hstep, ih fun d hd => h d (List.mem_cons_of_mem c hd), List.append_assoc,
        List.singleton_append]

-- Attributes are read behind the name of a tag.
theorem run_attribute {a : List Char × List Char} (hne : a.1 ≠ []) (hname : IsName a.1)
    (hvalue : IsValue a.2) (name : List Char) :
    run step { mode := .tagName { name, closing := false }, content, opened } (attributeText a) =
      { mode := .afterValue { name, closing := false, attributes := [a] }, content, opened } := by
  obtain ⟨key, value⟩ := a
  obtain ⟨c, cs, rfl⟩ := List.exists_cons_of_ne_nil hne
  obtain ⟨hlower, hspace, hequals, hslash, hend, hnul⟩ := hname c (List.mem_cons_self ..)
  have hfirst : run step { mode := .tagName { name, closing := false }, content, opened } [' ', c] =
      { mode := .attributeName { name, closing := false } [c], content, opened } := by
    have hblank : step { mode := .tagName { name, closing := false }, content, opened } ' ' =
        { mode := .beforeAttribute { name, closing := false }, content, opened } := rfl
    rw [run_cons, hblank]
    simp [step, goTo, hlower, hspace, hequals, hslash, hend, hnul]
  have hchars : attributeText (c :: cs, value) =
      [' ', c] ++ (cs ++ (['=', '"'] ++ (value ++ ['"']))) := by
    simp [attributeText]
  rw [hchars, run_append, hfirst, run_append,
    run_attributeName (fun d hd => hname d (List.mem_cons_of_mem c hd)), run_append]
  change run step { mode := .value { name, closing := false } (c :: cs) [], content, opened }
    (value ++ ['"']) = _
  rw [run_append, run_value hvalue]
  rfl

-- An element stands for itself with what its markup stands for inside.
theorem Stands.element {inner : List Char} {nodes : List Node} (h : Stands inner nodes)
    {name : List Char} (hordinary : name ∈ ordinary) {a : List Char × List Char} (hne : a.1 ≠ [])
    (hname : IsName a.1) (hvalue : IsValue a.2) :
    Stands (openTag name a ++ inner ++ closeTag name) [.element name [a] nodes] := by
  intro content opened
  have hbegin : run step { mode := .data, content, opened } ('<' :: name) =
      { mode := .tagName { name, closing := false }, content, opened } := by
    simp only [ordinary, List.mem_cons, List.not_mem_nil, or_false] at hordinary
    rcases hordinary with rfl | rfl <;> rfl
  have hopen : run step { mode := .data, content, opened } (openTag name a) =
      { mode := .data
        content := []
        opened := ({ name, closing := false, attributes := [a] }, content) :: opened } := by
    have hchars : openTag name a = '<' :: name ++ (attributeText a ++ ['>']) := by
      simp [openTag]
    rw [hchars, run_append, hbegin, run_append, run_attribute hne hname hvalue]
    simp [step, isSpace, addTag, hordinary]
  have hclose : ∀ content before, run step
      { mode := .data
        content
        opened := ({ name, closing := false, attributes := [a] }, before) :: opened }
      (closeTag name) =
        { mode := .data, content := before ++ [.element name [a] content], opened } := by
    intro content before
    simp only [ordinary, List.mem_cons, List.not_mem_nil, or_false] at hordinary
    rcases hordinary with rfl | rfl <;> rfl
  rw [run_append, run_append, hopen, h, hclose, List.nil_append]

end Tags

theorem Denotes.stands {markup : List Char} {nodes : List Node} (h : Denotes markup nodes) :
    Stands markup nodes := by
  induction h with
  | nil =>
      intro content opened
      rw [run_nil, List.append_nil]
  | append _ _ ihleft ihright => exact ihleft.append ihright
  | char hc => exact stands_char hc
  | nul => exact stands_nul
  | bare hbare => exact stands_bare hbare
  | reference hname => exact stands_reference hname
  | element hordinary hne hname hvalue _ ih => exact ih.element hordinary hne hname hvalue

theorem reads_read : Reads read := by
  intro markup nodes h
  have hrun := h.stands [] []
  rw [List.nil_append] at hrun
  unfold read
  rw [show ({} : State) = { mode := .data, content := [], opened := [] } from rfl, hrun]

end Reader

end Tdb.Library.Html
