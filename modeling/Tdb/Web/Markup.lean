import Tdb.Library.Html
import Tdb.Web.Export
import Tdb.Web.Screen

namespace Tdb.Web

open Tdb.Library Tdb.Storage Tdb.Tracer Tdb.TraceLoop Viewer

-- The texts that the script puts into `innerHTML`.
section Templates

-- `text.replace(/c/g, by)`
def replaceAll (c : Char) (by' : String) (text : String) : String :=
  String.ofList (text.toList.flatMap fun d => if d = c then by'.toList else [d])

def escHtml (text : String) : String :=
  replaceAll '>' "&gt;" (replaceAll '<' "&lt;" (replaceAll '&' "&amp;" text))

def rowHtml (otherToString : ℚ → String) (content : RowContent) : String :=
  "<span class=\"step-num\">#" ++ numberToString otherToString content.step ++
    "</span><span class=\"step-addr\">" ++ content.addr ++
    "</span><span class=\"step-insn\">" ++ escHtml content.insn ++ "</span>"

def registerHtml (r : Register) : String :=
  "<div class=\"reg" ++ (if r.changed then " reg-changed-anim" else "") ++
    "\"><span class=\"reg-name\">" ++ r.name ++ "</span><span class=\"" ++
    (if r.changed then "reg-val reg-changed" else "reg-val") ++ "\">" ++ r.text ++ "</span></div>"

def registersHtml (registers : List Register) : String :=
  "<div class=\"reg-grid\">" ++ String.join (registers.map registerHtml) ++ "</div>"

def memHtml (m : MemRow) : String :=
  "<div class=\"mem\"><div class=\"mem-addr\">" ++ m.addr ++
    "</div><div class=\"mem-change\"><span class=\"mem-old\">" ++ m.oldVal ++
    "</span><span style=\"color:#333\">-></span><span class=\"mem-new\">" ++ m.newVal ++
    "</span><span style=\"color:#333\">'" ++ String.singleton m.char ++ "'</span></div></div>"

def memoryHtml (memory : List MemRow) : String :=
  if memory.isEmpty then "<div class=\"empty\">no changes</div>"
  else String.join (memory.map memHtml)

end Templates

-- What these texts are to make on the page.
section Nodes

open Html

def box (name key value : String) (children : List Node) : Node :=
  .element name.toList [(key.toList, value.toList)] children

def textBox (name cls content : String) : Node :=
  box name "class" cls (text content.toList)

-- A text as an element holds it.
def shown (content : String) : String :=
  String.ofList ((normalizeNewlines content.toList).filter fun c => c ≠ '\x00')

def rowNodes (otherToString : ℚ → String) (content : RowContent) : List Node :=
  [textBox "span" "step-num" ("#" ++ numberToString otherToString content.step),
    textBox "span" "step-addr" content.addr, textBox "span" "step-insn" (shown content.insn)]

def registerNode (r : Register) : Node :=
  box "div" "class" (if r.changed then "reg reg-changed-anim" else "reg")
    [textBox "span" "reg-name" r.name,
      textBox "span" (if r.changed then "reg-val reg-changed" else "reg-val") r.text]

def registersNodes (registers : List Register) : List Node :=
  [box "div" "class" "reg-grid" (registers.map registerNode)]

def memNode (m : MemRow) : Node :=
  box "div" "class" "mem"
    [textBox "div" "mem-addr" m.addr,
      box "div" "class" "mem-change"
        [textBox "span" "mem-old" m.oldVal, box "span" "style" "color:#333" (text "->".toList),
          textBox "span" "mem-new" m.newVal,
          box "span" "style" "color:#333" (text ['\'', m.char, '\''])]]

def memoryNodes (memory : List MemRow) : List Node :=
  if memory.isEmpty then [textBox "div" "empty" "no changes"] else memory.map memNode

end Nodes

section Pieces

open Html

def boxText (name key value : String) (inner : List Char) : List Char :=
  openTag name.toList (key.toList, value.toList) ++ inner ++ closeTag name.toList

-- The names and the value of a tag are read as they stand.
def Named (name key value : String) : Prop :=
  (name.toList ∈ ordinary ∧ key.toList ≠ [] ∧ IsName key.toList ∧ IsValue value.toList) ∧
    '\r' ∉ openTag name.toList (key.toList, value.toList) ∧ '\r' ∉ closeTag name.toList

instance (name key value : String) : Decidable (Named name key value) :=
  inferInstanceAs (Decidable (_ ∧ _))

theorem denotes_box {inner : List Char} {children : List Node} (h : Denotes inner children)
    {name key value : String} (hnamed : Named name key value) :
    Denotes (boxText name key value inner) [box name key value children] := by
  obtain ⟨⟨hordinary, hne, hname, hvalue⟩, _⟩ := hnamed
  exact .element hordinary hne hname hvalue h

-- A markup of one line that stands for these nodes.
def Makes (markup : List Char) (nodes : List Node) : Prop :=
  '\r' ∉ markup ∧ Denotes markup nodes

theorem Makes.append {left right : List Char} {nodes nodes' : List Node}
    (hleft : Makes left nodes) (hright : Makes right nodes') :
    Makes (left ++ right) (nodes ++ nodes') :=
  ⟨fun h => (List.mem_append.mp h).elim hleft.1 hright.1, hleft.2.append hright.2⟩

theorem Makes.map {α : Type} {f : α → List Char} {g : α → Node} {items : List α}
    (h : ∀ a ∈ items, Makes (f a) [g a]) : Makes (items.flatMap f) (items.map g) := by
  constructor
  · intro hmem
    obtain ⟨a, ha, hreturn⟩ := List.mem_flatMap.mp hmem
    exact (h a ha).1 hreturn
  · rw [List.map_eq_flatMap]
    exact .flatMap fun a ha => (h a ha).2

theorem Makes.box {inner : List Char} {children : List Node} (h : Makes inner children)
    {name key value : String} (hnamed : Named name key value) :
    Makes (boxText name key value inner) [Web.box name key value children] := by
  refine ⟨fun hmem => ?_, denotes_box h.2 hnamed⟩
  rcases List.mem_append.mp hmem with hmem | hmem
  · exact (List.mem_append.mp hmem).elim hnamed.2.1 h.1
  · exact hnamed.2.2 hmem

theorem Makes.reads {parse : String → List Node} (hparse : Reads parse) {markup : String}
    {nodes : List Node} (h : Makes markup.toList nodes) : parse markup = nodes := by
  apply hparse
  rw [normalizeNewlines_eq_self h.1]
  exact h.2

-- Texts of digits and letters.
def Alphanumeric (content : String) : Prop :=
  ∀ c ∈ content.toList, c.isAlphanum = true

instance (content : String) : Decidable (Alphanumeric content) :=
  List.decidableBAll (fun c : Char => c.isAlphanum = true) content.toList

theorem ne_of_isAlphanum {c d : Char} (hc : c.isAlphanum = true) (hd : d.isAlphanum = false) :
    c ≠ d := by
  rintro rfl
  rw [hd] at hc
  cases hc

theorem Alphanumeric.append {left right : String} (hleft : Alphanumeric left)
    (hright : Alphanumeric right) : Alphanumeric (left ++ right) := by
  unfold Alphanumeric
  rw [String.toList_append]
  exact List.forall_mem_append.mpr ⟨hleft, hright⟩

theorem Alphanumeric.makes {content : String} (h : Alphanumeric content) :
    Makes content.toList (text content.toList) := by
  have hne {c d : Char} (hc : c ∈ content.toList) (hd : d.isAlphanum = false) : c ≠ d :=
    ne_of_isAlphanum (h c hc) hd
  refine ⟨fun hmem => hne hmem rfl rfl, Plain.denotes fun c hc => ?_⟩
  exact ⟨hne hc rfl, hne hc rfl, hne hc rfl⟩

-- The ampersand goes first, so nothing is escaped twice.
theorem escHtml_toList (content : String) :
    (escHtml content).toList = content.toList.flatMap escapeChar := by
  unfold escHtml replaceAll
  simp only [String.toList_ofList, List.flatMap_assoc]
  refine List.flatMap_congr fun c _ => ?_
  by_cases hamp : c = '&'
  · subst hamp
    rfl
  by_cases hless : c = '<'
  · subst hless
    rfl
  by_cases hgreater : c = '>'
  · subst hgreater
    rfl
  · simp [escapeChar, hamp, hless, hgreater]

end Pieces

section Rows

open Html

variable {parse : String → List Node} {otherToString : ℚ → String} {content : RowContent}

theorem rowHtml_toList :
    (rowHtml otherToString content).toList =
      boxText "span" "class" "step-num"
          ("#" ++ numberToString otherToString content.step).toList ++
        boxText "span" "class" "step-addr" content.addr.toList ++
        boxText "span" "class" "step-insn" (content.insn.toList.flatMap escapeChar) := by
  unfold rowHtml boxText openTag closeTag attributeText
  simp only [String.toList_append, escHtml_toList, List.append_assoc, List.cons_append]
  rfl

theorem normalizeNewlines_boxText {name key value : String} (hnamed : Named name key value)
    (chars : List Char) :
    normalizeNewlines (boxText name key value (chars.flatMap escapeChar)) =
      boxText name key value ((normalizeNewlines chars).flatMap escapeChar) := by
  have hclose : (closeTag name.toList).head? ≠ some '\n' := show some '<' ≠ some '\n' by decide
  unfold boxText
  rw [List.append_assoc, normalizeNewlines_append_of_notMem hnamed.2.1,
    normalizeNewlines_append hclose, normalizeNewlines_escape,
    normalizeNewlines_eq_self hnamed.2.2, List.append_assoc]

-- A row shows the text of its instruction and nothing else comes of it.
theorem parse_rowHtml (hparse : Reads parse)
    (hstep : Alphanumeric (numberToString otherToString content.step))
    (haddr : Alphanumeric content.addr) :
    parse (rowHtml otherToString content) = rowNodes otherToString content := by
  have hnumber : Makes ("#" ++ numberToString otherToString content.step).toList
      (text ("#" ++ numberToString otherToString content.step).toList) := by
    have hsign : Makes ['#'] (text ['#']) := ⟨by decide, .char (by decide)⟩
    rw [String.toList_append]
    exact hsign.append hstep.makes
  have hfront := (hnumber.box (show Named "span" "class" "step-num" by decide)).append
    (haddr.makes.box (show Named "span" "class" "step-addr" by decide))
  have hinsn : Named "span" "class" "step-insn" := by decide
  apply hparse
  rw [rowHtml_toList, normalizeNewlines_append_of_notMem hfront.1, normalizeNewlines_boxText hinsn]
  have hescaped := denotes_box (denotes_escape (normalizeNewlines content.insn.toList)) hinsn
  have hrow := hfront.2.append hescaped
  unfold rowNodes textBox shown
  rw [String.toList_ofList]
  exact hrow

end Rows

section Panels

open Html

variable {parse : String → List Node}

theorem registerHtml_toList (r : Register) :
    (registerHtml r).toList =
      boxText "div" "class" (if r.changed then "reg reg-changed-anim" else "reg")
        (boxText "span" "class" "reg-name" r.name.toList ++
          boxText "span" "class" (if r.changed then "reg-val reg-changed" else "reg-val")
            r.text.toList) := by
  unfold registerHtml boxText openTag closeTag attributeText
  simp only [String.toList_append, List.append_assoc, List.cons_append]
  cases r.changed <;> rfl

theorem registersHtml_toList (registers : List Register) :
    (registersHtml registers).toList =
      boxText "div" "class" "reg-grid"
        (registers.flatMap fun r => (registerHtml r).toList) := by
  unfold registersHtml boxText openTag closeTag attributeText
  simp only [String.toList_append, String.toList_join, List.flatMap_map, List.append_assoc,
    List.cons_append]
  rfl

theorem parse_registersHtml (hparse : Reads parse) {registers : List Register}
    (h : ∀ r ∈ registers, Alphanumeric r.name ∧ Alphanumeric r.text) :
    parse (registersHtml registers) = registersNodes registers := by
  have hrow : ∀ r ∈ registers, Makes (registerHtml r).toList [registerNode r] := by
    intro r hr
    obtain ⟨hname, htext⟩ := h r hr
    have hpair := (hname.makes.box (show Named "span" "class" "reg-name" by decide)).append
      (htext.makes.box (show Named "span" "class"
        (if r.changed then "reg-val reg-changed" else "reg-val") by cases r.changed <;> decide))
    rw [registerHtml_toList]
    exact hpair.box (by cases r.changed <;> decide)
  apply Makes.reads hparse
  rw [registersHtml_toList]
  exact (Makes.map hrow).box (by decide)

set_option maxRecDepth 2000 in
theorem memHtml_toList (m : MemRow) :
    (memHtml m).toList =
      boxText "div" "class" "mem"
        (boxText "div" "class" "mem-addr" m.addr.toList ++
          boxText "div" "class" "mem-change"
            (boxText "span" "class" "mem-old" m.oldVal.toList ++
              boxText "span" "style" "color:#333" "->".toList ++
              boxText "span" "class" "mem-new" m.newVal.toList ++
              boxText "span" "style" "color:#333" ['\'', m.char, '\''])) := by
  unfold memHtml boxText openTag closeTag attributeText
  simp only [String.toList_append, String.toList_singleton, List.append_assoc, List.cons_append]
  rfl

-- The byte of a change is not escaped, but the quotes around it keep it from beginning anything.
theorem parse_memoryHtml (hparse : Reads parse) {memory : List MemRow}
    (h : ∀ m ∈ memory, Alphanumeric m.addr ∧ Alphanumeric m.oldVal ∧ Alphanumeric m.newVal ∧
      m.char ≠ '\x00' ∧ m.char ≠ '\r') :
    parse (memoryHtml memory) = memoryNodes memory := by
  have hrow : ∀ m ∈ memory, Makes (memHtml m).toList [memNode m] := by
    intro m hm
    obtain ⟨haddr, hold, hnew, hnul, hreturn⟩ := h m hm
    have harrow : Makes "->".toList (text "->".toList) := ⟨by decide, Plain.denotes (by decide)⟩
    have hchar : Makes ['\'', m.char, '\''] (text ['\'', m.char, '\'']) :=
      ⟨by simpa using hreturn.symm, denotes_quoted hnul⟩
    have hstyle : Named "span" "style" "color:#333" := by decide
    have hchange := (((hold.makes.box (show Named "span" "class" "mem-old" by decide)).append
      (harrow.box hstyle)).append (hnew.makes.box (show Named "span" "class" "mem-new" by decide))
      ).append (hchar.box hstyle)
    rw [memHtml_toList]
    exact ((haddr.makes.box (show Named "div" "class" "mem-addr" by decide)).append
      (hchange.box (show Named "div" "class" "mem-change" by decide))).box (by decide)
  unfold memoryHtml memoryNodes
  split
  · have hwords : Makes "no changes".toList (text "no changes".toList) :=
      ⟨by decide, Plain.denotes (by decide)⟩
    have hempty : Makes "<div class=\"empty\">no changes</div>".toList
        [textBox "div" "empty" "no changes"] :=
      hwords.box (show Named "div" "class" "empty" by decide)
    exact hempty.reads hparse
  · apply Makes.reads hparse
    rw [String.toList_join, List.flatMap_map]
    exact Makes.map hrow

end Panels

section Texts

variable (browser : Browser)

theorem isAlphanum_of_isDigit {c : Char} (h : c.isDigit = true) : c.isAlphanum = true := by
  unfold Char.isAlphanum
  rw [h, Bool.or_true]

theorem alphanumeric_zeros_append {chars : List Char} (h : ∀ c ∈ chars, c.isAlphanum = true)
    (k : Nat) : Alphanumeric (String.ofList (List.replicate k '0' ++ chars)) := by
  intro c hc
  rw [String.toList_ofList] at hc
  rcases List.mem_append.mp hc with hzero | hc
  · rw [List.eq_of_mem_replicate hzero]
    rfl
  · exact h c hc

theorem toDigits_isAlphanum {n : Nat} {c : Char} (h : c ∈ Nat.toDigits 16 n) :
    c.isAlphanum = true ∧ c.toUpper.isAlphanum = true := by
  obtain ⟨d, hd, rfl⟩ := Hex.exists_of_mem_toDigits h
  interval_cases d <;> decide

theorem numberToString_alphanumeric (otherToString : ℚ → String) {n : Nat} (h : n < 2 ^ 64) :
    Alphanumeric (numberToString otherToString (.ofNat n)) := by
  obtain ⟨k, htext, _⟩ := numberToString_ofNat otherToString h
  intro c hc
  rw [htext, String.toList_ofList] at hc
  exact isAlphanum_of_isDigit (Nat.isDigit_of_mem_toDigits (by decide) (by decide) hc)

theorem numberToString16_ofNat {n : Nat} (h : n < 2 ^ 64) :
    ∃ r, numberToString16 browser (.ofNat n) = String.ofList (Nat.toDigits 16 r) := by
  obtain ⟨r, hr, hround, _⟩ := Double.ofNat_eq_finite h.le (by norm_num)
  refine ⟨r, ?_⟩
  rw [hround]
  simp [numberToString16]

theorem digits16_alphanumeric {n : Nat} (h : n < 2 ^ 64) :
    Alphanumeric (digits16 browser (.ofNat n)) := by
  obtain ⟨r, htext⟩ := numberToString16_ofNat browser h
  unfold digits16
  rw [htext, toUpperCase_toDigits, padStart_toDigits]
  refine alphanumeric_zeros_append (fun c hc => ?_) _
  obtain ⟨d, hd, rfl⟩ := List.mem_map.mp hc
  exact (toDigits_isAlphanum hd).2

theorem padStart_alphanumeric {n : Nat} (h : n < 2 ^ 64) (width : Nat) :
    Alphanumeric (padStart (numberToString16 browser (.ofNat n)) width) := by
  obtain ⟨r, htext⟩ := numberToString16_ofNat browser h
  rw [htext, padStart_ascii fun c hc => (Hex.toDigits_ascii hc).1]
  exact alphanumeric_zeros_append (fun c hc => (toDigits_isAlphanum hc).1) _

theorem hexByte_alphanumeric (b : UInt8) : Alphanumeric (hexByte b) := by
  unfold hexByte
  rw [padStart_ascii fun c hc => (Hex.toDigits_ascii hc).1]
  exact alphanumeric_zeros_append (fun c hc => (toDigits_isAlphanum hc).1) _

theorem Alphanumeric.prefixed {content : String} (h : Alphanumeric content) :
    Alphanumeric ("0x" ++ content) := by
  have hsign : Alphanumeric "0x" := by decide
  exact hsign.append h

-- Bytes that cannot be printed are shown as a dot.
theorem memRow_char (c : Change) :
    (memRow browser c).char ≠ '\x00' ∧ (memRow browser c).char ≠ '\r' := by
  have hall : ∀ n < 0x7f, 0x20 ≤ n → Char.ofNat n ≠ '\x00' ∧ Char.ofNat n ≠ '\r' := by
    decide +kernel
  unfold memRow
  dsimp only
  split
  · rename_i hprints
    rw [Bool.and_eq_true, decide_eq_true_eq, decide_eq_true_eq, UInt8.le_iff_toNat_le,
      UInt8.le_iff_toNat_le] at hprints
    exact hall _ (Nat.lt_succ_of_le hprints.2) hprints.1
  · decide

theorem return_notMem_normalizeNewlines (chars : List Char) :
    '\r' ∉ Html.normalizeNewlines chars := by
  induction chars using Html.normalizeNewlines.induct with
  | case1 => exact List.not_mem_nil
  | case2 rest ih => simpa [Html.normalizeNewlines] using ih
  | case3 c rest hno ih =>
      rw [Html.normalizeNewlines, List.mem_cons, not_or]
      · refine ⟨?_, ih⟩
        split
        · decide
        · rename_i hc
          exact fun h => hc h.symm
      · exact hno

-- Only carriage returns and NULs are not shown as they are.
theorem shown_eq_iff (content : String) :
    shown content = content ↔ '\r' ∉ content.toList ∧ '\x00' ∉ content.toList := by
  unfold shown
  constructor
  · intro h
    have hchars := congrArg String.toList h
    rw [String.toList_ofList] at hchars
    rw [← hchars]
    refine ⟨fun hmem => ?_, fun hmem => ?_⟩
    · exact return_notMem_normalizeNewlines _ (List.mem_filter.mp hmem).1
    · simpa using (List.mem_filter.mp hmem).2
  · rintro ⟨hreturn, hnul⟩
    rw [Html.normalizeNewlines_eq_self hreturn, List.filter_eq_self.mpr, String.ofList_toList]
    intro c hc
    rw [decide_eq_true_eq]
    rintro rfl
    exact hnul hc

end Texts

section Sessions

variable {browser : Browser} {v : Viewer} {entries : List TraceEntry}

-- The memory panel holds what some changes of the trace are shown as.
def FromChanges (browser : Browser) (memory : List MemRow) : Prop :=
  ∀ m ∈ memory, ∃ c : MemChange, m = memRow browser (changeOf c)

theorem showDetail_memory (browser : Browser) (v : Viewer) (e : Entry) :
    (v.showDetail browser e).state.detail.memory = v.detail.memory ∨
      (v.showDetail browser e).state.detail.memory = e.memChanges.map (memRow browser) := by
  unfold showDetail
  split
  · exact Or.inl rfl
  · exact Or.inl rfl
  · dsimp only
    split
    · exact Or.inl rfl
    · split
      · exact Or.inl rfl
      · split
        · exact Or.inl rfl
        · exact Or.inr rfl

theorem showStep_fromChanges (htrace : v.trace = entries.map Entry.ofTrace)
    (h : FromChanges browser v.detail.memory) (layout : Layout) (idx : Int) :
    FromChanges browser (v.showStep browser layout idx).viewer.detail.memory := by
  by_cases hidx : idx < 0 ∨ idx ≥ v.trace.length
  · rwa [showStep_of_refused hidx]
  · obtain ⟨i, rfl⟩ := Int.eq_ofNat_of_zero_le (show 0 ≤ idx by omega)
    have hi : i < v.trace.length := by omega
    obtain ⟨entry, hentry⟩ : ∃ entry, v.trace[i]? = some entry :=
      ⟨_, List.getElem?_eq_getElem hi⟩
    have hmem := List.mem_of_getElem? hentry
    rw [htrace] at hmem
    obtain ⟨e, _, rfl⟩ := List.mem_map.mp hmem
    obtain ⟨rows, tlCount, hshow⟩ := showStep_redraws browser layout hentry
    rw [hshow]
    dsimp only
    rcases showDetail_memory browser { v with curr := i } (Entry.ofTrace e) with hsame | hnew
    · rw [hsame]
      exact h
    · rw [hnew]
      intro m hm
      obtain ⟨change, hchange, rfl⟩ := List.mem_map.mp hm
      obtain ⟨c, _, rfl⟩ := List.mem_map.mp hchange
      exact ⟨c, rfl⟩

theorem Effect.fromChanges {layout : Layout} {handled : Handled}
    (heffect : Effect browser v layout handled) (htrace : v.trace = entries.map Entry.ofTrace)
    (h : FromChanges browser v.detail.memory) :
    FromChanges browser handled.viewer.detail.memory := by
  cases heffect with
  | shown idx => exact showStep_fromChanges htrace h layout idx
  | _ => exact h

theorem load_fromChanges (browser : Browser) (layout : Layout) (db : TraceDb) :
    FromChanges browser (load browser layout db).viewer.detail.memory := by
  have hnone : FromChanges browser [] := fun m hm => absurd hm List.not_mem_nil
  by_cases hreadable : Readable db
  · obtain ⟨first, rest, regs, hall, hparse, hne⟩ := hreadable
    rw [load_of_readable browser layout db hall hparse hne]
    have hopened : (loadedRender browser layout db regs).viewer.trace =
        db.getAll.map Entry.ofTrace := rfl
    exact showStep_fromChanges hopened hnone layout 0
  · rw [load_of_not_readable browser layout db hreadable]
    exact hnone

-- The trace is one that was recorded.
def Recorded (db : TraceDb) : Prop :=
  ∃ (arch : Arch) (start : Tracer) (iterations : List (Iteration arch)), Holds start iterations db

theorem registers_alphanumeric {arch : Arch} {state : ThreadState arch} {prevRegs : Option Value}
    {rows : List Register}
    (h : (regsValue state).entries.mapM (registerOf browser prevRegs) = some rows) :
    ∀ r ∈ rows, Alphanumeric r.name ∧ Alphanumeric r.text := by
  intro r hr
  have hshown : (r.name, r.text) ∈ (sortedMembers state.registers).map (rowText browser) := by
    rw [← panel_texts h]
    exact List.mem_map_of_mem (f := fun r : Register => (r.name, r.text)) hr
  obtain ⟨m, hm, hsame⟩ := List.mem_map.mp hshown
  obtain ⟨hname, htext⟩ := Prod.mk.inj hsame
  have hin := (mem_sortedMembers_iff (registers_nodup state) m).mp hm
  have hnames : m.1 ∈ registerNames arch := by
    rw [← registers_names state]
    exact List.mem_map_of_mem hin
  have hall : ∀ name ∈ registerNames arch, Alphanumeric name := by
    cases arch <;> decide +kernel
  rw [← hname, ← htext]
  exact ⟨hall _ hnames, (digits16_alphanumeric browser (registers_lt state m hin)).prefixed⟩

-- What a parser makes of the markup that the script writes. The texts of instructions are
-- escaped and the changes of memory need no escaping. The names and values of registers are
-- written as they stand in the file, so of their panel this holds for recorded traces.
structure MarkupTells (parse : String → List Html.Node) (otherToString : ℚ → String)
    (db : TraceDb) (v : Viewer) : Prop where
  rows : ∀ row ∈ v.rows, ∃ e, db.getAll[row.i]? = some e ∧ row.content.insn = e.insnText ∧
    parse (rowHtml otherToString row.content) = rowNodes otherToString row.content
  shown_iff : ∀ row ∈ v.rows, shown row.content.insn = row.content.insn ↔
    '\r' ∉ row.content.insn.toList ∧ '\x00' ∉ row.content.insn.toList
  memory : parse (memoryHtml v.detail.memory) = memoryNodes v.detail.memory
  registers : Recorded db → (∃ e, db.getAll[v.curr]? = some e) →
    parse (registersHtml v.detail.registers) = registersNodes v.detail.registers

theorem load_run_markupTells {parse : String → List Html.Node} (hparse : Html.Reads parse)
    {db : TraceDb} (hsteps : ∀ e ∈ db.getAll, e.step < 2 ^ 64) (otherToString : ℚ → String)
    (layout : Layout) (events : List Event) :
    MarkupTells parse otherToString db
      (run (next browser) (load browser layout db).viewer events) := by
  have hkept := @run_invariant _ _ (next browser)
    (fun v => (v.trace = db.getAll.map Entry.ofTrace ∧ v.Tracks browser) ∧
      FromChanges browser v.detail.memory) _ events
    ⟨⟨(load_tracked browser layout db).trace_eq, (load_tracked browser layout db).tracks⟩,
      load_fromChanges browser layout db⟩
    fun v event hv =>
      have heffect := handle_effect browser v event
      have hafter := heffect.tracked hv.1.2
      ⟨⟨hafter.trace_eq.trans hv.1.1, hafter.tracks⟩, heffect.fromChanges hv.1.1 hv.2⟩
  obtain ⟨⟨htrace, htracks⟩, hmemory⟩ := hkept
  refine ⟨fun row hrow => ?_, fun row _ => shown_eq_iff _, ?_, fun hrecorded he => ?_⟩
  · obtain ⟨entry, hentry, hcontent⟩ := (htracks.shows row hrow).entry
    rw [htrace, List.getElem?_map, Option.map_eq_some_iff] at hentry
    obtain ⟨e, he, rfl⟩ := hentry
    refine ⟨e, he, by rw [hcontent]; rfl, ?_⟩
    rw [hcontent]
    apply parse_rowHtml hparse
    · exact numberToString_alphanumeric otherToString (hsteps e (List.mem_of_getElem? he))
    · exact (padStart_alphanumeric browser e.pc.toNat_lt 12).prefixed
  · refine parse_memoryHtml hparse fun m hm => ?_
    obtain ⟨c, rfl⟩ := hmemory m hm
    exact ⟨(digits16_alphanumeric browser c.addr.toNat_lt).prefixed,
      (hexByte_alphanumeric c.oldVal).prefixed, (hexByte_alphanumeric c.newVal).prefixed,
      memRow_char browser (changeOf c)⟩
  · obtain ⟨arch, start, iterations, hholds⟩ := hrecorded
    obtain ⟨e, he⟩ := he
    obtain ⟨state, hregs⟩ := hholds.exists_state (List.mem_of_getElem? he)
    obtain ⟨regs, prevRegs, hread, hrows⟩ := (run_details hholds layout events he).registers
    have hread : parseJson e.regs = some regs := hread
    rw [hregs, parseJson_regs, Option.some.injEq] at hread
    subst hread
    exact parse_registersHtml hparse (registers_alphanumeric hrows)

theorem load_run_markupTells_sample :
    let events : List Event := [⟨.search "ret", sampleLayout⟩, ⟨.key .page .pageDown, sampleLayout⟩]
    MarkupTells Html.read (fun _ => "0.8") sampleDb
      (run (next sampleBrowser) (load sampleBrowser sampleLayout sampleDb).viewer events) :=
  load_run_markupTells Html.reads_read (by decide +kernel) _ _ _

end Sessions

end Tdb.Web
