import Tdb.Web

namespace Tdb.Web

open Tdb.Library Tdb.Storage Tdb.Server

variable {browser : Browser} {v : Viewer} {layout : Layout}

namespace Viewer

-- Nothing changed that the timeline is drawn from, the current entry apart.
structure SameTimeline (v v' : Viewer) : Prop where
  trace_eq : v'.trace = v.trace
  filteredIndices_eq : v'.filteredIndices = v.filteredIndices
  rows_eq : v'.rows = v.rows

-- The numbers of calls and changes, and those that the page shows.
def counters (v : Viewer) : Nat × Nat × Header :=
  (v.callCnt, v.memCnt, v.header)

-- Nor did the current entry, the help and the counters.
structure KeepsPlace (v v' : Viewer) : Prop extends v.SameTimeline v' where
  curr_eq : v'.curr = v.curr
  helpVisible_eq : v'.helpVisible = v.helpVisible
  counters_eq : v'.counters = v.counters

-- The stack pointer that the session measures from can be taken for a number.
def BaseConverts (browser : Browser) (v : Viewer) : Prop :=
  ∀ base, v.baseSP = some base → (base.toNumber browser).isSome

theorem toNumber_isSome_of_not_truthy {value : Value} (h : value.truthy = false) :
    (value.toNumber browser).isSome := by
  cases value with
  | arr items => cases h
  | obj fields => cases h
  | _ => rfl

-- What has digits can be taken for a number.
theorem toNumber_isSome_of_toString16 {value : Value} {text : String}
    (h : toString16 browser value = some text) : (value.toNumber browser).isSome := by
  cases value with
  | arr items =>
      change (Option.map browser.textToNumber (toString16 browser (.arr items))).isSome
      rw [h]
      rfl
  | obj fields =>
      change (Option.map browser.textToNumber (toString16 browser (.obj fields))).isSome
      rw [h]
      rfl
  | _ => rfl

theorem minus_isSome_iff {sp : Value} (hsp : (sp.toNumber browser).isSome) :
    (minus browser (some sp) (v.baseFor (some sp))).isSome ↔ v.BaseConverts browser := by
  have hminus (base : Value) : (minus browser (some sp) (some base)).isSome ↔
      (base.toNumber browser).isSome := by
    obtain ⟨m, hm⟩ := Option.isSome_iff_exists.mp hsp
    unfold minus operand
    dsimp only
    rw [hm]
    cases base.toNumber browser <;> simp
  unfold BaseConverts baseFor
  cases hbase : v.baseSP with
  | none => simpa [hminus] using hsp
  | some base =>
      cases htruthy : base.truthy with
      | true => simp [htruthy, hminus]
      | false => simp [htruthy, hminus, hsp, toNumber_isSome_of_not_truthy htruthy]

theorem baseFor_converts (hbase : v.BaseConverts browser) {sp : Value}
    (hsp : (sp.toNumber browser).isSome) :
    BaseConverts browser { v with baseSP := v.baseFor (some sp) } := by
  intro base hsome
  dsimp only at hsome
  unfold baseFor at hsome
  split at hsome
  · exact hbase base hsome
  · cases hsome
    exact hsp

-- Filling the panels comes through where nothing throws.
theorem showDetail_eq_next {e : Entry} {regs sp : Value} {delta : Double} {text : String}
    {registers : List Register} (hparse : parseJson e.regs = some regs)
    (hmember : regs.member (if v.arch = "x86_64" then "rsp" else "sp") = some sp)
    (hdelta : minus browser (some sp) (v.baseFor (some sp)) = some delta)
    (htext : toString16 browser sp = some text)
    (hrows : regs.entries.mapM (registerOf browser v.prevRegs) = some registers) :
    v.showDetail browser e = .next
      { v with
        baseSP := v.baseFor (some sp)
        prevRegs := some regs
        detail :=
          { step := e.step
            pc := "PC: 0x" ++ padStart (toUpperCase browser (numberToString16 browser e.pc)) 16
            insn := e.insnText
            bytes := " ".intercalate (e.insnBytes.map fun b => toUpperCase browser (hexByte b))
            type := insnType e
            sp := "0x" ++ toUpperCase browser text
            delta
            registers
            memory := e.memChanges.map (memRow browser) } } := by
  unfold showDetail
  rw [hparse]
  cases regs with
  | null => cases hmember
  | _ =>
      dsimp only
      rw [hmember, hdelta]
      dsimp only
      rw [Option.bind_some, htext]
      dsimp only
      rw [hrows]

-- Wherever filling the panels stops, the timeline and the place in the trace are as before.
theorem showDetail_keepsPlace (browser : Browser) (v : Viewer) (e : Entry) :
    v.KeepsPlace (v.showDetail browser e).state := by
  unfold showDetail
  split
  · exact ⟨⟨rfl, rfl, rfl⟩, rfl, rfl, rfl⟩
  · exact ⟨⟨rfl, rfl, rfl⟩, rfl, rfl, rfl⟩
  · dsimp only
    split
    · exact ⟨⟨rfl, rfl, rfl⟩, rfl, rfl, rfl⟩
    · split
      · exact ⟨⟨rfl, rfl, rfl⟩, rfl, rfl, rfl⟩
      · split
        · exact ⟨⟨rfl, rfl, rfl⟩, rfl, rfl, rfl⟩
        · exact ⟨⟨rfl, rfl, rfl⟩, rfl, rfl, rfl⟩

theorem showStep_of_refused {idx : Int} (h : idx < 0 ∨ idx ≥ v.trace.length) :
    v.showStep browser layout idx = { viewer := v } := by
  unfold showStep
  rw [if_pos h]

-- A selection makes the entry current before anything of it can throw.
theorem showStep_of_lt (browser : Browser) (layout : Layout) {i : Nat} (hi : i < v.trace.length) :
    ∃ v', KeepsPlace { v with curr := i } v' ∧
      (v.showStep browser layout i = { viewer := v' } ∨
        v.showStep browser layout i = v'.scrollToActive browser layout) := by
  have hentry := List.getElem?_eq_getElem hi
  refine ⟨_, showDetail_keepsPlace browser { v with curr := i } v.trace[i], ?_⟩
  unfold showStep
  rw [if_neg (by omega), Int.toNat_natCast, hentry]
  dsimp only
  cases showDetail browser { v with curr := i } v.trace[i] with
  | next v' => exact Or.inr rfl
  | stop v' thrown => exact Or.inl rfl

-- What a selection leaves of the place in the trace, also when it throws.
structure Selected (v : Viewer) (idx : Int) (v' : Viewer) : Prop where
  trace_eq : v'.trace = v.trace
  helpVisible_eq : v'.helpVisible = v.helpVisible
  counters_eq : v'.counters = v.counters
  curr_eq : v'.curr = if 0 ≤ idx ∧ idx < v.trace.length then idx.toNat else v.curr

-- Scrolling draws the rows anew and changes nothing else.
theorem scrollToActive_redraws (browser : Browser) (v : Viewer) (layout : Layout) :
    ∃ rows tlCount, (v.scrollToActive browser layout).viewer = { v with rows, tlCount } := by
  unfold scrollToActive
  split
  · exact ⟨v.rows, v.tlCount, rfl⟩
  · exact ⟨_, _, rfl⟩

-- A selection leaves what filling the panels leaves, with the rows drawn anew.
theorem showStep_redraws (browser : Browser) (layout : Layout) {i : Nat} {e : Entry}
    (hentry : v.trace[i]? = some e) :
    ∃ rows tlCount, (v.showStep browser layout i).viewer =
      { (showDetail browser { v with curr := i } e).state with rows, tlCount } := by
  have hi := (List.getElem?_eq_some_iff.mp hentry).1
  unfold showStep
  rw [if_neg (by omega), Int.toNat_natCast, hentry]
  dsimp only
  cases showDetail browser { v with curr := i } e with
  | next v' => exact scrollToActive_redraws browser v' layout
  | stop v' thrown => exact ⟨v'.rows, v'.tlCount, rfl⟩

theorem showStep_selected (browser : Browser) (v : Viewer) (layout : Layout) (idx : Int) :
    v.Selected idx (v.showStep browser layout idx).viewer := by
  by_cases hidx : idx < 0 ∨ idx ≥ v.trace.length
  · rw [showStep_of_refused hidx]
    exact ⟨rfl, rfl, rfl, by rw [if_neg (by omega)]⟩
  · obtain ⟨i, rfl⟩ := Int.eq_ofNat_of_zero_le (show 0 ≤ idx by omega)
    have hi : i < v.trace.length := by omega
    have hin : 0 ≤ (i : Int) ∧ (i : Int) < v.trace.length := by omega
    obtain ⟨rows, tlCount, hshow⟩ :=
      showStep_redraws browser layout (List.getElem?_eq_getElem hi)
    have hkeeps := showDetail_keepsPlace browser { v with curr := i } v.trace[i]
    rw [hshow]
    exact ⟨hkeeps.trace_eq, hkeeps.helpVisible_eq, hkeeps.counters_eq, by
      rw [if_pos hin, hkeeps.curr_eq, Int.toNat_natCast]⟩

end Viewer

open Viewer

-- All that an event can do.
inductive Effect (browser : Browser) (v : Viewer) (layout : Layout) : Handled → Prop where
  | still (helpVisible : Bool) : Effect browser v layout { viewer := { v with helpVisible } }
  | shown (idx : Int) : Effect browser v layout (v.showStep browser layout idx)
  | scrolled :
      Effect browser v layout
        { viewer := (v.rendered browser layout.scrollTop layout.clientHeight).viewer
          renders := [v.rendered browser layout.scrollTop layout.clientHeight] }
  | filtered (searchInput : String) :
      Effect browser v layout ({ v with searchInput }.applyFilter browser layout)

section Asked

variable (v : Viewer)

def Viewer.firstAsked (type : FindType) (indices : List Nat) : Option Int :=
  (indices.find? fun i => v.trace[i]?.any fun e => e.isOf type).map Int.ofNat

def Viewer.nextAsked (type : FindType) : Option Int :=
  v.firstAsked type (List.range' (v.curr + 1) (v.trace.length - (v.curr + 1)))

def Viewer.prevAsked (type : FindType) : Option Int :=
  v.firstAsked type (List.range v.curr).reverse

def Viewer.jumpAsked (i : Int) : Int :=
  max 0 (min (v.trace.length - 1) i)

def Viewer.keyAsked : Key → Option Int
  | .arrowLeft | .char 'h' => some (v.curr - 1)
  | .arrowRight | .char 'l' => some (v.curr + 1)
  | .home | .char 'g' => some (v.jumpAsked 0)
  | .endKey | .char 'G' => some (v.jumpAsked (v.trace.length - 1))
  | .pageUp => some (v.curr - 50)
  | .pageDown => some (v.curr + 50)
  | .char 'c' => v.nextAsked .call
  | .char 'C' => v.prevAsked .call
  | .char 'r' => v.nextAsked .ret
  | .char 'R' => v.prevAsked .ret
  | .char 'm' => v.nextAsked .mem
  | .char 'M' => v.prevAsked .mem
  | _ => none

-- The index that an action asks to be shown, whether or not there is such an entry.
def Viewer.asked : Action → Option Int
  | .clickRow k => v.rows[k]?.map fun row => (row.i : Int)
  | .step d => some (v.curr + d)
  | .jump i => some (v.jumpAsked i)
  | .jumpToLast => some (v.jumpAsked (v.trace.length - 1))
  | .go s => (v.trace.findIdx? fun e => e.step.same s).map Int.ofNat
  | .find type => v.nextAsked type
  | .key .page key => if v.helpVisible then none else v.keyAsked key
  | _ => none

end Asked

-- The same as an effect, with the index that is asked for.
inductive Outcome (browser : Browser) (v : Viewer) (layout : Layout) :
    Option Int → Handled → Prop where
  | still (helpVisible : Bool) : Outcome browser v layout none { viewer := { v with helpVisible } }
  | shown (idx : Int) : Outcome browser v layout (some idx) (v.showStep browser layout idx)
  | scrolled :
      Outcome browser v layout none
        { viewer := (v.rendered browser layout.scrollTop layout.clientHeight).viewer
          renders := [v.rendered browser layout.scrollTop layout.clientHeight] }
  | filtered (searchInput : String) :
      Outcome browser v layout none ({ v with searchInput }.applyFilter browser layout)

theorem Outcome.effect {idx : Option Int} {handled : Handled}
    (h : Outcome browser v layout idx handled) : Effect browser v layout handled := by
  cases h with
  | still helpVisible => exact .still helpVisible
  | shown idx => exact .shown idx
  | scrolled => exact .scrolled
  | filtered searchInput => exact .filtered searchInput

section Handle

variable (browser : Browser) (v : Viewer) (layout : Layout)

theorem unchanged_outcome : Outcome browser v layout none { viewer := v } :=
  .still v.helpVisible

theorem showFirst_outcome (type : FindType) (indices : List Nat) :
    Outcome browser v layout (v.firstAsked type indices)
      (v.showFirst browser layout type indices) := by
  unfold showFirst firstAsked
  cases indices.find? fun i => v.trace[i]?.any fun e => e.isOf type with
  | none => exact unchanged_outcome browser v layout
  | some i => exact .shown _

theorem keydown_outcome_page (hhelp : v.helpVisible = false) (key : Key) :
    Outcome browser v layout (v.keyAsked key) (v.keydown browser layout .page key) := by
  unfold keydown
  rw [if_neg (by simp [hhelp])]
  dsimp only
  -- a key of the page moves or searches, toggles the help or does nothing
  unfold keyAsked
  split
  all_goals first
    | exact .shown _
    | exact showFirst_outcome browser v layout _ _
    | split <;> first
        | exact .still _
        | grind

theorem keydown_outcome (target : Target) (key : Key) :
    Outcome browser v layout (v.asked (.key target key)) (v.keydown browser layout target key) := by
  cases hhelp : v.helpVisible with
  | true =>
      have hasked : v.asked (.key target key) = none := by
        cases target <;> simp [asked, hhelp]
      rw [hasked]
      unfold keydown
      rw [if_pos hhelp]
      split
      · exact .still _
      · exact unchanged_outcome browser v layout
  | false =>
      cases target with
      | page =>
          have hasked : v.asked (.key .page key) = v.keyAsked key := by simp [asked, hhelp]
          rw [hasked]
          exact keydown_outcome_page browser v layout hhelp key
      | searchInput =>
          unfold keydown
          rw [if_neg (by simp [hhelp])]
          dsimp only
          split
          · exact .filtered ""
          · exact unchanged_outcome browser v layout
      | jumpInput =>
          unfold keydown
          rw [if_neg (by simp [hhelp])]
          dsimp only
          split
          · exact .filtered v.searchInput
          · exact unchanged_outcome browser v layout

theorem handle_outcome (event : Event) :
    Outcome browser v event.layout (v.asked event.action) (handle browser v event) := by
  unfold handle
  cases event.action with
  | scroll =>
      dsimp only
      split
      · exact .scrolled
      · exact unchanged_outcome browser v _
  | search text => exact .filtered text
  | clickRow k =>
      unfold asked
      dsimp only
      cases v.rows[k]? with
      | none => exact unchanged_outcome browser v _
      | some row => exact .shown _
  | step d => exact .shown _
  | jump i => exact .shown _
  | jumpToLast => exact .shown _
  | go s =>
      unfold asked
      dsimp only
      unfold goToStep
      cases v.trace.findIdx? fun e => e.step.same s with
      | none => exact unchanged_outcome browser v _
      | some i => exact .shown _
  | find type => exact showFirst_outcome browser v _ _ _
  | help => exact .still _
  | key target key => exact keydown_outcome browser v _ target key

theorem handle_effect (event : Event) :
    Effect browser v event.layout (handle browser v event) :=
  (handle_outcome browser v event).effect

end Handle

section Load

variable (browser : Browser) (layout : Layout) (db : TraceDb)

-- The script reads the registers of the first entry before anything else of the trace.
def Readable : Prop :=
  ∃ first rest regs, db.getAll = first :: rest ∧ parseJson first.regs = some regs ∧ regs ≠ .null

def loadedRender (regs : Value) : Render :=
  (opened (db.getAll.map Entry.ofTrace) db.count regs).initVirtualScroll browser layout

theorem loadedRender_baseConverts (regs : Value) :
    (loadedRender browser layout db regs).viewer.BaseConverts browser := by
  rintro base ⟨⟩

theorem load_of_not_readable (h : ¬Readable db) :
    load browser layout db = { viewer := { trace := db.getAll.map Entry.ofTrace } } := by
  unfold load getTrace
  dsimp only
  cases hall : db.getAll with
  | nil => rfl
  | cons first rest =>
      have hregs : ∀ regs, parseJson first.regs = some regs → regs = .null := by
        intro regs hparse
        by_contra hne
        exact h ⟨first, rest, regs, hall, hparse, hne⟩
      rw [List.map_cons]
      dsimp only [Entry.ofTrace]
      cases hparse : parseJson first.regs with
      | none => rfl
      | some regs =>
          rw [hregs regs hparse]

theorem load_of_readable {first : TraceEntry} {rest : List TraceEntry} {regs : Value}
    (hall : db.getAll = first :: rest) (hparse : parseJson first.regs = some regs)
    (hne : regs ≠ .null) :
    load browser layout db =
      { viewer := ((loadedRender browser layout db regs).viewer.showStep browser layout 0).viewer
        renders := loadedRender browser layout db regs ::
          ((loadedRender browser layout db regs).viewer.showStep browser layout 0).renders } := by
  unfold load getTrace loadedRender
  dsimp only
  rw [hall, List.map_cons]
  have hregs : (Entry.ofTrace first).regs = first.regs := rfl
  dsimp only
  rw [hregs, hparse]
  cases regs with
  | null => exact absurd rfl hne
  | _ => rfl

end Load

section Samples

-- A browser that answers for numbers and ASCII, a list 280 pixels high and two entries.
def sampleBrowser : Browser where
  tables := .ascii
  upperCase c := [c]
  otherToString _ := "0.5"
  fractionToString16 _ := "0.8"
  textToNumber _ := .nan

def wholePixels (n : Nat) (h : n ≤ 2 ^ 53) : Pixels where
  value := n
  isDouble := isBinary64_natCast h
  nonneg := Nat.cast_nonneg n

def sampleLayout : Layout where
  scrollTop := wholePixels 0 (by norm_num)
  clientHeight := wholePixels 280 (by norm_num)
  landing := wholePixels 0 (by norm_num)

def sampleDb : TraceDb :=
  TraceDb.ofInserts "trace.tdb"
    [⟨0, 0x1000, [0x1f, 0x20, 0x03, 0xd5], "nop", "\x7b\"sp\":4096\x7d", []⟩,
      ⟨1, 0x1004, [0xc0, 0x03, 0x5f, 0xd6], "ret ; RETURN [depth:0]", "\x7b\"sp\":4096\x7d", []⟩]

end Samples

end Tdb.Web
