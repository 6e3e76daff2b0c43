import Mathlib.Data.List.Sort
import Tdb.Tui

namespace Tdb.Tui

open Tdb.Library Tdb.Storage Tdb.Stats

variable {platform : Platform}

namespace App

-- The filter is an ascending list of positions in the trace, and so is the cursor.
structure WellIndexed (app : App) : Prop where
  ascending : app.filteredIndices.Pairwise (· < ·)
  filtered_lt : ∀ i ∈ app.filteredIndices, i < app.trace.length
  current_lt : app.trace ≠ [] → app.current < app.trace.length
  current_zero : app.trace = [] → app.current = 0

theorem WellIndexed.current_le {app : App} (h : app.WellIndexed) :
    app.current ≤ app.trace.length := by
  by_cases hempty : app.trace = []
  · rw [h.current_zero hempty]
    exact Nat.zero_le _
  · exact (h.current_lt hempty).le

section Matching

variable (platform) (entries : List TraceEntry) (query : String)

theorem mem_matching_iff (i : Nat) :
    i ∈ matching platform entries query ↔ ∃ e, entries[i]? = some e ∧
      Text.contains (platform.tables.toLowercase e.insnText)
        (platform.tables.toLowercase query) = true := by
  unfold matching
  dsimp only
  split
  · rename_i hempty
    rw [String.isEmpty_iff] at hempty
    have hall : ∀ text, Text.contains text "" = true := fun text =>
      (Text.contains_iff text "").mpr List.nil_infix
    simp only [hempty, hall, and_true, List.mem_range]
    constructor
    · intro hi
      exact ⟨_, List.getElem?_eq_getElem hi⟩
    · rintro ⟨e, he⟩
      exact (List.getElem?_eq_some_iff.mp he).1
  · simp only [List.mem_map, List.mem_filter, Prod.exists, exists_eq_right,
      List.mk_mem_zipIdx_iff_getElem?]

theorem matching_ascending : (matching platform entries query).Pairwise (· < ·) := by
  unfold matching
  dsimp only
  split
  · exact List.pairwise_lt_range
  · have hidx : (entries.zipIdx.map Prod.snd).Pairwise (· < ·) := by
      rw [List.zipIdx_map_snd]
      exact List.pairwise_lt_range'
    exact hidx.sublist (List.filter_sublist.map Prod.snd)

theorem matching_lt {i : Nat} (hi : i ∈ matching platform entries query) : i < entries.length := by
  obtain ⟨e, he, _⟩ := (mem_matching_iff platform entries query i).mp hi
  exact (List.getElem?_eq_some_iff.mp he).1

end Matching

section Select

theorem index_of_lt {entries : List TraceEntry} {i : Nat} (h : i < entries.length) :
    index entries i = .ok entries[i] := by
  unfold index
  rw [List.getElem?_eq_getElem h]

-- The test in front makes the access safe.
theorem savedRegs_ok (platform : Platform) (app : App) : ∃ regs, app.savedRegs platform = .ok regs := by
  unfold savedRegs
  split
  · rename_i hlt
    rw [index_of_lt hlt]
    dsimp only
    split
    · split
      · exact ⟨_, rfl⟩
      · exact ⟨_, rfl⟩
    · exact ⟨_, rfl⟩
  · exact ⟨_, rfl⟩

-- What a successful selection leaves, up to the registers kept for the diff.
def moveTo (app : App) (idx : Nat) (prevRegs : Option (List (String × Value))) : App :=
  { app with prevRegs, current := idx }.syncList idx

theorem select_of_lt (platform : Platform) {app : App} {idx : Nat} (h : idx < app.trace.length) :
    ∃ regs, app.select platform idx = .ok (app.moveTo idx regs) := by
  obtain ⟨regs, hregs⟩ := savedRegs_ok platform app
  refine ⟨regs, ?_⟩
  unfold select
  rw [if_neg (by omega), hregs]
  rfl

theorem select_of_ge {app : App} {idx : Nat} (h : app.trace.length ≤ idx) :
    app.select platform idx = .ok app := by
  unfold select
  rw [if_pos h]

variable (app : App) (idx : Nat) (regs : Option (List (String × Value)))

@[simp] theorem moveTo_trace : (app.moveTo idx regs).trace = app.trace := by
  unfold moveTo syncList
  split <;> rfl

@[simp] theorem moveTo_current : (app.moveTo idx regs).current = idx := by
  unfold moveTo syncList
  split <;> rfl

@[simp] theorem moveTo_prevRegs : (app.moveTo idx regs).prevRegs = regs := by
  unfold moveTo syncList
  split <;> rfl

@[simp] theorem moveTo_filteredIndices :
    (app.moveTo idx regs).filteredIndices = app.filteredIndices := by
  unfold moveTo syncList
  split <;> rfl

@[simp] theorem moveTo_baseSp : (app.moveTo idx regs).baseSp = app.baseSp := by
  unfold moveTo syncList
  split <;> rfl

@[simp] theorem moveTo_mode : (app.moveTo idx regs).mode = app.mode := by
  unfold moveTo syncList
  split <;> rfl

-- A selected entry that the list shows is the selected row.
theorem moveTo_selected {app : App} {idx : Nat} (hnodup : app.filteredIndices.Nodup) {pos : Nat}
    (hpos : app.filteredIndices[pos]? = some idx) :
    (app.moveTo idx regs).listState.selected = some pos := by
  obtain ⟨hlt, heq⟩ := List.getElem?_eq_some_iff.mp hpos
  have hfound : app.filteredIndices.findIdx? (fun i => i == idx) = some pos := by
    rw [List.findIdx?_eq_some_iff_getElem]
    refine ⟨hlt, by simp [heq], fun j hj => ?_⟩
    rw [beq_iff_eq]
    intro hsame
    have hinj := hnodup.getElem_inj_iff.mp (hsame.trans heq.symm)
    omega
  unfold moveTo syncList
  dsimp only
  rw [hfound]

end Select

section Find

-- Whether the entry at a position is one of those looked for.
def matchesAt (app : App) (what : What) (i : Nat) : Bool :=
  app.trace[i]?.any fun e => matchesFilter e what

theorem firstMatch_eq {app : App} (what : What) {indices : List Nat}
    (h : ∀ i ∈ indices, i < app.trace.length) :
    app.firstMatch what indices = .ok (indices.find? (app.matchesAt what)) := by
  induction indices with
  | nil => rfl
  | cons i rest ih =>
      have hi := h i (List.mem_cons_self ..)
      have hrest := ih fun j hj => h j (List.mem_cons_of_mem i hj)
      have hat : app.matchesAt what i = matchesFilter app.trace[i] what := by
        unfold matchesAt
        rw [List.getElem?_eq_getElem hi]
        rfl
      unfold firstMatch
      rw [index_of_lt hi, List.find?_cons, hat]
      dsimp only
      cases hmatch : matchesFilter app.trace[i] what with
      | true => rfl
      | false => exact hrest

-- A search selects the first match among its indices.
theorem selectFirst_eq (platform : Platform) {app : App} (what : What) {indices : List Nat}
    (h : ∀ i ∈ indices, i < app.trace.length) :
    app.selectFirst platform what indices = match indices.find? (app.matchesAt what) with
      | some i => app.select platform i
      | none => .ok app := by
  unfold selectFirst
  rw [firstMatch_eq what h]
  cases indices.find? (app.matchesAt what) with
  | none => rfl
  | some i => rfl

theorem mem_ahead_lt {app : App} {i : Nat}
    (hi : i ∈ List.range' (app.current + 1) (app.trace.length - (app.current + 1))) :
    i < app.trace.length := by
  rw [List.mem_range'_1] at hi
  omega

theorem WellIndexed.mem_behind_lt {app : App} (h : app.WellIndexed) {i : Nat}
    (hi : i ∈ (List.range app.current).reverse) : i < app.trace.length := by
  rw [List.mem_reverse, List.mem_range] at hi
  exact hi.trans_le h.current_le

-- The test in front changes nothing: from the first entry there is nothing behind.
theorem findPrev_eq (platform : Platform) (app : App) (what : What) :
    app.findPrev platform what =
      app.selectFirst platform what (List.range app.current).reverse := by
  unfold findPrev
  split
  · rename_i hzero
    rw [hzero]
    rfl
  · rfl

end Find

end App

section Asked

open App

variable (platform : Platform) (app : App)

def nextMatch (what : What) : Option Nat :=
  (List.range' (app.current + 1) (app.trace.length - (app.current + 1))).find? (app.matchesAt what)

def prevMatch (what : What) : Option Nat :=
  (List.range app.current).reverse.find? (app.matchesAt what)

-- The entry that a key asks to be selected. Every change of the query asks for its first match.
def normalAsked : KeyCode → Option Nat
  | .char 'h' | .left | .char 'k' | .up => some (app.stepTarget (-1))
  | .char 'l' | .right | .char 'j' | .down => some (app.stepTarget 1)
  | .char 'g' | .home => some 0
  | .char 'G' | .endKey => some (app.trace.length - 1)
  | .char 'c' => nextMatch app .call
  | .char 'C' => prevMatch app .call
  | .char 'r' => nextMatch app .ret
  | .char 'R' => prevMatch app .ret
  | .char 'm' => nextMatch app .mem
  | .char 'M' => prevMatch app .mem
  | .pageDown => some (app.stepTarget 50)
  | .pageUp => some (app.stepTarget (-50))
  | _ => none

def searchAsked (query : String) : KeyCode → Option Nat
  | .char c => (matching platform app.trace (query.push c)).head?
  | .backspace => (matching platform app.trace (String.ofList query.toList.dropLast)).head?
  | _ => none

def asked (code : KeyCode) : Option Nat :=
  match app.mode with
  | .normal => normalAsked app code
  | .search query => searchAsked platform app query code
  | .help => none

-- What a key changes at once, before the entry is selected that it asks for.
def App.flagged : KeyCode → App
  | .char 'q' | .esc => { app with shouldQuit := true }
  | .char '/' => { app with mode := .search "" }
  | .char '?' => { app with mode := .help }
  | _ => app

def App.filteredBy (query : String) : App :=
  { app with mode := .search query, filteredIndices := matching platform app.trace query }

def App.searching (query : String) : KeyCode → App
  | .esc => { app with filteredIndices := List.range app.trace.length, mode := .normal }
  | .enter => { app with mode := .normal }
  | .char c => app.filteredBy platform (query.push c)
  | .backspace => app.filteredBy platform (String.ofList query.toList.dropLast)
  | _ => app

def App.prepared (code : KeyCode) : App :=
  match app.mode with
  | .normal => app.flagged code
  | .search query => app.searching platform query code
  | .help => { app with mode := .normal }

theorem filteredBy_eq (query : String) : ∃ mode listed quit, app.filteredBy platform query =
    { app with mode, filteredIndices := listed, shouldQuit := quit } :=
  ⟨_, _, _, rfl⟩

theorem searching_eq (query : String) (code : KeyCode) : ∃ mode listed quit,
    app.searching platform query code =
      { app with mode, filteredIndices := listed, shouldQuit := quit } := by
  cases code with
  | char c => exact filteredBy_eq platform app _
  | backspace => exact filteredBy_eq platform app _
  | _ => exact ⟨_, _, _, rfl⟩

theorem prepared_eq (code : KeyCode) : ∃ mode listed quit, app.prepared platform code =
    { app with mode, filteredIndices := listed, shouldQuit := quit } := by
  unfold App.prepared
  split
  · unfold App.flagged
    split <;> exact ⟨_, _, _, rfl⟩
  · exact searching_eq platform app _ code
  · exact ⟨_, _, _, rfl⟩

-- A key of the normal mode that asks for an entry changes nothing else.
theorem flagged_of_asked {app : App} {code : KeyCode} {idx : Nat}
    (h : normalAsked app code = some idx) : app.flagged code = app := by
  unfold App.flagged
  split
  all_goals first
    | rfl
    | cases h

variable {app}

theorem findNext_eq (what : What) :
    app.findNext platform what = match nextMatch app what with
      | some i => app.select platform i
      | none => .ok app :=
  selectFirst_eq platform what fun _ hi => mem_ahead_lt hi

theorem findPrev_eq_match (hwf : app.WellIndexed) (what : What) :
    app.findPrev platform what = match prevMatch app what with
      | some i => app.select platform i
      | none => .ok app := by
  rw [findPrev_eq]
  exact selectFirst_eq platform what fun _ hi => hwf.mem_behind_lt hi

theorem applySearch_eq (app : App) (query : String) :
    { app with mode := .search query }.applySearch platform query =
      match (matching platform app.trace query).head? with
        | some idx => (app.filteredBy platform query).select platform idx
        | none => .ok (app.filteredBy platform query) := rfl

theorem handleNormalKey_eq (code : KeyCode) (hwf : app.WellIndexed) :
    handleNormalKey platform app code = match normalAsked app code with
      | some idx => app.select platform idx
      | none => .ok (app.flagged code) := by
  unfold handleNormalKey
  split
  all_goals first
    | rfl
    | exact findNext_eq platform _
    | exact findPrev_eq_match platform hwf _
    | skip
  -- the keys that do nothing
  have hasked : normalAsked app code = none := by
    unfold normalAsked
    split
    all_goals first
      | rfl
      | contradiction
  have hflagged : app.flagged code = app := by
    unfold App.flagged
    split
    all_goals first
      | rfl
      | contradiction
  rw [hasked, hflagged]

-- All that a key does.
theorem handleKey_eq (code : KeyCode) (hwf : app.WellIndexed) :
    handleKey platform app code = match asked platform app code with
      | some idx => (app.prepared platform code).select platform idx
      | none => .ok (app.prepared platform code) := by
  unfold handleKey asked App.prepared
  cases hmode : app.mode with
  | normal =>
      dsimp only
      rw [handleNormalKey_eq platform code hwf]
      cases hasked : normalAsked app code with
      | none => rfl
      | some idx => rw [flagged_of_asked hasked]
  | search query =>
      cases code with
      | char c =>
          unfold handleSearchKey
          rw [hmode]
          exact applySearch_eq platform app (query.push c)
      | backspace =>
          unfold handleSearchKey
          rw [hmode]
          dsimp only [searchAsked, App.searching]
          generalize String.ofList query.toList.dropLast = shorter
          exact applySearch_eq platform app shorter
      | _ => rfl
  | help => rfl

end Asked

section Keys

open App

-- All that a key can do. `moveTo` is the one way to another entry.
inductive Effect (platform : Platform) (app : App) (code : KeyCode) : App → Prop where
  | unmoved : Effect platform app code app
  | quit : Effect platform app code { app with shouldQuit := true }
  | toNormal : Effect platform app code { app with mode := .normal }
  | toHelp : Effect platform app code { app with mode := .help }
  | openSearch (hmode : app.mode = .normal) (hcode : code = .char '/') :
      Effect platform app code { app with mode := .search "" }
  | cancel (q : String) (hmode : app.mode = .search q) (hcode : code = .esc) :
      Effect platform app code
        { app with filteredIndices := List.range app.trace.length, mode := .normal }
  | moved (idx : Nat) (regs : Option (List (String × Value))) (hidx : idx < app.trace.length) :
      Effect platform app code (app.moveTo idx regs)
  | searched (q query : String) (hmode : app.mode = .search q)
      (hnone : matching platform app.trace query = []) :
      Effect platform app code { app with mode := .search query, filteredIndices := [] }
  | searchedTo (q query : String) (hmode : app.mode = .search q) (first : Nat) (rest : List Nat)
      (hsome : matching platform app.trace query = first :: rest)
      (regs : Option (List (String × Value))) :
      Effect platform app code
        ({ app with mode := .search query, filteredIndices := first :: rest }.moveTo first regs)

variable {app : App} (code : KeyCode)

theorem select_effect (idx : Nat) :
    ∃ app', app.select platform idx = .ok app' ∧ Effect platform app code app' := by
  by_cases h : idx < app.trace.length
  · obtain ⟨regs, hsel⟩ := select_of_lt platform h
    exact ⟨_, hsel, .moved idx regs h⟩
  · exact ⟨app, select_of_ge (by omega), .unmoved⟩

theorem flagged_effect (hmode : app.mode = .normal) :
    Effect platform app code (app.flagged code) := by
  unfold App.flagged
  split
  · exact .quit
  · exact .quit
  · exact .openSearch hmode rfl
  · exact .toHelp
  · exact .unmoved

theorem filteredBy_effect {q : String} (hmode : app.mode = .search q) (query : String) :
    ∃ app', (match (matching platform app.trace query).head? with
        | some idx => (app.filteredBy platform query).select platform idx
        | none => .ok (app.filteredBy platform query)) = .ok app' ∧
      Effect platform app code app' := by
  cases hfound : matching platform app.trace query with
  | nil =>
      refine ⟨_, rfl, ?_⟩
      unfold App.filteredBy
      rw [hfound]
      exact .searched q query hmode hfound
  | cons first rest =>
      have hlt : first < (app.filteredBy platform query).trace.length :=
        matching_lt platform app.trace query (hfound ▸ List.mem_cons_self ..)
      obtain ⟨regs, hselect⟩ := select_of_lt platform hlt
      refine ⟨_, hselect, ?_⟩
      unfold App.filteredBy
      rw [hfound]
      exact .searchedTo q query hmode first rest hfound regs

theorem handleKey_effect (platform : Platform) (hwf : app.WellIndexed) :
    ∃ app', handleKey platform app code = .ok app' ∧ Effect platform app code app' := by
  rw [handleKey_eq platform code hwf]
  unfold asked App.prepared
  cases hmode : app.mode with
  | normal =>
      dsimp only
      cases hasked : normalAsked app code with
      | none => exact ⟨_, rfl, flagged_effect code hmode⟩
      | some idx =>
          rw [flagged_of_asked hasked]
          exact select_effect code idx
  | search query =>
      cases code with
      | esc => exact ⟨_, rfl, .cancel query hmode rfl⟩
      | enter => exact ⟨_, rfl, .toNormal⟩
      | char c => exact filteredBy_effect _ hmode _
      | backspace =>
          dsimp only [searchAsked, App.searching]
          generalize String.ofList query.toList.dropLast = shorter
          exact filteredBy_effect _ hmode shorter
      | _ => exact ⟨_, rfl, .unmoved⟩
  | help => exact ⟨_, rfl, .toNormal⟩

end Keys

end Tdb.Tui
