import Tdb.Tui.Lemmas

namespace Tdb.Tui

open Tdb.Library Tdb.Storage Tdb.Stats App

variable {platform : Platform}

section Draw

theorem mapM_eq_error {ε α β : Type} {f : α → Except ε β} {l : List α} {e : ε}
    (h : l.mapM f = .error e) : ∃ a ∈ l, f a = .error e := by
  induction l with
  | nil => cases h
  | cons a rest ih =>
      rw [List.mapM_cons] at h
      cases ha : f a with
      | error e' =>
          rw [ha] at h
          cases h
          exact ⟨a, List.mem_cons_self .., ha⟩
      | ok b =>
          rw [ha] at h
          cases hrest : rest.mapM f with
          | ok bs =>
              rw [hrest] at h
              cases h
          | error e' =>
              rw [hrest] at h
              cases h
              obtain ⟨x, hx, hfx⟩ := ih hrest
              exact ⟨x, List.mem_cons_of_mem a hx, hfx⟩

theorem insnShort_eq (insn : String) :
    insnShort insn = Text.truncated 22 20 ".." (midCharacter insn 20) insn := rfl

theorem insnShort_eq_error {insn : String} {panic : Panic} (h : insnShort insn = .error panic) :
    panic = midCharacter insn 20 := by
  rw [insnShort_eq] at h
  exact (Text.truncated_eq_error_iff.mp h).1.symm

-- A row of a well-indexed list can only fail where its text is cut.
theorem timelineRow_eq_error {app : App} {i : Nat} {panic : Panic} (hi : i < app.trace.length)
    (h : timelineRow app i = .error panic) : ∃ insn, panic = midCharacter insn 20 := by
  unfold timelineRow at h
  rw [index_of_lt hi] at h
  dsimp only at h
  split at h
  · rename_i panic' hshort
    cases h
    exact ⟨_, insnShort_eq_error hshort⟩
  · cases h

theorem draw_eq_error {app : App} (hwf : app.WellIndexed) {hasRoom : Bool} {panic : Panic}
    (h : draw app hasRoom = .error panic) : ∃ insn, panic = midCharacter insn 20 := by
  unfold draw renderTimeline at h
  cases hrows : app.filteredIndices.mapM (timelineRow app) with
  | ok rows => simp only [hrows, reduceCtorEq] at h
  | error panic' =>
      simp only [hrows, Except.error.injEq] at h
      subst h
      obtain ⟨i, hi, hrow⟩ := mapM_eq_error hrows
      exact timelineRow_eq_error (hwf.filtered_lt i hi) hrow

theorem draw_eq_ok {app app' : App} {hasRoom : Bool} (h : draw app hasRoom = .ok app') :
    app' = { app with
      listState :=
        if hasRoom then app.listState.clamp app.filteredIndices.length else app.listState } := by
  unfold draw at h
  split at h
  · cases h
  · cases h
    rfl

end Draw

section Step

theorem handle_key {app app' : App} {code : KeyCode} (h : handleKey platform app code = .ok app') :
    handle platform app (.key code) = .next app' := by
  unfold handle
  dsimp only
  rw [h]

-- All that handling an event can do. Drawing fails where a text is cut, and changes the state of
-- the list only.
inductive Handles (platform : Platform) (app : App) : Event → Flow App Panic → Prop where
  | cut (hasRoom : Bool) (insn : String) :
      Handles platform app (.draw hasRoom) (.stop app (midCharacter insn 20))
  | drawn (hasRoom : Bool) :
      Handles platform app (.draw hasRoom)
        (.next { app with
          listState :=
            if hasRoom then app.listState.clamp app.filteredIndices.length else app.listState })
  | pressed (code : KeyCode) (app' : App) (heffect : Effect platform app code app') :
      Handles platform app (.key code) (.next app')

theorem handle_handles (platform : Platform) {app : App} (hwf : app.WellIndexed) (event : Event) :
    Handles platform app event (handle platform app event) := by
  cases event with
  | draw hasRoom =>
      unfold handle
      dsimp only
      cases hdraw : draw app hasRoom with
      | error panic =>
          obtain ⟨insn, rfl⟩ := draw_eq_error hwf hdraw
          exact .cut hasRoom insn
      | ok app' =>
          rw [draw_eq_ok hdraw]
          exact .drawn hasRoom
  | key code =>
      obtain ⟨app', hkey, heffect⟩ := handleKey_effect code platform hwf
      rw [handle_key hkey]
      exact .pressed code app' heffect

theorem Effect.trace_eq {app app' : App} {code : KeyCode} (h : Effect platform app code app') :
    app'.trace = app.trace := by
  cases h <;> simp

theorem Effect.baseSp_eq {app app' : App} {code : KeyCode} (h : Effect platform app code app') :
    app'.baseSp = app.baseSp := by
  cases h <;> simp

theorem Effect.wellIndexed {app app' : App} {code : KeyCode} (hwf : app.WellIndexed)
    (h : Effect platform app code app') : app'.WellIndexed := by
  obtain ⟨hascending, hfiltered, hcurrent, hzero⟩ := hwf
  cases h with
  | cancel q hmode hcode =>
      exact ⟨List.pairwise_lt_range, fun i hi => List.mem_range.mp hi, hcurrent, hzero⟩
  | moved idx regs hidx =>
      refine ⟨by simpa using hascending, by simpa using hfiltered, fun _ => by simpa using hidx, ?_⟩
      intro hempty
      rw [moveTo_trace] at hempty
      rw [hempty] at hidx
      cases hidx
  | searched q query hmode hnone =>
      exact ⟨List.Pairwise.nil, fun _ hi => (by cases hi), hcurrent, hzero⟩
  | searchedTo q query hmode first rest hsome regs =>
      have hsorted := hsome ▸ matching_ascending platform app.trace query
      have hlt : ∀ i ∈ first :: rest, i < app.trace.length := fun i hi =>
        matching_lt platform app.trace query (hsome ▸ hi)
      have hfirst := hlt first (List.mem_cons_self ..)
      refine ⟨by simpa using hsorted, by simpa using hlt, fun _ => by simpa using hfirst, ?_⟩
      intro hempty
      rw [moveTo_trace] at hempty
      rw [hempty] at hfirst
      cases hfirst
  | _ => exact ⟨hascending, hfiltered, hcurrent, hzero⟩

section Handles

variable {app : App} {event : Event} {after : Flow App Panic}
  (h : Handles platform app event after)
include h

theorem Handles.wellIndexed (hwf : app.WellIndexed) : after.state.WellIndexed := by
  cases h with
  | cut hasRoom => exact hwf
  | drawn hasRoom => exact ⟨hwf.ascending, hwf.filtered_lt, hwf.current_lt, hwf.current_zero⟩
  | pressed code app' heffect => exact heffect.wellIndexed hwf

theorem Handles.trace_eq : after.state.trace = app.trace := by
  cases h with
  | cut hasRoom => rfl
  | drawn hasRoom => rfl
  | pressed code app' heffect => exact heffect.trace_eq

theorem Handles.baseSp_eq : after.state.baseSp = app.baseSp := by
  cases h with
  | cut hasRoom => rfl
  | drawn hasRoom => rfl
  | pressed code app' heffect => exact heffect.baseSp_eq

end Handles

theorem Handles.eq_stop {app : App} {event : Event} {state : App} {panic : Panic}
    (h : Handles platform app event (.stop state panic)) : ∃ insn, panic = midCharacter insn 20 := by
  cases h with
  | cut hasRoom insn => exact ⟨insn, rfl⟩

end Step

section Run

variable (order : HashOrder) (db : TraceDb) (traceFile : String) (events : List Event)

theorem new_wellIndexed : (App.new platform order db traceFile).WellIndexed where
  ascending := List.pairwise_lt_range
  filtered_lt _ hi := List.mem_range.mp hi
  current_lt hne := List.length_pos_iff.mpr hne
  current_zero _ := rfl

-- In all states that key presses and redraws lead to.
theorem visited_wellIndexed :
    ∀ p ∈ visited (handle platform) (App.new platform order db traceFile) events,
      p.1.WellIndexed ∧ p.1.trace = db.getAll :=
  @visited_invariant _ _ _ (handle platform) (fun app => app.WellIndexed ∧ app.trace = db.getAll) _ _
    ⟨new_wellIndexed order db traceFile, rfl⟩ fun p _ h =>
      have hhandles := handle_handles platform h.1 p.2
      ⟨hhandles.wellIndexed h.1, hhandles.trace_eq.trans h.2⟩

end Run

section Index

-- A trace of two entries, and a platform that reads their registers.
def samplePlatform : Platform where
  fromStr text :=
    if text = "\x7b\x7d" then .ok (.obj []) else .error "expected value at line 1 column 1"
  tables := .ascii

def twoEntries : TraceDb :=
  TraceDb.ofInserts "trace.tdb"
    [⟨0, 0x1000, [0x1f, 0x20, 0x03, 0xd5], "nop", "\x7b\x7d", []⟩,
      ⟨1, 0x1004, [0xc0, 0x03, 0x5f, 0xd6], "ret ; RETURN [depth:0]", "\x7b\x7d", []⟩]

def sampleKeys : List Event :=
  [.draw true, .key (.char '/'), .key (.char 'r'), .key .enter, .draw true, .key .pageDown]

theorem midCharacter_ne_outOfBounds (text : String) (n len i : Nat) :
    midCharacter text n ≠ outOfBounds len i := by
  intro h
  have hmessage := congrArg (fun panic => panic.message.toList.head?) h
  unfold midCharacter outOfBounds at hmessage
  rw [Text.midCharacter_head?] at hmessage
  simp only [toString, String.toList_append] at hmessage
  cases hmessage

theorem wrapI64_of_small {n : Int} (hlow : -2 ^ 63 ≤ n) (hhigh : n < 2 ^ 63) : wrapI64 n = n := by
  unfold wrapI64
  exact Int.bmod_eq_of_le_mul_two (by omega) (by omega)

-- The casts of `step` are exact: it aims at the clamped position, and on an empty trace at a
-- position that `select` refuses.
structure StepSafe (app : App) (delta : Int) : Prop where
  exact_target : app.trace ≠ [] →
    (app.stepTarget delta : Int) = max 0 (min (app.current + delta) (app.trace.length - 1))
  refused : app.trace = [] → app.trace.length ≤ app.stepTarget delta

theorem App.WellIndexed.stepSafe {app : App} (hwf : app.WellIndexed)
    (hlen : app.trace.length + 50 < 2 ^ 63) {delta : Int} (hlow : -50 ≤ delta) (hhigh : delta ≤ 50) :
    StepSafe app delta := by
  have hcurrent := hwf.current_le
  have hcast : asI64 app.current = app.current := wrapI64_of_small (by omega) (by omega)
  have hlast : asI64 app.trace.length = app.trace.length := wrapI64_of_small (by omega) (by omega)
  have htarget : app.stepTarget delta =
      asUsize (min (max (app.current + delta) 0) (app.trace.length - 1)) := by
    unfold stepTarget
    rw [hcast, hlast, wrapI64_of_small (by omega) (by omega),
      wrapI64_of_small (by omega) (by omega)]
  constructor
  · intro hne
    have hpos := List.length_pos_iff.mpr hne
    rw [htarget]
    unfold asUsize
    omega
  · intro hempty
    rw [hempty, List.length_nil]
    exact Nat.zero_le _

theorem new_loop_indexSafe (platform : Platform) (order : HashOrder) {db : TraceDb}
    (traceFile : String) (hlen : db.getAll.length + 50 < 2 ^ 63) (events : List Event) :
    ∀ p ∈ visited (handle platform) (App.new platform order db traceFile) events,
      (handle platform p.1 p.2).state.WellIndexed ∧
        (∀ delta, -50 ≤ delta → delta ≤ 50 → StepSafe p.1 delta) ∧
          ∀ state panic, handle platform p.1 p.2 = .stop state panic →
            ∀ len i, panic ≠ outOfBounds len i := by
  intro p hp
  obtain ⟨hwf, htrace⟩ := visited_wellIndexed order db traceFile events p hp
  have hhandles := handle_handles platform hwf p.2
  refine ⟨hhandles.wellIndexed hwf, fun delta hlow hhigh => ?_, fun state panic hstop len i => ?_⟩
  · exact hwf.stepSafe (by rw [htrace]; exact hlen) hlow hhigh
  · rw [hstop] at hhandles
    obtain ⟨insn, rfl⟩ := hhandles.eq_stop
    exact midCharacter_ne_outOfBounds insn 20 len i

theorem new_loop_indexSafe_steps :
    let app := App.new samplePlatform .inKeyOrder twoEntries "trace.tdb"
    ∀ p ∈ visited (handle samplePlatform) app sampleKeys,
      (handle samplePlatform p.1 p.2).state.WellIndexed ∧
        (∀ delta, -50 ≤ delta → delta ≤ 50 → StepSafe p.1 delta) ∧
          ∀ state panic, handle samplePlatform p.1 p.2 = .stop state panic →
            ∀ len i, panic ≠ outOfBounds len i :=
  new_loop_indexSafe samplePlatform .inKeyOrder "trace.tdb" (by decide +kernel) sampleKeys

end Index

section Cursor

-- Wherever the list shows the current entry, that row is the selected one.
def Synced (app : App) : Prop :=
  ∀ pos, app.filteredIndices[pos]? = some app.current → app.listState.selected = some pos

-- Leaving a search with Esc keeps the selected row number while the rows come back.
def CancelsInPlace (app : App) (event : Event) : Prop :=
  event = .key .esc → (∃ q, app.mode = .search q) → app.listState.selected = some app.current

theorem eq_of_getElem?_range {n pos i : Nat} (h : (List.range n)[pos]? = some i) : pos = i := by
  obtain ⟨hlt, heq⟩ := List.getElem?_eq_some_iff.mp h
  simpa using heq

theorem Synced.clamp {app : App} (h : Synced app) :
    Synced { app with listState := app.listState.clamp app.filteredIndices.length } := by
  intro pos hpos
  have hsel : app.listState.selected = some pos := h pos hpos
  have hlt : pos < app.filteredIndices.length := (List.getElem?_eq_some_iff.mp hpos).1
  unfold ListState.clamp
  rw [if_neg (by omega), hsel]
  simp only [if_neg (show ¬pos ≥ app.filteredIndices.length by omega)]

theorem Effect.synced {app app' : App} {code : KeyCode} (hwf : app.WellIndexed)
    (hsynced : Synced app) (h : Effect platform app code app')
    (hstay : code = .esc → ∀ q, app.mode ≠ .search q) : Synced app' := by
  cases h with
  | cancel q hmode hcode => exact False.elim (hstay hcode q hmode)
  | moved idx regs hidx =>
      intro pos hpos
      rw [moveTo_filteredIndices, moveTo_current] at hpos
      exact moveTo_selected regs (hwf.ascending.imp fun hlt => hlt.ne) hpos
  | searched q query hmode hnone =>
      intro pos hpos
      cases hpos
  | searchedTo q query hmode first rest hsome regs =>
      intro pos hpos
      rw [moveTo_filteredIndices, moveTo_current] at hpos
      have hsorted := hsome ▸ matching_ascending platform app.trace query
      have hnodup : (first :: rest).Nodup := hsorted.imp fun hlt => hlt.ne
      exact moveTo_selected regs hnodup hpos
  | _ => exact hsynced

theorem Handles.synced {app : App} {event : Event} {after : Flow App Panic}
    (h : Handles platform app event after) (hwf : app.WellIndexed) (hsynced : Synced app)
    (hstay : event = .key .esc → ∀ q, app.mode ≠ .search q) : Synced after.state := by
  cases h with
  | cut hasRoom => exact hsynced
  | drawn hasRoom =>
      cases hasRoom with
      | true => exact hsynced.clamp
      | false => exact hsynced
  | pressed code app' heffect =>
      exact heffect.synced hwf hsynced fun hesc => hstay (by rw [hesc])

theorem handle_synced_iff {app : App} (hwf : app.WellIndexed) (hne : app.trace ≠ [])
    (hsynced : Synced app) (event : Event) :
    Synced (handle platform app event).state ↔ CancelsInPlace app event := by
  by_cases hcancel : event = .key .esc ∧ ∃ q, app.mode = .search q
  · obtain ⟨rfl, q, hmode⟩ := hcancel
    have hkey : handleKey platform app .esc =
        .ok { app with filteredIndices := List.range app.trace.length, mode := .normal } := by
      unfold handleKey
      rw [hmode]
      rfl
    have hcurrent : (List.range app.trace.length)[app.current]? = some app.current := by
      rw [List.getElem?_range (hwf.current_lt hne)]
    rw [handle_key hkey]
    constructor
    · intro h _ _
      exact h app.current hcurrent
    · intro h pos hpos
      rw [eq_of_getElem?_range hpos]
      exact h rfl ⟨q, hmode⟩
  · have hstay : event = .key .esc → ∀ q, app.mode ≠ .search q := fun hesc q hmode =>
      hcancel ⟨hesc, q, hmode⟩
    refine iff_of_true ?_ fun hesc hsearch => False.elim (hcancel ⟨hesc, hsearch⟩)
    exact (handle_handles platform hwf event).synced hwf hsynced hstay

-- The row that is highlighted and the entry that is shown part only when Esc cancels a search.
theorem new_loop_synced_iff (platform : Platform) (order : HashOrder) {db : TraceDb}
    (traceFile : String) (hne : db.getAll ≠ []) (events : List Event) :
    (∀ p ∈ visited (handle platform) (App.new platform order db traceFile) events,
      Synced (handle platform p.1 p.2).state) ↔
      ∀ p ∈ visited (handle platform) (App.new platform order db traceFile) events,
        CancelsInPlace p.1 p.2 := by
  have hstart : Synced (App.new platform order db traceFile) := by
    intro pos hpos
    have hrow : pos = 0 := eq_of_getElem?_range hpos
    have hnonempty : db.getAll.isEmpty = false := by simpa using hne
    simp [App.new, hrow, hnonempty]
  refine visited_kept_iff (handle platform) hstart fun p hp hsynced => ?_
  obtain ⟨hwf, htrace⟩ := visited_wellIndexed order db traceFile events p hp
  exact handle_synced_iff hwf (by rw [htrace]; exact hne) hsynced p.2

theorem new_loop_synced_iff_steps :
    let app := App.new samplePlatform .inKeyOrder twoEntries "trace.tdb"
    (∀ p ∈ visited (handle samplePlatform) app sampleKeys, Synced (handle samplePlatform p.1 p.2).state) ↔
      ∀ p ∈ visited (handle samplePlatform) app sampleKeys, CancelsInPlace p.1 p.2 :=
  new_loop_synced_iff samplePlatform .inKeyOrder "trace.tdb" (by decide +kernel) sampleKeys

-- Searching for the second of two entries and pressing Esc: row 0 stays highlighted.
theorem loop_cancelled_not_synced :
    ¬ ∀ (db : TraceDb) (events : List Event), db.getAll ≠ [] →
      ∀ p ∈ visited (handle samplePlatform) (App.new samplePlatform .inKeyOrder db "trace.tdb") events,
        Synced (handle samplePlatform p.1 p.2).state := by
  intro h
  have hlast := h twoEntries [.key (.char '/'), .key (.char 'r'), .key .esc] (by decide +kernel) _
    (List.getLast_mem (List.cons_ne_nil _ _))
  have hrow := hlast 1 (by decide +kernel)
  revert hrow
  decide +kernel

end Cursor

section Search

-- The list shows, in their order, the entries whose text contains the query, letter case apart.
structure ShowsMatches (platform : Platform) (app : App) (query : String) : Prop where
  ascending : app.filteredIndices.Pairwise (· < ·)
  mem_iff : ∀ i, i ∈ app.filteredIndices ↔ ∃ e, app.trace[i]? = some e ∧
    (query = "" ∨ Text.contains (platform.tables.toLowercase e.insnText)
      (platform.tables.toLowercase query) = true)

def Coherent (platform : Platform) (app : App) : Prop :=
  ∀ query, app.mode = .search query → ShowsMatches platform app query

-- A search starts from the whole trace, with no filter left over from the search before.
def OpensOnFullList (app : App) (event : Event) : Prop :=
  event = .key (.char '/') → app.mode = .normal →
    app.filteredIndices = List.range app.trace.length

theorem showsMatches_iff (app : App) (query : String) :
    ShowsMatches platform app query ↔
      app.filteredIndices = matching platform app.trace query := by
  have hmem : ∀ i, i ∈ matching platform app.trace query ↔ ∃ e, app.trace[i]? = some e ∧
      (query = "" ∨ Text.contains (platform.tables.toLowercase e.insnText)
        (platform.tables.toLowercase query) = true) := by
    intro i
    rw [mem_matching_iff]
    refine exists_congr fun e => and_congr_right fun _ => ?_
    constructor
    · exact Or.inr
    · rintro (rfl | h)
      · exact (Text.contains_iff _ _).mpr List.nil_infix
      · exact h
  constructor
  · intro h
    exact h.ascending.eq_of_mem_iff (matching_ascending platform app.trace query) fun i =>
      (h.mem_iff i).trans (hmem i).symm
  · intro h
    rw [← h] at hmem
    exact ⟨h ▸ matching_ascending platform app.trace query, hmem⟩

theorem Effect.coherent {app app' : App} {code : KeyCode} (hcoherent : Coherent platform app)
    (h : Effect platform app code app')
    (hstay : code = .char '/' → app.mode ≠ .normal) : Coherent platform app' := by
  cases h with
  | openSearch hmode hcode => exact False.elim (hstay hcode hmode)
  | moved idx regs hidx =>
      intro query hquery
      rw [moveTo_mode] at hquery
      have hshown := (showsMatches_iff app query).mp (hcoherent query hquery)
      rw [showsMatches_iff, moveTo_filteredIndices, moveTo_trace]
      exact hshown
  | searched q query hmode hnone =>
      rintro _ ⟨rfl⟩
      rw [showsMatches_iff]
      exact hnone.symm
  | searchedTo q query hmode first rest hsome regs =>
      intro query' hquery
      rw [moveTo_mode, Mode.search.injEq] at hquery
      subst hquery
      rw [showsMatches_iff, moveTo_filteredIndices, moveTo_trace]
      exact hsome.symm
  | unmoved => exact hcoherent
  | quit =>
      intro query hquery
      have hshown := hcoherent query hquery
      exact ⟨hshown.ascending, hshown.mem_iff⟩
  | _ =>
      intro query hquery
      cases hquery

theorem Handles.coherent {app : App} {event : Event} {after : Flow App Panic}
    (h : Handles platform app event after) (hcoherent : Coherent platform app)
    (hstay : event = .key (.char '/') → app.mode ≠ .normal) : Coherent platform after.state := by
  cases h with
  | cut hasRoom => exact hcoherent
  | drawn hasRoom =>
      intro query hquery
      have hshown := hcoherent query hquery
      exact ⟨hshown.ascending, hshown.mem_iff⟩
  | pressed code app' heffect =>
      exact heffect.coherent hcoherent fun hslash => hstay (by rw [hslash])

theorem handle_coherent_iff {app : App} (hwf : app.WellIndexed)
    (hcoherent : Coherent platform app) (event : Event) :
    Coherent platform (handle platform app event).state ↔ OpensOnFullList app event := by
  by_cases hopen : event = .key (.char '/') ∧ app.mode = .normal
  · obtain ⟨rfl, hmode⟩ := hopen
    have hkey : handleKey platform app (.char '/') = .ok { app with mode := .search "" } := by
      unfold handleKey
      rw [hmode]
      rfl
    rw [handle_key hkey]
    constructor
    · intro h _ _
      exact (showsMatches_iff { app with mode := .search "" } "").mp (h "" rfl)
    · rintro h _ ⟨rfl⟩
      exact (showsMatches_iff _ "").mpr (h rfl hmode)
  · have hstay : event = .key (.char '/') → app.mode ≠ .normal := fun hslash hmode =>
      hopen ⟨hslash, hmode⟩
    refine iff_of_true ?_ fun hslash hmode => False.elim (hopen ⟨hslash, hmode⟩)
    exact (handle_handles platform hwf event).coherent hcoherent hstay

-- The query of a reopened search is empty while the filter of the one before is still on.
theorem new_loop_coherent_iff (platform : Platform) (order : HashOrder) (db : TraceDb)
    (traceFile : String) (events : List Event) :
    (∀ p ∈ visited (handle platform) (App.new platform order db traceFile) events,
      Coherent platform (handle platform p.1 p.2).state) ↔
      ∀ p ∈ visited (handle platform) (App.new platform order db traceFile) events,
        OpensOnFullList p.1 p.2 := by
  have hstart : Coherent platform (App.new platform order db traceFile) := by
    intro query hquery
    cases hquery
  refine visited_kept_iff (handle platform) hstart fun p hp hcoherent => ?_
  obtain ⟨hwf, _⟩ := visited_wellIndexed order db traceFile events p hp
  exact handle_coherent_iff hwf hcoherent p.2

-- A search confirmed with Enter and opened again shows one of two entries for an empty query.
theorem loop_reopened_not_coherent :
    ¬ ∀ (db : TraceDb) (events : List Event),
      ∀ p ∈ visited (handle samplePlatform) (App.new samplePlatform .inKeyOrder db "trace.tdb") events,
        Coherent samplePlatform (handle samplePlatform p.1 p.2).state := by
  intro h
  have hlast := h twoEntries
    [.key (.char '/'), .key (.char 'r'), .key .enter, .key (.char '/')] _
    (List.getLast_mem (List.cons_ne_nil _ _))
  have hshown := (showsMatches_iff _ _).mp (hlast "" (by decide +kernel))
  revert hshown
  decide +kernel

end Search

end Tdb.Tui
