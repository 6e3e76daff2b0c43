import Tdb.Tui.Search
import Tdb.Viewers.Find

namespace Tdb

open Tdb.Library Tdb.Storage Tdb.Stats Tdb.Tui Tdb.Web

section Web

open Viewer

variable {browser : Browser} {v : Viewer} {layout : Layout}

-- The timeline lists what the text in the search box matches.
def Filtered (browser : Browser) (v : Viewer) : Prop :=
  v.filteredIndices =
    Viewer.matching browser v.trace (browser.tables.toLowercase v.searchInput)

structure KeepsFilter (v v' : Viewer) : Prop where
  trace_eq : v'.trace = v.trace
  searchInput_eq : v'.searchInput = v.searchInput
  filteredIndices_eq : v'.filteredIndices = v.filteredIndices

theorem KeepsFilter.filtered {v' : Viewer} (h : KeepsFilter v v') (hfiltered : Filtered browser v) :
    Filtered browser v' := by
  unfold Filtered
  rw [h.trace_eq, h.searchInput_eq, h.filteredIndices_eq]
  exact hfiltered

theorem showDetail_searchInput (browser : Browser) (v : Viewer) (e : Entry) :
    (v.showDetail browser e).state.searchInput = v.searchInput := by
  unfold showDetail
  split
  · rfl
  · rfl
  · dsimp only
    split
    · rfl
    · split
      · rfl
      · split <;> rfl

theorem showStep_keepsFilter (browser : Browser) (v : Viewer) (layout : Layout) (idx : Int) :
    KeepsFilter v (v.showStep browser layout idx).viewer := by
  by_cases hidx : idx < 0 ∨ idx ≥ v.trace.length
  · rw [showStep_of_refused hidx]
    exact ⟨rfl, rfl, rfl⟩
  · obtain ⟨i, rfl⟩ := Int.eq_ofNat_of_zero_le (show 0 ≤ idx by omega)
    have hi : i < v.trace.length := by omega
    obtain ⟨rows, tlCount, hshow⟩ :=
      showStep_redraws browser layout (List.getElem?_eq_getElem hi)
    have hkeeps := showDetail_keepsPlace browser { v with curr := i } v.trace[i]
    rw [hshow]
    exact ⟨hkeeps.trace_eq, showDetail_searchInput browser { v with curr := i } v.trace[i],
      hkeeps.filteredIndices_eq⟩

theorem Web.Effect.filtered_viewer {handled : Handled} (heffect : Web.Effect browser v layout handled)
    (h : Filtered browser v) : Filtered browser handled.viewer := by
  cases heffect with
  | still helpVisible => exact h
  | shown idx => exact (showStep_keepsFilter browser v layout idx).filtered h
  | scrolled => exact h
  | filtered searchInput => rfl

theorem load_filtered_iff (browser : Browser) (layout : Layout) (db : TraceDb) :
    Filtered browser (load browser layout db).viewer ↔ (db.getAll ≠ [] → Readable db) := by
  by_cases hreadable : Readable db
  · refine iff_of_true ?_ fun _ => hreadable
    obtain ⟨first, rest, regs, hall, hparse, hnull⟩ := hreadable
    rw [load_of_readable browser layout db hall hparse hnull]
    exact (showStep_keepsFilter browser _ layout 0).filtered rfl
  · rw [load_of_not_readable browser layout db hreadable]
    have hall : Viewer.matching browser (db.getAll.map Entry.ofTrace) "" =
        List.range db.getAll.length := by
      unfold Viewer.matching
      rw [if_pos rfl, List.length_map]
    have hiff : Filtered browser { trace := db.getAll.map Entry.ofTrace } ↔
        [] = List.range db.getAll.length := by
      rw [← hall]
      rfl
    rw [hiff, eq_comm, List.range_eq_nil, List.length_eq_zero_iff]
    exact ⟨fun hempty hne => False.elim (hne hempty), fun h => by_contra fun hne => hreadable (h hne)⟩

-- What the page lists is the search box's on every page exactly if it is on the loaded one.
theorem run_filtered_iff (browser : Browser) (layout : Layout) (db : TraceDb) :
    (∀ events, Filtered browser (run (Web.next browser) (load browser layout db).viewer events)) ↔
      (db.getAll ≠ [] → Readable db) := by
  rw [← load_filtered_iff browser layout db]
  constructor
  · intro h
    exact h []
  · intro h events
    exact run_invariant (Web.next browser) events h fun v event hv =>
      (handle_effect browser v event).filtered_viewer hv

theorem run_carrying (browser : Browser) (layout : Layout) (db : TraceDb)
    (events : List Web.Event) :
    Carrying db.getAll (run (Web.next browser) (load browser layout db).viewer events) :=
  run_invariant (Web.next browser) events (load_carrying browser layout db) fun v event hv =>
    (handle_effect browser v event).carrying hv

end Web

section Both

-- One query matches the same entries in both scripts, as they lower-case by the same tables.
theorem matching_ofTrace {platform : Platform} {browser : Browser}
    (htables : browser.tables = platform.tables) (entries : List TraceEntry) (query : String) :
    Viewer.matching browser (entries.map Entry.ofTrace) (platform.tables.toLowercase query) =
      App.matching platform entries query := by
  unfold Viewer.matching App.matching
  rw [htables, List.length_map, List.zipIdx_map, List.filter_map, List.map_map]
  dsimp only
  by_cases hempty : platform.tables.toLowercase query = ""
  · rw [if_pos hempty, if_pos (String.isEmpty_iff.mpr hempty)]
  · rw [if_neg hempty, if_neg (by simpa using hempty)]
    rfl

-- What the two viewers list of one trace, after any keys in one and anything on the page of the
-- other: the terminal what its keys say, the page what its box says, and both the same when
-- they are asked for the same and lower-case by the same tables. Sessions on the page begin when
-- the trace is loaded, with nothing in the box.
structure ListAlike (platform : Platform) (browser : Browser) (db : TraceDb) (app : App)
    (search : Search) (page : List Web.Event → Viewer) : Prop where
  mode_eq : app.mode = search.mode
  listed : app.filteredIndices = App.matching platform db.getAll search.query
  filtered_iff : (∀ events, Filtered browser (page events)) ↔ (db.getAll ≠ [] → Readable db)
  alike : browser.tables = platform.tables → ∀ events, Filtered browser (page events) →
    platform.tables.toLowercase search.query =
      platform.tables.toLowercase (page events).searchInput →
    app.filteredIndices = (page events).filteredIndices

theorem new_load_listAlike (platform : Platform) (browser : Browser) (order : HashOrder)
    (layout : Layout) (traceFile : String) (db : TraceDb) (inputs : List Tui.Event) :
    let app := App.new platform order db traceFile
    ListAlike platform browser db (loop (Tui.handle platform) app inputs).state
      (searchOf platform app inputs)
      (run (Web.next browser) (load browser layout db).viewer) := by
  intro app
  have hlists := new_loop_lists platform order db traceFile inputs
  refine ⟨hlists.mode_eq, hlists.listed, run_filtered_iff browser layout db, ?_⟩
  intro htables events hfiltered hsame
  have hcarrying := run_carrying browser layout db events
  unfold Filtered at hfiltered
  rw [hlists.listed, hfiltered, hcarrying.trace_eq, htables, ← hsame,
    matching_ofTrace htables db.getAll (searchOf platform app inputs).query]

end Both

end Tdb
