import Tdb.Tui.Theorems

namespace Tdb.Tui

open Tdb.Library Tdb.Storage Tdb.Stats App

-- What the keys alone say of a search: the mode, and the query that the list was last filtered
-- by. Every character that is typed or deleted filters at once. Opening a search does not filter,
-- leaving it with Esc filters by nothing.
structure Search where
  mode : Mode := .normal
  query : String := ""
deriving DecidableEq, Repr

namespace Search

def typed (query : String) : Search where
  mode := .search query
  query := query

def press (search : Search) (code : KeyCode) : Search :=
  match search.mode with
  | .normal =>
      match code with
      | .char '/' => { search with mode := .search "" }
      | .char '?' => { search with mode := .help }
      | _ => search
  | .search q =>
      match code with
      | .esc => {}
      | .enter => { search with mode := .normal }
      | .char c => typed (q.push c)
      | .backspace => typed (String.ofList q.toList.dropLast)
      | _ => search
  | .help => { search with mode := .normal }

def next (search : Search) : Event → Search
  | .draw _ => search
  | .key code => search.press code

end Search

-- The app is in the mode of the search and lists what its query matches.
structure Lists (platform : Platform) (entries : List TraceEntry) (app : App) (search : Search) :
    Prop where
  wellIndexed : app.WellIndexed
  trace_eq : app.trace = entries
  mode_eq : app.mode = search.mode
  listed : app.filteredIndices = App.matching platform entries search.query

variable {platform : Platform} {app : App}

-- A selection changes neither the mode nor the list.
theorem select_keepsList (idx : Nat) :
    ∃ app', app.select platform idx = .ok app' ∧ app'.mode = app.mode ∧
      app'.filteredIndices = app.filteredIndices := by
  by_cases h : idx < app.trace.length
  · obtain ⟨regs, hselect⟩ := select_of_lt platform h
    exact ⟨_, hselect, by simp, by simp⟩
  · exact ⟨app, select_of_ge (by omega), rfl, rfl⟩

theorem filteredBy_obeys (query : String) :
    (app.filteredBy platform query).mode = (Search.typed query).mode ∧
      (app.filteredBy platform query).filteredIndices =
        App.matching platform app.trace (Search.typed query).query :=
  ⟨rfl, rfl⟩

theorem prepared_obeys {search : Search} (hmode : app.mode = search.mode)
    (hlisted : app.filteredIndices = App.matching platform app.trace search.query)
    (code : KeyCode) :
    (app.prepared platform code).mode = (search.press code).mode ∧
      (app.prepared platform code).filteredIndices =
        App.matching platform app.trace (search.press code).query := by
  unfold App.prepared
  rw [hmode]
  obtain ⟨mode, query⟩ := search
  cases mode with
  | normal =>
      unfold App.flagged Search.press
      dsimp only at hmode hlisted ⊢
      split
      all_goals first
        | exact ⟨hmode, hlisted⟩
        | exact ⟨rfl, hlisted⟩
        | skip
      split
      all_goals first
        | exact ⟨hmode, hlisted⟩
        | contradiction
  | search q =>
      have hall : App.matching platform app.trace "" = List.range app.trace.length := rfl
      cases code with
      | esc => exact ⟨rfl, hall.symm⟩
      | enter => exact ⟨rfl, hlisted⟩
      | char c => exact filteredBy_obeys _
      | backspace =>
          dsimp only [App.searching, Search.press]
          exact filteredBy_obeys _
      | _ => exact ⟨hmode, hlisted⟩
  | help => exact ⟨rfl, hlisted⟩

-- What the app does on a key, as the search has it: whether or not there is an entry to go to,
-- the list is that of the query.
theorem Lists.obeys {entries : List TraceEntry} {search : Search}
    (h : Lists platform entries app search) (code : KeyCode) :
    ∃ app', handleKey platform app code = .ok app' ∧ app'.mode = (search.press code).mode ∧
      app'.filteredIndices = App.matching platform app.trace (search.press code).query := by
  obtain ⟨hwf, htrace, hmode, hlisted⟩ := h
  rw [← htrace] at hlisted
  rw [handleKey_eq platform code hwf]
  have hprepared := prepared_obeys hmode hlisted code
  cases asked platform app code with
  | none => exact ⟨_, rfl, hprepared⟩
  | some idx =>
      obtain ⟨app', hselect, hmode', hlisted'⟩ : ∃ app',
          (app.prepared platform code).select platform idx = .ok app' ∧ _ := select_keepsList idx
      exact ⟨app', hselect, hmode'.trans hprepared.1, hlisted'.trans hprepared.2⟩

theorem Lists.handled {entries : List TraceEntry} {search : Search}
    (h : Lists platform entries app search) (event : Event) :
    Lists platform entries (handle platform app event).state (search.next event) := by
  have hhandles := handle_handles platform h.wellIndexed event
  have hwf := hhandles.wellIndexed h.wellIndexed
  have htrace := hhandles.trace_eq.trans h.trace_eq
  cases event with
  | draw hasRoom =>
      refine ⟨hwf, htrace, ?_, ?_⟩
      all_goals generalize handle platform app (.draw hasRoom) = after at hhandles
      · cases hhandles with
        | cut => exact h.mode_eq
        | drawn => exact h.mode_eq
      · cases hhandles with
        | cut => exact h.listed
        | drawn => exact h.listed
  | key code =>
      obtain ⟨app', hkey, hmode, hlisted⟩ := h.obeys code
      rw [h.trace_eq] at hlisted
      rw [handle_key hkey] at hwf htrace ⊢
      exact ⟨hwf, htrace, hmode, hlisted⟩

-- The keys that a session takes, as the search reads them.
def searchOf (platform : Platform) (app : App) (events : List Event) : Search :=
  run Search.next {} ((visited (handle platform) app events).map Prod.snd)

theorem new_loop_lists (platform : Platform) (order : HashOrder) (db : TraceDb)
    (traceFile : String) (events : List Event) :
    let app := App.new platform order db traceFile
    Lists platform db.getAll (loop (handle platform) app events).state
      (searchOf platform app events) := by
  intro app
  have hstart : Lists platform db.getAll app {} :=
    ⟨new_wellIndexed order db traceFile, rfl, rfl, rfl⟩
  exact loop_follows (handle platform) Search.next hstart fun _ _ event h => h.handled event

end Tdb.Tui
