import Tdb.Stats.Accounting
import Tdb.Tui.Panels.Theorems
import Tdb.Tui.Search
import Tdb.Tui.Session.Theorems

namespace Tdb.Tui

open Tdb.Library Tdb.Storage Tdb.Stats Tdb.Tracer Tdb.TraceLoop App

variable {arch : Arch} {start : Tracer} {iterations : List (Iteration arch)} {db : TraceDb}

section Rows

end Rows

section Timeline

variable {platform : Platform} {app : App}

end Timeline

section Highlight

variable {platform : Platform} {app : App}

-- The selected row is one of the list, or at least one of the trace while the list is empty.
structure SelectsRow (app : App) : Prop where
  selected_lt : ∀ pos, app.listState.selected = some pos → pos < app.trace.length
  listed : app.filteredIndices ≠ [] →
    ∀ pos, app.listState.selected = some pos → pos < app.filteredIndices.length

theorem App.WellIndexed.filtered_length_le (h : app.WellIndexed) :
    app.filteredIndices.length ≤ app.trace.length := by
  have hnodup : app.filteredIndices.Nodup := h.ascending.imp fun hlt => hlt.ne
  have hsubset : app.filteredIndices ⊆ List.range app.trace.length := fun i hi =>
    List.mem_range.mpr (h.filtered_lt i hi)
  simpa using (List.subperm_of_subset hnodup hsubset).length_le

theorem SelectsRow.moveTo (h : SelectsRow app) (hwf : app.WellIndexed) (idx : Nat)
    (regs : Option (List (String × Value))) : SelectsRow (app.moveTo idx regs) := by
  have hlength := hwf.filtered_length_le
  unfold App.moveTo syncList
  dsimp only
  split
  · rename_i pos hfound
    have hlt := (List.findIdx?_eq_some_iff_getElem.mp hfound).1
    exact ⟨fun _ hsame => by cases hsame; exact hlt.trans_le hlength,
      fun _ _ hsame => by cases hsame; exact hlt⟩
  · exact ⟨h.selected_lt, h.listed⟩

end Highlight

section Header

variable {platform : Platform} {order : HashOrder} {traceFile : String} {app : App}

end Header

section Sessions

variable {platform : Platform} {states : List (Observation arch)}

end Sessions

end Tdb.Tui
