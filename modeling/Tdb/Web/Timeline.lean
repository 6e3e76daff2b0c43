import Mathlib.Data.List.Perm.Basic
import Tdb.Web.Lemmas

namespace Tdb.Web

open Tdb.Library Tdb.Storage Tdb.Server

variable (browser : Browser)

section Window

-- Row `fi` has a point in common with the visible part of the list.
def InView (scrollTop clientHeight : Pixels) (fi : Nat) : Prop :=
  ∃ y : ℚ, fi * itemH ≤ y ∧ y < (fi + 1) * itemH ∧
    scrollTop.value ≤ y ∧ y < scrollTop.value + clientHeight.value

section Bounds

variable {scrollTop clientHeight : Pixels} {fi len : Nat}

-- Rounding to a double does not carry a quotient past a whole number.
theorem startFi_le (hfi : fi < 2 ^ 53) (h : scrollTop.value < (fi + 1) * itemH) :
    startFi scrollTop ≤ fi := by
  have hquotient : scrollTop.value / itemH ≤ (fi + 1 : ℕ) := by
    rw [div_le_iff₀ (by norm_num [itemH])]
    push_cast
    exact h.le
  have hround : rounded 53 (-1074) (scrollTop.value / itemH) ≤ (fi + 1 : ℕ) :=
    rounded_le (isBinary64_natCast hfi).1 (div_nonneg scrollTop.nonneg (by norm_num [itemH])) hquotient
  unfold startFi Pixels.toDouble Double.divNat
  dsimp only
  rcases Double.round_cases (scrollTop.value / itemH) with ⟨_, hfinite⟩ | ⟨_, hinfinite⟩
  · rw [hfinite]
    have hfloor : ⌊rounded 53 (-1074) (scrollTop.value / itemH)⌋ ≤ (fi + 1 : ℕ) := by
      exact_mod_cast (Int.floor_le _).trans hround
    simp only [buffer]
    omega
  · rw [hinfinite]
    exact Nat.zero_le _

theorem endFi_le (len : Nat) (scrollTop clientHeight : Pixels) :
    endFi len scrollTop clientHeight ≤ len := by
  unfold endFi
  split
  · exact Nat.min_le_left _ _
  · exact Nat.le_refl _

theorem lt_endFi (hlen : fi < len) (hfi : fi * itemH ≤ 2 ^ 53)
    (h : fi * itemH < scrollTop.value + clientHeight.value) :
    fi < endFi len scrollTop clientHeight := by
  have hnonneg := add_nonneg scrollTop.nonneg clientHeight.nonneg
  have hle : ((fi * itemH : ℕ) : ℚ) ≤ scrollTop.value + clientHeight.value := by
    push_cast
    exact h.le
  have hsum := le_rounded (by norm_num) (isBinary64_natCast hfi).1 hnonneg hle
  unfold endFi Pixels.toDouble Double.add
  dsimp only
  rcases Double.round_cases (scrollTop.value + clientHeight.value) with
    ⟨_, hfinite⟩ | ⟨_, hinfinite⟩
  · rw [hfinite]
    unfold Double.divNat
    dsimp only
    generalize rounded 53 (-1074) (scrollTop.value + clientHeight.value) = sum at hsum ⊢
    have hquotient : (fi : ℚ) ≤ sum / itemH := by
      rw [le_div_iff₀ (by norm_num [itemH])]
      exact_mod_cast hsum
    have hsmall : fi ≤ 2 ^ 53 := by
      unfold itemH at hfi
      omega
    have hround := le_rounded (by norm_num) (isBinary64_natCast hsmall).1
      ((Nat.cast_nonneg fi).trans hquotient) hquotient
    rcases Double.round_cases (sum / itemH) with ⟨_, hfinite⟩ | ⟨_, hinfinite⟩
    · rw [hfinite]
      have hceil : (fi : ℤ) ≤ ⌈rounded 53 (-1074) (sum / itemH)⌉ := by
        exact_mod_cast hround.trans (Int.le_ceil _)
      simp only [buffer]
      omega
    · rw [hinfinite]
      exact hlen
  · rw [hinfinite]
    exact hlen

end Bounds

-- Distinct places of a window, with those that are missing added, are all of its places.
theorem window_perm {kept window : List Nat} (hkept : kept.Nodup) (hwindow : window.Nodup)
    (hsub : ∀ fi ∈ kept, fi ∈ window) :
    (kept ++ window.filter fun fi => decide (fi ∉ kept)).Perm window := by
  rw [List.perm_ext_iff_of_nodup]
  · intro fi
    rw [List.mem_append, List.mem_filter, decide_eq_true_eq]
    by_cases hfi : fi ∈ kept
    · simp [hfi, hsub fi hfi]
    · simp [hfi]
  · apply hkept.append (hwindow.filter _)
    intro fi hfi hmissing
    exact of_decide_eq_true (List.mem_filter.mp hmissing).2 hfi
  · exact hwindow

end Window

section Rows

-- The row stands for place `fi` of the current filter and shows the entry there.
structure Viewer.Shows (v : Viewer) (row : Row) : Prop where
  top_eq : row.top = row.fi * itemH
  listed : v.filteredIndices[row.fi]? = some row.i
  entry : ∃ e, v.trace[row.i]? = some e ∧ row.content = rowContent browser e

-- No row is left over from an earlier filter.
structure Viewer.Tracks (v : Viewer) : Prop where
  filtered_lt : ∀ i ∈ v.filteredIndices, i < v.trace.length
  filtered_length : v.filteredIndices.length ≤ v.trace.length
  distinct : (v.rows.map Row.fi).Nodup
  shows : ∀ row ∈ v.rows, v.Shows browser row

variable {v : Viewer}

namespace Viewer

theorem makeRow_of_lt (hfiltered : ∀ i ∈ v.filteredIndices, i < v.trace.length) {fi : Nat}
    (hfi : fi < v.filteredIndices.length) :
    ∃ row, v.makeRow browser fi = some row ∧ row.fi = fi ∧ v.Shows browser row := by
  have hlisted := List.getElem?_eq_getElem hfi
  have hlt := hfiltered _ (List.getElem_mem hfi)
  obtain ⟨e, hentry⟩ : ∃ e, v.trace[v.filteredIndices[fi]]? = some e :=
    ⟨_, List.getElem?_eq_getElem hlt⟩
  refine ⟨⟨fi, fi * itemH, v.filteredIndices[fi], rowContent browser e,
    v.filteredIndices[fi] == v.curr⟩, ?_, rfl, rfl, hlisted, e, hentry, rfl⟩
  unfold makeRow
  rw [hlisted]
  dsimp only
  rw [hentry]

theorem filterMap_makeRow (hfiltered : ∀ i ∈ v.filteredIndices, i < v.trace.length)
    {places : List Nat} (hplaces : ∀ fi ∈ places, fi < v.filteredIndices.length) :
    (places.filterMap (v.makeRow browser)).map Row.fi = places ∧
      ∀ row ∈ places.filterMap (v.makeRow browser), v.Shows browser row := by
  induction places with
  | nil => simp
  | cons fi rest ih =>
      obtain ⟨row, hrow, hplace, hshows⟩ :=
        makeRow_of_lt browser hfiltered (hplaces fi (List.mem_cons_self ..))
      obtain ⟨hfis, hall⟩ := ih fun x hx => hplaces x (List.mem_cons_of_mem fi hx)
      rw [List.filterMap_cons_some hrow]
      constructor
      · rw [List.map_cons, hplace, hfis]
      · intro r hr
        rcases List.mem_cons.mp hr with rfl | hr
        · exact hshows
        · exact hall r hr

section Render

variable {browser} (h : v.Tracks browser) (scrollTop clientHeight : Pixels)
include h

-- The rows that are kept and those that are added have the places of the window between them.
theorem renderVisible_places :
    ((v.renderVisible browser scrollTop clientHeight).rows.map Row.fi).Perm
      (List.range' (startFi scrollTop)
        (endFi v.filteredIndices.length scrollTop clientHeight - startFi scrollTop)) := by
  have hend := endFi_le v.filteredIndices.length scrollTop clientHeight
  unfold renderVisible
  dsimp only
  generalize startFi scrollTop = start
  generalize endFi v.filteredIndices.length scrollTop clientHeight = finish at hend ⊢
  generalize hkept : v.rows.filter (fun row => start ≤ row.fi && row.fi < finish) = kept
  have hmissing : ((List.range' start (finish - start)).filter fun fi =>
      !kept.any fun row => row.fi == fi) =
        (List.range' start (finish - start)).filter fun fi => decide (fi ∉ kept.map Row.fi) := by
    apply List.filter_congr
    intro fi _
    rw [Bool.eq_iff_iff]
    simp
  have hplaces : ∀ fi ∈ (List.range' start (finish - start)).filter (fun fi =>
      decide (fi ∉ kept.map Row.fi)), fi < v.filteredIndices.length := by
    intro fi hfi
    have hrange := (List.mem_filter.mp hfi).1
    rw [List.mem_range'_1] at hrange
    omega
  rw [List.map_append, hmissing, (filterMap_makeRow browser h.filtered_lt hplaces).1]
  apply window_perm
  · exact h.distinct.sublist (hkept ▸ List.filter_sublist.map Row.fi)
  · exact List.nodup_range'
  · intro fi hfi
    obtain ⟨row, hrow, rfl⟩ := List.mem_map.mp hfi
    rw [← hkept, List.mem_filter, Bool.and_eq_true, decide_eq_true_eq, decide_eq_true_eq] at hrow
    rw [List.mem_range'_1]
    omega

theorem renderVisible_shows :
    ∀ row ∈ (v.renderVisible browser scrollTop clientHeight).rows, v.Shows browser row := by
  intro row hrow
  unfold renderVisible at hrow
  rcases List.mem_append.mp hrow with hkept | hnew
  · exact h.shows row (List.mem_filter.mp hkept).1
  · refine (filterMap_makeRow browser h.filtered_lt ?_).2 row hnew
    intro fi hfi
    have hend := endFi_le v.filteredIndices.length scrollTop clientHeight
    have hrange := (List.mem_filter.mp hfi).1
    rw [List.mem_range'_1] at hrange
    omega

theorem Tracks.renderVisible :
    (v.renderVisible browser scrollTop clientHeight).Tracks browser where
  filtered_lt := h.filtered_lt
  filtered_length := h.filtered_length
  distinct := (renderVisible_places h scrollTop clientHeight).nodup_iff.mpr List.nodup_range'
  shows row hrow :=
    have hshows := renderVisible_shows h scrollTop clientHeight row hrow
    ⟨hshows.top_eq, hshows.listed, hshows.entry⟩

end Render

end Viewer

-- What the timeline shows after a render: one row for each place of the window and no other,
-- each in its place and with its entry, and among them all places in view.
structure ShowsWindow (r : Render) : Prop where
  one_each : (r.viewer.rows.map Row.fi).Perm
    (List.range' (startFi r.scrollTop)
      (endFi r.viewer.filteredIndices.length r.scrollTop r.clientHeight - startFi r.scrollTop))
  shows : ∀ row ∈ r.viewer.rows, r.viewer.Shows browser row
  covers : ∀ fi < r.viewer.filteredIndices.length, InView r.scrollTop r.clientHeight fi →
    fi ∈ r.viewer.rows.map Row.fi

variable {browser}

theorem Viewer.Tracks.rendered (h : v.Tracks browser) (hlen : v.trace.length < 2 ^ 32)
    (scrollTop clientHeight : Pixels) :
    ShowsWindow browser (v.rendered browser scrollTop clientHeight) where
  one_each := Viewer.renderVisible_places h scrollTop clientHeight
  shows := h.renderVisible scrollTop clientHeight |>.shows
  covers := by
    intro fi hfi ⟨y, hlow, hhigh, htop, hbottom⟩
    have hplaces := Viewer.renderVisible_places h scrollTop clientHeight
    have hfi' : fi < v.filteredIndices.length := hfi
    have hlength := h.filtered_length
    have hstart : startFi scrollTop ≤ fi := startFi_le (by omega) (htop.trans_lt hhigh)
    have hfinish : fi < endFi v.filteredIndices.length scrollTop clientHeight :=
      lt_endFi hfi' (by unfold itemH; omega) (hlow.trans_lt hbottom)
    have hmem : fi ∈ List.range' (startFi scrollTop)
        (endFi v.filteredIndices.length scrollTop clientHeight - startFi scrollTop) := by
      rw [List.mem_range'_1]
      omega
    exact hplaces.mem_iff.mpr hmem

end Rows

section Events

open Viewer

variable {browser} {v : Viewer} {layout : Layout}

theorem Viewer.SameTimeline.tracks {v' : Viewer} (hsame : v.SameTimeline v')
    (h : v.Tracks browser) : v'.Tracks browser := by
  obtain ⟨htrace, hfiltered, hrows⟩ := hsame
  refine ⟨?_, ?_, hrows ▸ h.distinct, ?_⟩
  · rw [htrace, hfiltered]
    exact h.filtered_lt
  · rw [htrace, hfiltered]
    exact h.filtered_length
  · intro row hrow
    rw [hrows] at hrow
    obtain ⟨htop, hlisted, hentry⟩ := h.shows row hrow
    exact ⟨htop, hfiltered ▸ hlisted, htrace ▸ hentry⟩

-- The class `active` is no part of what a row shows.
theorem Viewer.Tracks.toggle (h : v.Tracks browser) (active : Row → Bool) :
    Viewer.Tracks browser
      { v with rows := v.rows.map fun row => { row with active := active row } } := by
  refine ⟨h.filtered_lt, h.filtered_length, ?_, ?_⟩
  · simpa [Function.comp_def] using h.distinct
  · intro row hrow
    obtain ⟨row', hrow', rfl⟩ := List.mem_map.mp hrow
    obtain ⟨htop, hlisted, hentry⟩ := h.shows row' hrow'
    exact ⟨htop, hlisted, hentry⟩

theorem matching_lt {trace : List Entry} {q : String} :
    ∀ i ∈ matching browser trace q, i < trace.length := by
  intro i hi
  unfold matching at hi
  split at hi
  · exact List.mem_range.mp hi
  · obtain ⟨⟨e, j⟩, hmem, rfl⟩ := List.mem_map.mp hi
    have hentry := List.mk_mem_zipIdx_iff_getElem?.mp (List.mem_filter.mp hmem).1
    exact (List.getElem?_eq_some_iff.mp hentry).1

theorem length_matching_le {trace : List Entry} {q : String} :
    (matching browser trace q).length ≤ trace.length := by
  unfold matching
  split
  · rw [List.length_range]
  · rw [List.length_map]
    exact (List.length_filter_le _ _).trans (List.length_zipIdx ..).le

-- The rows are tracked after the event, and every render on the way was one of a page whose
-- rows were.
structure Tracked (browser : Browser) (trace : List Entry) (handled : Handled) : Prop where
  trace_eq : handled.viewer.trace = trace
  tracks : handled.viewer.Tracks browser
  renders : ∀ r ∈ handled.renders, ∃ v scrollTop clientHeight,
    r = Viewer.rendered browser v scrollTop clientHeight ∧ v.trace = trace ∧ v.Tracks browser

theorem unchanged_tracked (h : v.Tracks browser) : Tracked browser v.trace { viewer := v } :=
  ⟨rfl, h, by simp⟩

theorem rendered_tracked (h : v.Tracks browser) (scrollTop clientHeight : Pixels) :
    Tracked browser v.trace
      { viewer := (v.rendered browser scrollTop clientHeight).viewer
        renders := [v.rendered browser scrollTop clientHeight] } :=
  ⟨rfl, h.renderVisible _ _, fun _ hr => ⟨v, _, _, List.mem_singleton.mp hr, rfl, h⟩⟩

theorem scrollToActive_tracked (h : v.Tracks browser) (layout : Layout) :
    Tracked browser v.trace (v.scrollToActive browser layout) := by
  unfold scrollToActive
  split
  · exact unchanged_tracked h
  · exact ⟨rfl, (h.renderVisible _ _).toggle _, (rendered_tracked h _ _).renders⟩

theorem cleared_tracks (browser : Browser) (v : Viewer) :
    Viewer.Tracks browser
      { v with
        filteredIndices := matching browser v.trace (browser.tables.toLowercase v.searchInput)
        rows := [] } :=
  ⟨matching_lt, length_matching_le, List.nodup_nil, by simp⟩

theorem applyFilter_tracked (browser : Browser) (v : Viewer) (layout : Layout) :
    Tracked browser v.trace (v.applyFilter browser layout) :=
  rendered_tracked (cleared_tracks browser v) layout.scrollTop layout.clientHeight

theorem showStep_tracked (h : v.Tracks browser) (layout : Layout) (idx : Int) :
    Tracked browser v.trace (v.showStep browser layout idx) := by
  by_cases hidx : idx < 0 ∨ idx ≥ v.trace.length
  · rw [showStep_of_refused hidx]
    exact unchanged_tracked h
  · obtain ⟨i, rfl⟩ := Int.eq_ofNat_of_zero_le (show 0 ≤ idx by omega)
    have hi : i < v.trace.length := by omega
    obtain ⟨v', hkeeps, hshow⟩ := showStep_of_lt browser layout hi
    have hsame : v.SameTimeline v' :=
      ⟨hkeeps.trace_eq, hkeeps.filteredIndices_eq, hkeeps.rows_eq⟩
    rw [← hsame.trace_eq]
    rcases hshow with hshow | hshow
    · rw [hshow]
      exact unchanged_tracked (hsame.tracks h)
    · rw [hshow]
      exact scrollToActive_tracked (hsame.tracks h) layout

theorem Effect.tracked {handled : Handled} (heffect : Effect browser v layout handled)
    (h : v.Tracks browser) : Tracked browser v.trace handled := by
  cases heffect with
  | still helpVisible =>
      have hsame : v.SameTimeline { v with helpVisible } := ⟨rfl, rfl, rfl⟩
      exact unchanged_tracked (hsame.tracks h)
  | shown idx => exact showStep_tracked h layout idx
  | scrolled => exact rendered_tracked h _ _
  | filtered searchInput => exact applyFilter_tracked browser { v with searchInput } layout

theorem load_tracked (browser : Browser) (layout : Layout) (db : TraceDb) :
    Tracked browser (db.getAll.map Entry.ofTrace) (load browser layout db) := by
  by_cases hreadable : Readable db
  · obtain ⟨first, rest, regs, hall, hparse, hne⟩ := hreadable
    have hopened : Viewer.Tracks browser
        { opened (db.getAll.map Entry.ofTrace) db.count regs with listening := true } :=
      ⟨fun i hi => List.mem_range.mp hi, List.length_range.le, List.nodup_nil, by simp [opened]⟩
    have hfirst := rendered_tracked hopened layout.scrollTop layout.clientHeight
    have hshown := showStep_tracked hfirst.tracks layout 0
    rw [load_of_readable browser layout db hall hparse hne]
    refine ⟨hshown.trace_eq, hshown.tracks, ?_⟩
    intro r hr
    rcases List.mem_cons.mp hr with rfl | hr
    · exact hfirst.renders _ (List.mem_singleton_self _)
    · exact hshown.renders r hr
  · rw [load_of_not_readable browser layout db hreadable]
    exact ⟨rfl, ⟨by simp, by simp, by simp, by simp⟩, by simp⟩

end Events

section Run

end Run

end Tdb.Web
