import Tdb.Library.Seek
import Tdb.Viewers

namespace Tdb

open Tdb.Library Tdb.Storage Tdb.Stats Tdb.Tui Tdb.Web

section Finds

variable {σ : Type*} {entries : List TraceEntry} {what : What} {place : σ → Nat}
  {findNext findPrev : σ → σ → Prop}

-- The entries that are looked for.
def markedBy (entries : List TraceEntry) (what : What) (i : Nat) : Bool :=
  entries[i]?.any fun e => matchesFilter e what

theorem lt_of_markedBy {i : Nat} (h : markedBy entries what i = true) : i < entries.length := by
  by_contra hge
  unfold markedBy at h
  rw [List.getElem?_eq_none (by omega)] at h
  cases h

def stopsAhead (entries : List TraceEntry) (what : What) (c : Nat) : List Nat :=
  (List.range entries.length).filter fun i => c < i ∧ markedBy entries what i

def stopsBehind (entries : List TraceEntry) (what : What) (c : Nat) : List Nat :=
  ((List.range entries.length).filter fun i => i < c ∧ markedBy entries what i).reverse

-- What a viewer's two searches do from a state: one goes to the first such entry after the
-- current one, the other to the last before it, nothing at all happens where there is none,
-- repeating one of them makes all the stops there are, and each undoes the other.
structure FindsExactly (entries : List TraceEntry) (what : What) (place : σ → Nat)
    (findNext findPrev : σ → σ → Prop) (s : σ) : Prop where
  next : Seeks (IsNext (markedBy entries what)) place findNext s
  prev : Seeks (IsPrev (markedBy entries what)) place findPrev s
  nexts : ∀ path k s', List.IsChain findNext (s :: path) → (s :: path)[k]? = some s' →
    (place s :: stopsAhead entries what (place s))[
      min k (stopsAhead entries what (place s)).length]? = some (place s')
  prevs : ∀ path k s', List.IsChain findPrev (s :: path) → (s :: path)[k]? = some s' →
    (place s :: stopsBehind entries what (place s))[
      min k (stopsBehind entries what (place s)).length]? = some (place s')
  back : ∀ s' s'', markedBy entries what (place s) = true → findNext s s' →
    place s' ≠ place s → findPrev s' s'' → place s'' = place s
  forth : ∀ s' s'', markedBy entries what (place s) = true → findPrev s s' →
    place s' ≠ place s → findNext s' s'' → place s'' = place s

theorem stopsAhead_stops (c : Nat) :
    Stops (IsNext (markedBy entries what)) c (stopsAhead entries what c) := by
  refine stops_next (List.pairwise_lt_range.filter _) fun i => ?_
  unfold stopsAhead
  rw [List.mem_filter, List.mem_range, decide_eq_true_eq]
  exact and_iff_right_of_imp fun hi => lt_of_markedBy hi.2

theorem stopsBehind_stops (c : Nat) :
    Stops (IsPrev (markedBy entries what)) c (stopsBehind entries what c) := by
  refine stops_prev (List.pairwise_reverse.mpr (List.pairwise_lt_range.filter _)) fun i => ?_
  unfold stopsBehind
  rw [List.mem_reverse, List.mem_filter, List.mem_range, decide_eq_true_eq]
  exact and_iff_right_of_imp fun hi => lt_of_markedBy hi.2

-- It all follows from what a single search does.
theorem findsExactly_of_seeks {Inv : σ → Prop}
    (hnext : ∀ s, Inv s → Seeks (IsNext (markedBy entries what)) place findNext s)
    (hprev : ∀ s, Inv s → Seeks (IsPrev (markedBy entries what)) place findPrev s)
    (hkeepsNext : ∀ s s', Inv s → findNext s s' → Inv s')
    (hkeepsPrev : ∀ s s', Inv s → findPrev s s' → Inv s') {s : σ} (hs : Inv s) :
    FindsExactly entries what place findNext findPrev s where
  next := hnext s hs
  prev := hprev s hs
  nexts _ _ _ hpath hk := stops_visited hnext hkeepsNext hs hpath (stopsAhead_stops _) hk
  prevs _ _ _ hpath hk := stops_visited hprev hkeepsPrev hs hpath (stopsBehind_stops _) hk
  back s' s'' hmarked hgo hmoved hback := by
    have hdest := (hnext s hs).dest_of_moved hgo hmoved
    exact (hprev s' (hkeepsNext s s' hs hgo)).found s'' hback _ (hdest.isPrev hmarked)
  forth s' s'' hmarked hgo hmoved hforth := by
    have hdest := (hprev s hs).dest_of_moved hgo hmoved
    exact (hnext s' (hkeepsPrev s s' hs hgo)).found s'' hforth _ (hdest.isNext hmarked)

end Finds

section Tui

open App

variable {app : App} {platform : Platform} {entries : List TraceEntry}

def tuiNext (platform : Platform) (what : What) (app app' : App) : Prop :=
  app.findNext platform what = .ok app'

def tuiPrev (platform : Platform) (what : What) (app app' : App) : Prop :=
  app.findPrev platform what = .ok app'

theorem selectFirst_seeks (platform : Platform) (what : What) {indices : List Nat}
    (hindices : ∀ i ∈ indices, i < app.trace.length) {dest : Nat → Nat → Prop}
    (hdest : ∀ i, indices.find? (markedBy app.trace what) = some i ↔ dest app.current i)
    {go : App → App → Prop}
    (hgo : ∀ app', go app app' ↔ app.selectFirst platform what indices = .ok app') :
    Seeks dest App.current go app := by
  have hmarked : app.matchesAt what = markedBy app.trace what := rfl
  rw [selectFirst_eq platform what hindices, hmarked] at hgo
  refine .of_found hdest ?_ ?_ ?_
  · cases hfound : indices.find? (markedBy app.trace what) with
    | none =>
        rw [hfound] at hgo
        exact ⟨app, (hgo app).mpr rfl⟩
    | some i =>
        rw [hfound] at hgo
        obtain ⟨app', hselect, _⟩ :=
          select_placed platform (hindices i (List.mem_of_find?_eq_some hfound))
        exact ⟨app', (hgo app').mpr hselect⟩
  · intro i hfound app' hmoves
    rw [hfound] at hgo
    obtain ⟨app'', hselect, hplaced⟩ :=
      select_placed platform (hindices i (List.mem_of_find?_eq_some hfound))
    have hsame := (hgo app').mp hmoves
    dsimp only at hsame
    rw [hselect] at hsame
    cases hsame
    exact hplaced.current_eq
  · intro hnone app' hmoves
    rw [hnone] at hgo
    have hsame := (hgo app').mp hmoves
    cases hsame
    rfl

theorem tuiNext_seeks (platform : Platform) (what : What) (app : App) :
    Seeks (IsNext (markedBy app.trace what)) App.current (tuiNext platform what) app :=
  selectFirst_seeks platform what (fun _ hi => mem_ahead_lt hi)
    (fun _ => find?_ahead_iff fun _ => lt_of_markedBy) fun _ => Iff.rfl

theorem tuiPrev_seeks (platform : Platform) (hwf : app.WellIndexed) (what : What) :
    Seeks (IsPrev (markedBy app.trace what)) App.current (tuiPrev platform what) app := by
  refine selectFirst_seeks platform what (fun _ hi => hwf.mem_behind_lt hi)
    (fun _ => find?_behind_iff) fun app' => ?_
  unfold tuiPrev
  rw [findPrev_eq]

structure Holding (entries : List TraceEntry) (app : App) : Prop where
  wellIndexed : app.WellIndexed
  trace_eq : app.trace = entries

theorem Tui.Effect.holding {code : KeyCode} {app' : App} (h : Tui.Effect platform app code app')
    (hholding : Holding entries app) : Holding entries app' :=
  ⟨h.wellIndexed hholding.wellIndexed, h.trace_eq.trans hholding.trace_eq⟩

theorem selectFirst_holding (platform : Platform) (what : What) {indices : List Nat}
    (hindices : ∀ i ∈ indices, i < app.trace.length) (h : Holding entries app) {app' : App}
    (hselect : app.selectFirst platform what indices = .ok app') : Holding entries app' := by
  rw [selectFirst_eq platform what hindices] at hselect
  split at hselect
  · rename_i idx _
    obtain ⟨app'', hsame, heffect⟩ : ∃ app'', app.select platform idx = .ok app'' ∧
        Tui.Effect platform app (.char 'c') app'' := select_effect _ idx
    rw [hselect, Except.ok.injEq] at hsame
    exact hsame ▸ heffect.holding h
  · cases hselect
    exact h

theorem tui_findsExactly (platform : Platform) (what : What) (h : Holding entries app) :
    FindsExactly entries what App.current (tuiNext platform what) (tuiPrev platform what) app := by
  refine findsExactly_of_seeks ?_ ?_ ?_ ?_ h
  · intro app h
    rw [← h.trace_eq]
    exact tuiNext_seeks platform what app
  · intro app h
    rw [← h.trace_eq]
    exact tuiPrev_seeks platform h.wellIndexed what
  · intro app app' h hgo
    exact selectFirst_holding platform what (fun _ hi => mem_ahead_lt hi) h hgo
  · intro app app' h hgo
    rw [tuiPrev, findPrev_eq] at hgo
    exact selectFirst_holding platform what (fun _ hi => h.wellIndexed.mem_behind_lt hi) h hgo

end Tui

section Web

open Viewer

variable {v : Viewer} {entries : List TraceEntry}

def webNext (browser : Browser) (what : What) (v v' : Viewer) : Prop :=
  ∃ layout, (v.findNext browser layout (findTypeOf what)).viewer = v'

def webPrev (browser : Browser) (what : What) (v v' : Viewer) : Prop :=
  ∃ layout, (v.findPrev browser layout (findTypeOf what)).viewer = v'

structure Carrying (entries : List TraceEntry) (v : Viewer) : Prop where
  trace_eq : v.trace = entries.map Entry.ofTrace
  curr_le : v.curr ≤ entries.length

theorem showFirst_seeks (browser : Browser) (layout : Layout) (what : What)
    (h : Carrying entries v) {indices : List Nat} (hindices : ∀ i ∈ indices, i < entries.length)
    {dest : Nat → Nat → Prop}
    (hdest : ∀ i, indices.find? (markedBy entries what) = some i ↔ dest v.curr i)
    {go : Viewer → Viewer → Prop} (hgo : ∀ v', go v v' ↔ ∃ layout,
      (v.showFirst browser layout (findTypeOf what) indices).viewer = v') :
    Seeks dest Viewer.curr go v := by
  have hmarked : (fun i : Nat => v.trace[i]?.any fun e => Entry.isOf e (findTypeOf what)) =
      markedBy entries what := by
    funext i
    unfold markedBy
    rw [h.trace_eq, List.getElem?_map, Option.any_map]
    simp only [isOf_ofTrace]
  unfold showFirst at hgo
  rw [hmarked] at hgo
  refine .of_found hdest ⟨_, (hgo _).mpr ⟨layout, rfl⟩⟩ ?_ ?_
  · intro i hfound v' hmoves
    rw [hfound] at hgo
    obtain ⟨layout', rfl⟩ := (hgo v').mp hmoves
    have hlt := hindices i (List.mem_of_find?_eq_some hfound)
    rw [← List.length_map Entry.ofTrace, ← h.trace_eq] at hlt
    exact (showStep_shown browser layout' hlt).curr_eq
  · intro hnone v' hmoves
    rw [hnone] at hgo
    obtain ⟨_, rfl⟩ := (hgo v').mp hmoves
    rfl

theorem Carrying.length_eq (h : Carrying entries v) : v.trace.length = entries.length := by
  rw [h.trace_eq, List.length_map]

theorem webNext_seeks (browser : Browser) (layout : Layout) (what : What)
    (h : Carrying entries v) :
    Seeks (IsNext (markedBy entries what)) Viewer.curr (webNext browser what) v := by
  refine showFirst_seeks browser layout what h (fun i hi => ?_)
    (fun _ => find?_ahead_iff fun _ => lt_of_markedBy) fun v' => ?_
  · rw [List.mem_range'_1] at hi
    omega
  · unfold webNext findNext
    rw [h.length_eq]

theorem webPrev_seeks (browser : Browser) (layout : Layout) (what : What)
    (h : Carrying entries v) :
    Seeks (IsPrev (markedBy entries what)) Viewer.curr (webPrev browser what) v := by
  refine showFirst_seeks browser layout what h (fun i hi => ?_) (fun _ => find?_behind_iff)
    fun v' => Iff.rfl
  rw [List.mem_reverse, List.mem_range] at hi
  exact hi.trans_le h.curr_le

theorem Web.Effect.carrying {browser : Browser} {layout : Layout} {handled : Handled}
    (heffect : Web.Effect browser v layout handled) (h : Carrying entries v) :
    Carrying entries handled.viewer := by
  cases heffect with
  | shown idx =>
      have hselected := showStep_selected browser v layout idx
      refine ⟨hselected.trace_eq.trans h.trace_eq, ?_⟩
      rw [hselected.curr_eq, h.length_eq]
      have hle := h.curr_le
      split <;> omega
  | _ => exact ⟨h.trace_eq, h.curr_le⟩

theorem load_carrying (browser : Browser) (layout : Layout) (db : TraceDb) :
    Carrying db.getAll (load browser layout db).viewer := by
  by_cases hreadable : Readable db
  · obtain ⟨first, rest, regs, hall, hparse, hnull⟩ := hreadable
    rw [load_of_readable browser layout db hall hparse hnull]
    exact (Web.Effect.shown 0).carrying ⟨rfl, Nat.zero_le _⟩
  · rw [load_of_not_readable browser layout db hreadable]
    exact ⟨rfl, Nat.zero_le _⟩

theorem web_findsExactly (browser : Browser) (layout : Layout) (what : What)
    (h : Carrying entries v) :
    FindsExactly entries what Viewer.curr (webNext browser what) (webPrev browser what) v := by
  refine findsExactly_of_seeks ?_ ?_ ?_ ?_ h
  · exact fun v h => webNext_seeks browser layout what h
  · exact fun v h => webPrev_seeks browser layout what h
  · rintro v v' h ⟨layout', rfl⟩
    exact (showFirst_outcome browser v layout' _ _).effect.carrying h
  · rintro v v' h ⟨layout', rfl⟩
    exact (showFirst_outcome browser v layout' _ _).effect.carrying h

end Web

-- Both viewers find exactly what there is to find, in every state, and from the same entry they
-- find the same.
theorem new_load_findExactly (platform : Platform) (browser : Browser) (order : HashOrder)
    (layout : Layout) (traceFile : String) (db : TraceDb) (what : What)
    (inputs : List Tui.Event) (events : List Web.Event) :
    let apps := visited (Tui.handle platform) (App.new platform order db traceFile) inputs
    let viewers := trail (Web.next browser) (load browser layout db).viewer events
    (∀ p ∈ apps, FindsExactly db.getAll what App.current (tuiNext platform what)
      (tuiPrev platform what) p.1) ∧
    (∀ q ∈ viewers, FindsExactly db.getAll what Viewer.curr (webNext browser what)
      (webPrev browser what) q.1) ∧
    ∀ p ∈ apps, ∀ q ∈ viewers, p.1.current = q.1.curr → ∀ app' v',
      (tuiNext platform what p.1 app' → webNext browser what q.1 v' → app'.current = v'.curr) ∧
      (tuiPrev platform what p.1 app' → webPrev browser what q.1 v' → app'.current = v'.curr) := by
  intro apps viewers
  have happs : ∀ p ∈ apps, FindsExactly db.getAll what App.current (tuiNext platform what)
      (tuiPrev platform what) p.1 := by
    intro p hp
    obtain ⟨hwf, htrace⟩ := visited_wellIndexed order db traceFile inputs p hp
    exact tui_findsExactly platform what ⟨hwf, htrace⟩
  have hviewers : ∀ q ∈ viewers, FindsExactly db.getAll what Viewer.curr (webNext browser what)
      (webPrev browser what) q.1 := by
    intro q hq
    have hcarrying := trail_invariant (Web.next browser) events (load_carrying browser layout db)
      (fun v event hv => (handle_effect browser v event).carrying hv) q hq
    exact web_findsExactly browser layout what hcarrying
  refine ⟨happs, hviewers, fun p hp q hq hsame app' v' => ⟨fun happ hv => ?_, fun happ hv => ?_⟩⟩
  · exact (happs p hp).next.agree (hviewers q hq).next hsame happ hv
  · exact (happs p hp).prev.agree (hviewers q hq).prev hsame happ hv

end Tdb
