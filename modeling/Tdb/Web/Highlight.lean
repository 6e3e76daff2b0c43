import Tdb.Web.Timeline

namespace Tdb.Web

open Tdb.Library Tdb.Storage Viewer

variable {browser : Browser} {v : Viewer} {layout : Layout}

section Panels

-- The registers of the entry can be put on the page: there is a stack pointer among them, and
-- they all have digits.
def Displayable (browser : Browser) (arch : String) (e : Entry) : Prop :=
  ∃ regs sp text, parseJson e.regs = some regs ∧
    regs.member (if arch = "x86_64" then "rsp" else "sp") = some sp ∧
      toString16 browser sp = some text ∧ ∀ m ∈ regs.entries, (toString16 browser m.2).isSome

-- Nothing throws before the entry is on the page.
def Viewer.Displays (browser : Browser) (v : Viewer) (e : Entry) : Prop :=
  v.BaseConverts browser ∧ Displayable browser v.arch e

-- The panels show this entry.
structure Details (browser : Browser) (d : Detail) (e : Entry) : Prop where
  step_eq : d.step = e.step
  pc_eq : d.pc = "PC: 0x" ++ padStart (toUpperCase browser (numberToString16 browser e.pc)) 16
  insn_eq : d.insn = e.insnText
  bytes_eq : d.bytes = " ".intercalate (e.insnBytes.map fun b => toUpperCase browser (hexByte b))
  type_eq : d.type = insnType e
  registers : ∃ regs prevRegs, parseJson e.regs = some regs ∧
    regs.entries.mapM (registerOf browser prevRegs) = some d.registers
  memory_eq : d.memory = e.memChanges.map (memRow browser)

theorem registerOf_isSome (prevRegs : Option Value) (m : String × Value) :
    (registerOf browser prevRegs m).isSome = (toString16 browser m.2).isSome := by
  unfold registerOf
  cases toString16 browser m.2 with
  | none => rfl
  | some text => rfl

-- What showing an entry leaves when it comes through.
structure Displayed (browser : Browser) (v : Viewer) (e : Entry) (v' : Viewer) : Prop where
  arch_eq : v'.arch = v.arch
  details : Details browser v'.detail e

theorem showDetail_of_displayable {e : Entry} (hbase : v.BaseConverts browser)
    (h : Displayable browser v.arch e) :
    ∃ v', v.showDetail browser e = .next v' ∧ v'.BaseConverts browser ∧
      Displayed browser v e v' := by
  obtain ⟨regs, sp, text, hparse, hmember, htext, hall⟩ := h
  have hsp := toNumber_isSome_of_toString16 htext
  obtain ⟨delta, hdelta⟩ := Option.isSome_iff_exists.mp ((minus_isSome_iff hsp).mpr hbase)
  obtain ⟨rows, hrows⟩ := (exists_mapM_iff (f := registerOf browser v.prevRegs)).mpr fun m hm => by
    rw [registerOf_isSome]
    exact hall m hm
  exact ⟨_, showDetail_eq_next hparse hmember hdelta htext hrows, baseFor_converts hbase hsp, rfl,
    rfl, rfl, rfl, rfl, rfl, ⟨_, _, hparse, hrows⟩, rfl⟩

theorem showDetail_arch (browser : Browser) (v : Viewer) (e : Entry) :
    (v.showDetail browser e).state.arch = v.arch := by
  unfold showDetail
  split
  · rfl
  · rfl
  · dsimp only
    split
    · rfl
    · split
      · rfl
      · split <;> rfl

theorem showStep_arch (browser : Browser) (v : Viewer) (layout : Layout) (idx : Int) :
    (v.showStep browser layout idx).viewer.arch = v.arch := by
  by_cases hidx : idx < 0 ∨ idx ≥ v.trace.length
  · rw [showStep_of_refused hidx]
  · obtain ⟨i, rfl⟩ := Int.eq_ofNat_of_zero_le (show 0 ≤ idx by omega)
    have hi : i < v.trace.length := by omega
    obtain ⟨rows, tlCount, hshow⟩ :=
      showStep_redraws browser layout (List.getElem?_eq_getElem hi)
    rw [hshow]
    exact showDetail_arch browser { v with curr := i } v.trace[i]

theorem displays_of_showDetail {e : Entry} {v' : Viewer}
    (h : v.showDetail browser e = .next v') : v.Displays browser e := by
  unfold showDetail at h
  split at h
  · cases h
  · cases h
  · rename_i regs hne hparse
    dsimp only at h
    split at h
    · cases h
    · rename_i delta hdelta
      split at h
      · cases h
      · rename_i text hdigits
        obtain ⟨sp, hmember, htext⟩ := Option.bind_eq_some_iff.mp hdigits
        split at h
        · cases h
        · rename_i rows hrows
          rw [hmember] at hdelta
          refine ⟨(minus_isSome_iff (toNumber_isSome_of_toString16 htext)).mp (by rw [hdelta]; rfl),
            regs, sp, text, hparse, hmember, htext, fun m hm => ?_⟩
          rw [← registerOf_isSome v.prevRegs]
          exact exists_mapM_iff.mp ⟨rows, hrows⟩ m hm

end Panels

section Active

-- The rows that carry the class `active` are those of the current entry.
def Viewer.ActiveIsCurrent (v : Viewer) : Prop :=
  ∀ row ∈ v.rows, (row.active = true ↔ row.i = v.curr)

theorem Viewer.ActiveIsCurrent.renderVisible (h : v.ActiveIsCurrent)
    (scrollTop clientHeight : Pixels) :
    (v.renderVisible browser scrollTop clientHeight).ActiveIsCurrent := by
  intro row hrow
  unfold Viewer.renderVisible at hrow
  rcases List.mem_append.mp hrow with hkept | hnew
  · exact h row (List.mem_filter.mp hkept).1
  · obtain ⟨fi, _, hmake⟩ := List.mem_filterMap.mp hnew
    unfold makeRow at hmake
    split at hmake
    · cases hmake
    · split at hmake
      · cases hmake
      · cases hmake
        exact beq_iff_eq

end Active

section Selection

-- All entries come on the page, no entry is listed twice, and the panels show the current one.
structure ShowsCurrent (browser : Browser) (v : Viewer) : Prop where
  base : v.BaseConverts browser
  displayable : ∀ e ∈ v.trace, Displayable browser v.arch e
  nodup : v.filteredIndices.Nodup
  details : ∀ e, v.trace[v.curr]? = some e → Details browser v.detail e

theorem matching_nodup (trace : List Entry) (q : String) : (matching browser trace q).Nodup := by
  unfold matching
  split
  · exact List.nodup_range
  · have hplaces : (trace.zipIdx.map Prod.snd).Nodup := by
      rw [List.zipIdx_map_snd]
      exact List.nodup_range'
    exact hplaces.sublist (List.filter_sublist.map Prod.snd)

theorem showStep_showsCurrent_of_lt (hbase : v.BaseConverts browser)
    (hdisplayable : ∀ e ∈ v.trace, Displayable browser v.arch e)
    (hnodup : v.filteredIndices.Nodup) (layout : Layout) {i : Nat} (hi : i < v.trace.length) :
    ShowsCurrent browser (v.showStep browser layout i).viewer := by
  have hentry := List.getElem?_eq_getElem hi
  obtain ⟨v', hnext, hbase', hdisplayed⟩ := showDetail_of_displayable (v := { v with curr := i })
    hbase (hdisplayable _ (List.getElem_mem hi))
  have hkeeps := showDetail_keepsPlace browser { v with curr := i } v.trace[i]
  obtain ⟨rows, tlCount, hshow⟩ := showStep_redraws browser layout hentry
  rw [hnext, Flow.state_next] at hkeeps hshow
  rw [hshow]
  refine ⟨hbase', ?_, ?_, ?_⟩
  · dsimp only
    rw [hkeeps.trace_eq, hdisplayed.arch_eq]
    exact hdisplayable
  · dsimp only
    rw [hkeeps.filteredIndices_eq]
    exact hnodup
  · dsimp only
    rw [hkeeps.trace_eq, hkeeps.curr_eq]
    intro e he
    rw [hentry, Option.some.injEq] at he
    exact he ▸ hdisplayed.details

theorem showStep_showsCurrent (h : ShowsCurrent browser v) (layout : Layout) (idx : Int) :
    ShowsCurrent browser (v.showStep browser layout idx).viewer := by
  by_cases hidx : idx < 0 ∨ idx ≥ v.trace.length
  · rw [showStep_of_refused hidx]
    exact h
  · obtain ⟨i, rfl⟩ := Int.eq_ofNat_of_zero_le (show 0 ≤ idx by omega)
    exact showStep_showsCurrent_of_lt h.base h.displayable h.nodup layout (by omega)

theorem Effect.showsCurrent {handled : Handled} (heffect : Effect browser v layout handled)
    (h : ShowsCurrent browser v) : ShowsCurrent browser handled.viewer := by
  cases heffect with
  | still helpVisible => exact ⟨h.base, h.displayable, h.nodup, h.details⟩
  | shown idx => exact showStep_showsCurrent h layout idx
  | scrolled => exact ⟨h.base, h.displayable, h.nodup, h.details⟩
  | filtered searchInput => exact ⟨h.base, h.displayable, matching_nodup _ _, h.details⟩

theorem readable_of_displayable {db : TraceDb} {first : TraceEntry} {rest : List TraceEntry}
    {arch : String} (hall : db.getAll = first :: rest)
    (h : Displayable browser arch (Entry.ofTrace first)) : Readable db := by
  obtain ⟨regs, sp, text, hparse, hmember, _⟩ := h
  refine ⟨first, rest, regs, hall, hparse, ?_⟩
  rintro rfl
  cases hmember

theorem load_showsCurrent (browser : Browser) (layout : Layout) {db : TraceDb}
    (h : ∀ e ∈ (load browser layout db).viewer.trace,
      Displayable browser (load browser layout db).viewer.arch e) :
    ShowsCurrent browser (load browser layout db).viewer := by
  by_cases hreadable : Readable db
  · obtain ⟨first, rest, regs, hall, hparse, hne⟩ := hreadable
    rw [load_of_readable browser layout db hall hparse hne] at h ⊢
    have hselected := showStep_selected browser (loadedRender browser layout db regs).viewer layout 0
    rw [hselected.trace_eq, showStep_arch] at h
    have hbase := loadedRender_baseConverts browser layout db regs
    refine showStep_showsCurrent_of_lt hbase h List.nodup_range layout ?_
    show 0 < (db.getAll.map Entry.ofTrace).length
    rw [hall]
    simp
  · have hload := load_of_not_readable browser layout db hreadable
    cases hall : db.getAll with
    | nil =>
        rw [hload, hall]
        exact ⟨nofun, by simp, by simp, by simp⟩
    | cons first rest =>
        rw [hload, hall] at h
        exact absurd (readable_of_displayable hall (h _ (List.mem_cons_self ..))) hreadable

end Selection

section Run

end Run

end Tdb.Web
