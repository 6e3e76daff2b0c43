import Tdb.Tui.Panels.Screen
import Tdb.Web.Highlight
import Tdb.Web.Wire

namespace Tdb.Web

open Tdb.Library Tdb.Storage Tdb.Tracer Tdb.TraceLoop Viewer

-- What the panels say of the current entry itself, and of nothing around it.
structure Screen where
  step : Double
  pc : String
  insn : String
  bytes : String
  registers : List (String × String)
  memory : List MemRow
deriving DecidableEq

def Viewer.screen (v : Viewer) : Screen where
  step := v.detail.step
  pc := v.detail.pc
  insn := v.detail.insn
  bytes := v.detail.bytes
  registers := v.detail.registers.map fun r => (r.name, r.text)
  memory := v.detail.memory

section Texts

variable (browser : Browser)

def digits16 (d : Double) : String :=
  padStart (toUpperCase browser (numberToString16 browser d)) 16

-- The digits of a whole number tell what it was rounded to.
theorem digits16_eq_iff {m n : Nat} (hm : m < 2 ^ 64) (hn : n < 2 ^ 64) :
    digits16 browser (.ofNat m) = digits16 browser (.ofNat n) ↔ Double.ofNat m = .ofNat n := by
  obtain ⟨r, hr, hroundm, _⟩ := Double.ofNat_eq_finite hm.le (by norm_num)
  obtain ⟨q, hq, hroundn, _⟩ := Double.ofNat_eq_finite hn.le (by norm_num)
  have htext : ∀ (k : Nat) (hk : IsBinary64 k),
      digits16 browser (.finite ⟨k, hk⟩) = String.ofList (Hex.padded 16 k) := by
    intro k hk
    unfold digits16
    have hwhole : numberToString16 browser (.finite ⟨k, hk⟩) = String.ofList (Nat.toDigits 16 k) := by
      simp [numberToString16]
    rw [hwhole, toUpperCase_toDigits, padStart_toDigits]
  refine ⟨fun h => ?_, fun h => by rw [h]⟩
  rw [hroundm, hroundn, htext, htext] at h
  obtain rfl := Hex.padded_injective 16 (String.ofList_inj.mp h)
  rw [hroundm, hroundn]

-- Both viewers write a byte alike.
theorem toUpperCase_hexByte (b : UInt8) : toUpperCase browser (hexByte b) = Tui.hexByte b := by
  have hdigits : ∀ c ∈ Nat.toDigits 16 b.toNat, c.toNat < 0x80 := fun c hc =>
    (Hex.toDigits_ascii hc).1
  have hlt : b.toNat < 16 ^ 2 := b.toNat_lt
  unfold hexByte Tui.hexByte
  rw [padStart_ascii hdigits, toUpperCase_ascii, ← Hex.padded_eq_fixed (by decide) hlt,
    List.map_append, List.map_replicate]
  · rfl
  · intro c hc
    rcases List.mem_append.mp hc with hzero | hc
    · rw [List.eq_of_mem_replicate hzero]
      decide
    · exact hdigits c hc

theorem hexByte_injective : Function.Injective hexByte := by
  intro b c h
  apply Tui.hexByte_injective
  rw [← toUpperCase_hexByte sampleBrowser, ← toUpperCase_hexByte sampleBrowser, h]

end Texts

section Entries

variable {browser : Browser}

def changeOf (c : MemChange) : Change where
  addr := .ofNat c.addr.toNat
  oldVal := c.oldVal
  newVal := c.newVal

theorem memRow_changeOf_eq_iff (c d : MemChange) :
    memRow browser (changeOf c) = memRow browser (changeOf d) ↔ changeOf c = changeOf d := by
  refine ⟨fun h => ?_, fun h => by rw [h]⟩
  obtain ⟨haddr, hold, hnew, _⟩ := MemRow.mk.inj h
  have haddr := (digits16_eq_iff browser c.addr.toNat_lt d.addr.toNat_lt).mp
    ((String.append_right_inj "0x").mp haddr)
  exact Change.mk.injEq .. ▸ ⟨haddr, hexByte_injective ((String.append_right_inj "0x").mp hold),
    hexByte_injective ((String.append_right_inj "0x").mp hnew)⟩

-- What the script makes of an entry, its registers parsed.
structure ReadAlike (e e' : TraceEntry) : Prop where
  step_eq : Double.ofNat e.step = .ofNat e'.step
  pc_eq : Double.ofNat e.pc.toNat = .ofNat e'.pc.toNat
  bytes_eq : e.insnBytes = e'.insnBytes
  text_eq : e.insnText = e'.insnText
  regs_eq : parseJson e.regs = parseJson e'.regs
  changes_eq : e.memChanges.map changeOf = e'.memChanges.map changeOf

section Registers

variable {arch arch' : Arch} {state : ThreadState arch} {state' : ThreadState arch'}

def rowText (browser : Browser) (m : String × Nat) : String × String :=
  (m.1, "0x" ++ digits16 browser (.ofNat m.2))

theorem panel_texts {prevRegs : Option Value} {rows : List Register}
    (h : (regsValue state).entries.mapM (registerOf browser prevRegs) = some rows) :
    (rows.map fun r => (r.name, r.text)) =
      (sortedMembers state.registers).map (rowText browser) := by
  have hrow : ∀ m ∈ sortedMembers state.registers,
      ∃ row, registerOf browser prevRegs (m.1, .num (.ofNat m.2)) = some row ∧
        rowText browser m = (row.name, row.text) := fun m _ => ⟨_, rfl, rfl⟩
  unfold regsValue Value.entries at h
  dsimp only at h
  rw [List.mapM_map] at h
  obtain ⟨rows', hrows', htexts⟩ := mapM_of_forall hrow
  rw [Option.some.inj (h.symm.trans hrows')]
  exact (map_eq_of_forall₂ htexts fun m row hsame => hsame).symm

theorem panel_texts_eq_iff :
    (sortedMembers state.registers).map (rowText browser) =
        (sortedMembers state'.registers).map (rowText browser) ↔
      regsValue state = regsValue state' := by
  have hlt : ∀ {arch : Arch} (state : ThreadState arch), ∀ m ∈ sortedMembers state.registers,
      m.2 < 2 ^ 64 := fun state m hm =>
    registers_lt state m ((mem_sortedMembers_iff (registers_nodup state) m).mp hm)
  unfold regsValue
  rw [Json.obj.injEq]
  constructor
  · refine map_eq_of_map_eq (fun m n hm hn hsame => ?_) (hlt state) (hlt state')
    obtain ⟨hname, htext⟩ := Prod.mk.inj hsame
    rw [hname, (digits16_eq_iff browser hm hn).mp ((String.append_right_inj "0x").mp htext)]
  · refine map_eq_of_map_eq (P := fun _ => True) (fun m n _ _ hsame => ?_) (by simp) (by simp)
    obtain ⟨hname, hvalue⟩ := Prod.mk.inj hsame
    unfold rowText
    rw [hname, Json.num.inj hvalue]

end Registers

theorem screen_eq {v : Viewer} {e : TraceEntry} {arch : Arch} {state : ThreadState arch}
    (hdetails : Details browser v.detail (Entry.ofTrace e)) (hregs : e.regs = state.regs) :
    v.screen =
      { step := .ofNat e.step
        pc := "PC: 0x" ++ digits16 browser (.ofNat e.pc.toNat)
        insn := e.insnText
        bytes := " ".intercalate (e.insnBytes.map Tui.hexByte)
        registers := (sortedMembers state.registers).map (rowText browser)
        memory := e.memChanges.map fun c => memRow browser (changeOf c) } := by
  obtain ⟨hstep, hpc, hinsn, hbytes, _, ⟨regs, prevRegs, hparse, hrows⟩, hmemory⟩ := hdetails
  have hparse : parseJson e.regs = some regs := hparse
  rw [hregs, parseJson_regs, Option.some.injEq] at hparse
  subst hparse
  unfold Viewer.screen
  rw [hstep, hpc, hinsn, hbytes, hmemory, panel_texts hrows, Screen.mk.injEq]
  refine ⟨rfl, rfl, rfl, ?_, rfl, List.map_map⟩
  simp only [toUpperCase_hexByte]
  rfl

-- The panels of two entries say the same only if the script has read the same of both.
theorem screen_eq_iff {v v' : Viewer} {e e' : TraceEntry} {arch arch' : Arch}
    {state : ThreadState arch} {state' : ThreadState arch'}
    (hdetails : Details browser v.detail (Entry.ofTrace e))
    (hdetails' : Details browser v'.detail (Entry.ofTrace e')) (hregs : e.regs = state.regs)
    (hregs' : e'.regs = state'.regs) : v.screen = v'.screen ↔ ReadAlike e e' := by
  have hregsRead : parseJson e.regs = parseJson e'.regs ↔ regsValue state = regsValue state' := by
    rw [hregs, hregs', parseJson_regs, parseJson_regs, Option.some.injEq]
  rw [screen_eq hdetails hregs, screen_eq hdetails' hregs', Screen.mk.injEq, panel_texts_eq_iff,
    ← hregsRead, String.append_right_inj,
    digits16_eq_iff browser e.pc.toNat_lt e'.pc.toNat_lt]
  constructor
  · rintro ⟨hstep, hpc, hinsn, hbytes, hregisters, hmemory⟩
    refine ⟨hstep, hpc, Tui.bytes_injective hbytes, hinsn, hregisters, ?_⟩
    exact map_eq_of_map_eq (P := fun _ => True)
      (fun c d _ _ hsame => (memRow_changeOf_eq_iff c d).mp hsame) (by simp) (by simp) hmemory
  · rintro ⟨hstep, hpc, hbytes, hinsn, hregisters, hchanges⟩
    refine ⟨hstep, hpc, hinsn, by rw [hbytes], hregisters, ?_⟩
    exact map_eq_of_map_eq (P := fun _ => True)
      (fun c d _ _ hsame => (memRow_changeOf_eq_iff c d).mpr hsame) (by simp) (by simp) hchanges

end Entries

section Sessions

variable {browser : Browser} {arch arch' : Arch} {start start' : Tracer}
  {iterations : List (Iteration arch)} {iterations' : List (Iteration arch')} {db db' : TraceDb}

-- On every page of a recorded trace the panels are those of the current entry.
theorem run_details (hholds : Holds start iterations db) (layout : Layout) (events : List Event)
    {e : TraceEntry}
    (he : db.getAll[(run (next browser) (load browser layout db).viewer events).curr]? = some e) :
    Details browser (run (next browser) (load browser layout db).viewer events).detail
      (Entry.ofTrace e) := by
  have htracks := @run_invariant _ _ (next browser)
    (fun v => v.trace = db.getAll.map Entry.ofTrace ∧ v.Tracks browser) _ events
    ⟨(load_tracked browser layout db).trace_eq, (load_tracked browser layout db).tracks⟩
    fun v event hv =>
      have hafter := (handle_effect browser v event).tracked hv.2
      ⟨hafter.trace_eq.trans hv.1, hafter.tracks⟩
  have hregs : db.getAll.map TraceEntry.regs =
      ((seen start iterations).map Observation.state).map ThreadState.regs := by
    rw [List.map_map]
    exact map_eq_of_forall₂ hholds.records fun e seen hrecords => hrecords.regs
  have hdisplayable : ∀ e ∈ (load browser layout db).viewer.trace,
      Displayable browser (load browser layout db).viewer.arch e := by
    rw [(load_tracked browser layout db).trace_eq]
    intro e' he'
    obtain ⟨recorded, hrecorded, rfl⟩ := List.mem_map.mp he'
    obtain ⟨state, hstate⟩ := hholds.exists_state hrecorded
    have hlength := congrArg List.length hregs
    rw [List.length_map, List.length_map] at hlength
    have hfirst := List.getElem?_eq_getElem (hlength ▸ List.length_pos_of_mem hrecorded)
    have hfollows := load_follows browser layout hregs hfirst
    obtain ⟨v', hshow, _⟩ := showDetail_recorded browser (e := Entry.ofTrace recorded) hstate
      hfollows.arch_eq hfollows.base_converts
    exact (displays_of_showDetail hshow).2
  have hshows := run_invariant (next browser) events (load_showsCurrent browser layout hdisplayable)
    fun v event hv => (handle_effect browser v event).showsCurrent hv
  refine hshows.details _ ?_
  rw [htracks.1, List.getElem?_map, he]
  rfl

-- All register values of an entry have at most 53 significant bits, too.
def ValuesFitIn (e : TraceEntry) : Prop :=
  ∀ (arch : Arch) (state : ThreadState arch), e.regs = state.regs → ValuesFit state

theorem regs_eq_of_parse {e e' : TraceEntry} {state : ThreadState arch} {state' : ThreadState arch'}
    (hregs : e.regs = state.regs) (hregs' : e'.regs = state'.regs) (hfits : ValuesFit state)
    (hfits' : ValuesFit state') (h : parseJson e.regs = parseJson e'.regs) : e.regs = e'.regs := by
  have hmem : ∀ {arch : Arch} (state : ThreadState arch), ValuesFit state →
      ∀ m ∈ sortedMembers state.registers, m.2 < 2 ^ 64 ∧ FitsDouble m.2 := fun state hfits m hm =>
    have hin := (mem_sortedMembers_iff (registers_nodup state) m).mp hm
    ⟨registers_lt state m hin, hfits m hin⟩
  rw [hregs, hregs', parseJson_regs, parseJson_regs, Option.some.injEq] at h
  have hsorted : sortedMembers state.registers = sortedMembers state'.registers := by
    refine eq_of_map_eq (fun m n hm hn hsame => ?_) (hmem state hfits) (hmem state' hfits')
      (Json.obj.inj h)
    obtain ⟨hname, hvalue⟩ := Prod.mk.inj hsame
    exact Prod.ext hname (ofNat_inj_of_fits hm.1 hn.1 hm.2 hn.2 (Json.num.inj hvalue))
  rw [hregs, hregs', Tracer.regs_eq, Tracer.regs_eq, ← String.toList_inj, jsonObject_toList,
    jsonObject_toList, hsorted]

theorem ReadAlike.eq {e e' : TraceEntry} {state : ThreadState arch} {state' : ThreadState arch'}
    (h : ReadAlike e e') (hregs : e.regs = state.regs) (hregs' : e'.regs = state'.regs)
    (hfits : NumbersFit e) (hfits' : NumbersFit e') (hvalues : ValuesFit state)
    (hvalues' : ValuesFit state') : e = e' := by
  apply ofTrace_inj hfits hfits'
  have hregisters := regs_eq_of_parse hregs hregs' hvalues hvalues' h.regs_eq
  unfold Entry.ofTrace
  rw [h.step_eq, h.pc_eq, h.bytes_eq, h.text_eq, hregisters, Entry.mk.injEq]
  exact ⟨rfl, rfl, rfl, rfl, rfl, h.changes_eq⟩

-- What the panels of two pages say of their entries. The page hides nothing of an entry but what
-- its numbers have lost in being read.
structure ScreensTell (v v' : Viewer) (e e' : TraceEntry) : Prop where
  screen_iff : v.screen = v'.screen ↔ ReadAlike e e'
  screen_fits : NumbersFit e → NumbersFit e' → ValuesFitIn e → ValuesFitIn e' →
    (v.screen = v'.screen ↔ e = e')

theorem load_run_screensTell (hholds : Holds start iterations db)
    (hholds' : Holds start' iterations' db') {layout layout' : Layout} {events events' : List Event}
    {e e' : TraceEntry}
    (he : db.getAll[(run (next browser) (load browser layout db).viewer events).curr]? = some e)
    (he' : db'.getAll[(run (next browser) (load browser layout' db').viewer events').curr]? =
      some e') :
    ScreensTell (run (next browser) (load browser layout db).viewer events)
      (run (next browser) (load browser layout' db').viewer events') e e' := by
  obtain ⟨state, hregs⟩ := hholds.exists_state (List.mem_of_getElem? he)
  obtain ⟨state', hregs'⟩ := hholds'.exists_state (List.mem_of_getElem? he')
  have hscreens := screen_eq_iff (run_details hholds layout events he)
    (run_details hholds' layout' events' he') hregs hregs'
  refine ⟨hscreens, fun hfits hfits' hvalues hvalues' => hscreens.trans ⟨fun h => ?_, ?_⟩⟩
  · exact h.eq hregs hregs' hfits hfits' (hvalues arch state hregs) (hvalues' arch' state' hregs')
  · rintro rfl
    exact ⟨rfl, rfl, rfl, rfl, rfl, rfl⟩

theorem load_curr (browser : Browser) (layout : Layout) (db : TraceDb) :
    (load browser layout db).viewer.curr = 0 := by
  by_cases hreadable : Readable db
  · obtain ⟨first, rest, regs, hall, hparse, hne⟩ := hreadable
    rw [load_of_readable browser layout db hall hparse hne]
    have hselected := showStep_selected browser (loadedRender browser layout db regs).viewer layout 0
    rw [hselected.curr_eq]
    split <;> rfl
  · rw [load_of_not_readable browser layout db hreadable]

theorem load_step_curr (browser : Browser) (layout : Layout) {db : TraceDb}
    (h : 1 < db.getAll.length) :
    (run (next browser) (load browser layout db).viewer [⟨.step 1, layout⟩]).curr = 1 := by
  have hselected := showStep_selected browser (load browser layout db).viewer layout
    ((load browser layout db).viewer.curr + 1)
  refine hselected.curr_eq.trans ?_
  rw [load_curr, (load_tracked browser layout db).trace_eq, List.length_map]
  rw [if_pos (by omega)]
  rfl

theorem load_run_screensTell_twoFrames :
    let load := (load sampleBrowser sampleLayout Tui.twoFramesDb).viewer
    ∃ e e', Tui.twoFramesDb.getAll[(run (next sampleBrowser) load [⟨.step 1, sampleLayout⟩]).curr]? =
        some e ∧
      Tui.twoFramesDb.getAll[(run (next sampleBrowser) load []).curr]? = some e' ∧
      ScreensTell (run (next sampleBrowser) load [⟨.step 1, sampleLayout⟩])
        (run (next sampleBrowser) load []) e e' := by
  have hlength : 1 < Tui.twoFramesDb.getAll.length := by decide +kernel
  have hone := load_step_curr sampleBrowser sampleLayout hlength
  have hzero : (run (next sampleBrowser)
      (load sampleBrowser sampleLayout Tui.twoFramesDb).viewer []).curr = 0 := by
    rw [run_nil, load_curr]
  obtain ⟨e, he⟩ : ∃ e, Tui.twoFramesDb.getAll[1]? = some e := ⟨_, List.getElem?_eq_getElem hlength⟩
  obtain ⟨e', he'⟩ : ∃ e, Tui.twoFramesDb.getAll[0]? = some e :=
    ⟨_, List.getElem?_eq_getElem (by omega)⟩
  have hentry := (congrArg (fun i : Nat => Tui.twoFramesDb.getAll[i]?) hone).trans he
  have hentry' := (congrArg (fun i : Nat => Tui.twoFramesDb.getAll[i]?) hzero).trans he'
  refine ⟨e, e', hentry, hentry', ?_⟩
  exact load_run_screensTell Tui.twoFramesDb_holds Tui.twoFramesDb_holds hentry hentry'

end Sessions

end Tdb.Web
