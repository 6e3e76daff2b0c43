import Tdb.Web.Registers

namespace Tdb.Web

open Tdb.Library Tdb.Storage Tdb.Server Tdb.Tracer Viewer

variable {arch : Arch} {browser : Browser} {layout : Layout} {v : Viewer}

section Panel

-- What the register panel of an entry should show, after the entry that was shown before it.
structure PanelExact (previous : Option (ThreadState arch)) (state : ThreadState arch)
    (rows : List Register) : Prop where
  names : (rows.map Register.name).Perm (registerNames arch)
  texts : ∀ row ∈ rows, ∀ n, (row.name, n) ∈ state.registers → row.text = hex16 n
  flags : ∀ before ∈ previous, ∀ row ∈ rows, ∀ m n, (row.name, m) ∈ before.registers →
    (row.name, n) ∈ state.registers → (row.changed = true ↔ n ≠ m)

def ValuesFit (state : ThreadState arch) : Prop :=
  ∀ m ∈ state.registers, FitsDouble m.2

theorem ofNat_same_iff {m n : Nat} (hm : m < 2 ^ 64) (hn : n < 2 ^ 64) (hfitm : FitsDouble m)
    (hfitn : FitsDouble n) : (Double.ofNat m).same (.ofNat n) = true ↔ n = m := by
  obtain ⟨r, hr, hroundm, hiffm⟩ := Double.ofNat_eq_finite hm.le (by norm_num)
  obtain ⟨s, hs, hroundn, hiffn⟩ := Double.ofNat_eq_finite hn.le (by norm_num)
  have hrm : r = m := hiffm.mpr hfitm
  have hsn : s = n := hiffn.mpr hfitn
  subst hrm hsn
  rw [hroundm, hroundn]
  simp [Double.same, eq_comm]

theorem regChanged_iff {before : ThreadState arch} {name : String} {m n : Nat}
    (hbefore : (name, m) ∈ before.registers) (hn : n < 2 ^ 64) (hfitm : FitsDouble m)
    (hfitn : FitsDouble n) :
    regChanged (some (regsValue before)) name (.num (.ofNat n)) = true ↔ n ≠ m := by
  have hm := registers_lt before _ hbefore
  have hlookup : (regsValue before).entries.lookup name = some (.num (.ofNat m)) :=
    member_regsValue hbefore
  have htruthy : (regsValue before).truthy = true := rfl
  unfold regChanged
  dsimp only
  rw [hlookup, htruthy, Bool.true_and, Bool.not_eq_true', ← Bool.not_eq_true]
  exact not_congr (ofNat_same_iff hm hn hfitm hfitn)

theorem register_unique {state : ThreadState arch} {name : String} {m n : Nat}
    (hm : (name, m) ∈ state.registers) (hn : (name, n) ∈ state.registers) : m = n := by
  have hsame := (lookup_eq_some_iff_mem (registers_nodup state) _ _).mpr hm
  rw [(lookup_eq_some_iff_mem (registers_nodup state) _ _).mpr hn] at hsame
  exact (Option.some.inj hsame).symm

theorem hex16_eq_iff {r n : Nat} (hn : n < 2 ^ 64) :
    "0x" ++ String.ofList (Hex.padded 16 r) = hex16 n ↔ r = n := by
  unfold hex16
  rw [← Hex.padded_eq_fixed (by norm_num) (by omega), String.append_right_inj, String.ofList_inj]
  exact (Hex.padded_injective 16).eq_iff

section Rows

variable {prevRegs : Option Value} {state : ThreadState arch} {rows : List Register}
  (hpanel : List.Forall₂ (ShownAs prevRegs) (sortedMembers state.registers) rows)
include hpanel

theorem shownAs_of_row {row : Register} (hrow : row ∈ rows) {n : Nat}
    (h : (row.name, n) ∈ state.registers) : ShownAs prevRegs (row.name, n) row := by
  obtain ⟨m, hm, hshown⟩ := exists_of_mem_forall₂ hpanel.flip hrow
  obtain ⟨name, value⟩ := m
  have hname : row.name = name := hshown.name_eq
  have hmem := (mem_sortedMembers_iff (registers_nodup state) _).mp hm
  subst hname
  rw [register_unique h hmem]
  exact hshown

theorem row_names : (rows.map Register.name).Perm (registerNames arch) := by
  have hnames : (sortedMembers state.registers).map Prod.fst = rows.map Register.name :=
    map_eq_of_forall₂ hpanel fun m row hshown => hshown.name_eq.symm
  rw [← hnames, List.perm_ext_iff_of_nodup (sortedMembers_nodup _) (registerNames_nodup arch),
    ← registers_names state]
  intro name
  simp only [List.mem_map, mem_sortedMembers_iff (registers_nodup state)]

theorem panelExact_of_fits {previous : Option (ThreadState arch)}
    (hprevRegs : prevRegs = previous.map regsValue) (hfits : ValuesFit state)
    (hbefore : ∀ before ∈ previous, ValuesFit before) : PanelExact previous state rows where
  names := row_names hpanel
  texts := by
    intro row hrow n hn
    obtain ⟨r, htext, hiff⟩ := (shownAs_of_row hpanel hrow hn).text_eq
    rw [htext, hex16_eq_iff (registers_lt state _ hn)]
    exact hiff.mpr (hfits _ hn)
  flags := by
    rintro before hprevious row hrow m n hm hn
    have hchanged := (shownAs_of_row hpanel hrow hn).changed_eq
    rw [hprevRegs, Option.mem_def.mp hprevious] at hchanged
    rw [hchanged]
    exact regChanged_iff hm (registers_lt state _ hn) (hbefore before hprevious _ hm) (hfits _ hn)

-- The digits alone give away a value that does not fit.
theorem fits_of_texts (htexts : ∀ row ∈ rows, ∀ n, (row.name, n) ∈ state.registers →
    row.text = hex16 n) : ValuesFit state := by
  intro m hm
  have hsorted := (mem_sortedMembers_iff (registers_nodup state) m).mpr hm
  obtain ⟨row, hrow, hshown⟩ := exists_of_mem_forall₂ hpanel hsorted
  obtain ⟨r, htext, hiff⟩ := hshown.text_eq
  have hexact : row.text = hex16 m.2 := by
    apply htexts row hrow
    rw [hshown.name_eq]
    exact hm
  rw [htext, hex16_eq_iff (registers_lt state _ hm)] at hexact
  exact hiff.mp hexact

end Rows

end Panel

section Events

variable {states : List (ThreadState arch)}

-- The viewer has the recorded registers, and remembers those of the entry it shows.
structure Follows (browser : Browser) (states : List (ThreadState arch)) (v : Viewer) :
    Prop where
  regs_eq : v.trace.map Entry.regs = states.map ThreadState.regs
  arch_eq : v.arch = archName arch
  base_converts : v.BaseConverts browser
  shown : ∃ state, states[v.curr]? = some state ∧ v.prevRegs = some (regsValue state)

-- What showing entry `j` leaves, when all registers of the trace are recorded ones.
theorem showStep_recorded (browser : Browser) (layout : Layout)
    (hregs : v.trace.map Entry.regs = states.map ThreadState.regs)
    (harch : v.arch = archName arch) (hbase : v.BaseConverts browser) {j : Nat}
    {state : ThreadState arch} (hstate : states[j]? = some state) :
    ShowsRecorded browser { v with curr := j } state (v.showStep browser layout j).viewer := by
  have htext : (v.trace.map Entry.regs)[j]? = some state.regs := by
    rw [hregs, List.getElem?_map, hstate]
    rfl
  rw [List.getElem?_map, Option.map_eq_some_iff] at htext
  obtain ⟨e, hentry, hentryRegs⟩ := htext
  obtain ⟨v', hdetail, hshows⟩ :=
    showDetail_recorded browser (v := { v with curr := j }) hentryRegs harch hbase
  obtain ⟨rows, tlCount, hshow⟩ := showStep_redraws browser layout hentry
  rw [hdetail, Flow.state_next] at hshow
  rw [hshow]
  exact ⟨hshows.trace_eq, hshows.arch_eq, hshows.curr_eq, hshows.prevRegs_eq,
    hshows.base_converts, hshows.panel⟩

theorem ShowsRecorded.follows {v' : Viewer} {j : Nat} {state : ThreadState arch}
    (hshows : ShowsRecorded browser { v with curr := j } state v')
    (hregs : v.trace.map Entry.regs = states.map ThreadState.regs) (harch : v.arch = archName arch)
    (hstate : states[j]? = some state) : Follows browser states v' where
  regs_eq := by
    rw [hshows.trace_eq]
    exact hregs
  arch_eq := hshows.arch_eq.trans harch
  base_converts := hshows.base_converts
  shown := ⟨state, by rw [hshows.curr_eq, hstate], hshows.prevRegs_eq⟩

theorem showStep_follows (h : Follows browser states v) (idx : Int) :
    Follows browser states (v.showStep browser layout idx).viewer := by
  by_cases hidx : idx < 0 ∨ idx ≥ v.trace.length
  · rw [showStep_of_refused hidx]
    exact h
  · obtain ⟨j, rfl⟩ := Int.eq_ofNat_of_zero_le (show 0 ≤ idx by omega)
    have hlength := congrArg List.length h.regs_eq
    rw [List.length_map, List.length_map] at hlength
    have hlt : j < states.length := by omega
    have hstate := List.getElem?_eq_getElem hlt
    have hshows := showStep_recorded browser layout h.regs_eq h.arch_eq h.base_converts hstate
    exact hshows.follows h.regs_eq h.arch_eq hstate

theorem Effect.follows {handled : Handled} (heffect : Effect browser v layout handled)
    (h : Follows browser states v) : Follows browser states handled.viewer := by
  cases heffect with
  | shown idx => exact showStep_follows h idx
  | _ => exact ⟨h.regs_eq, h.arch_eq, h.base_converts, h.shown⟩

theorem run_follows (browser : Browser) (events : List Event) (h : Follows browser states v) :
    Follows browser states (run (next browser) v events) :=
  run_invariant (next browser) events h fun v event hv => (handle_effect browser v event).follows hv

end Events

section Run

variable {states : List (ThreadState arch)} {db : TraceDb}

-- Every panel is exact: the first one, and that of any entry shown after any events.
structure PanelsExact (browser : Browser) (layout : Layout) (db : TraceDb)
    (states : List (ThreadState arch)) : Prop where
  first : ∀ state ∈ states[0]?,
    PanelExact none state (load browser layout db).viewer.detail.registers
  moved : ∀ (events : List Event) (layout' : Layout) (j : Nat) (shown state : ThreadState arch),
    let v := run (next browser) (load browser layout db).viewer events
    states[v.curr]? = some shown → states[j]? = some state →
      PanelExact (some shown) state (v.showStep browser layout' j).viewer.detail.registers

-- The page opens on the first entry, with no registers to compare its own with.
theorem load_recorded (browser : Browser) (layout : Layout)
    (hregs : db.getAll.map TraceEntry.regs = states.map ThreadState.regs) {state : ThreadState arch}
    (hstate : states[0]? = some state) :
    ∃ v : Viewer, v.trace.map Entry.regs = states.map ThreadState.regs ∧ v.arch = archName arch ∧
      v.prevRegs = none ∧
        ShowsRecorded browser { v with curr := 0 } state (load browser layout db).viewer := by
  have htext : (db.getAll.map TraceEntry.regs)[0]? = some state.regs := by
    rw [hregs, List.getElem?_map, hstate]
    rfl
  cases hall : db.getAll with
  | nil =>
      rw [hall] at htext
      cases htext
  | cons first rest =>
      rw [hall] at htext
      have hfirst : first.regs = state.regs := Option.some.inj htext
      have hparse : parseJson first.regs = some (regsValue state) := by
        rw [hfirst, parseJson_regs]
      have hne : regsValue state ≠ .null := by
        unfold regsValue
        simp
      have htrace : (loadedRender browser layout db (regsValue state)).viewer.trace.map Entry.regs =
          states.map ThreadState.regs := by
        rw [← hregs]
        show (db.getAll.map Entry.ofTrace).map Entry.regs = _
        rw [List.map_map]
        rfl
      have harch : (loadedRender browser layout db (regsValue state)).viewer.arch = archName arch :=
        archOf_regsValue state
      rw [load_of_readable browser layout db hall hparse hne]
      exact ⟨_, htrace, harch, rfl, showStep_recorded browser layout htrace harch
        (loadedRender_baseConverts browser layout db (regsValue state)) hstate⟩

theorem load_follows (browser : Browser) (layout : Layout)
    (hregs : db.getAll.map TraceEntry.regs = states.map ThreadState.regs) {state : ThreadState arch}
    (hstate : states[0]? = some state) : Follows browser states (load browser layout db).viewer := by
  obtain ⟨v, htrace, harch, _, hshows⟩ := load_recorded browser layout hregs hstate
  exact hshows.follows htrace harch hstate

-- The entry that was current gives the registers to compare with.
theorem moved_panel (browser : Browser) (layout layout' : Layout)
    (hregs : db.getAll.map TraceEntry.regs = states.map ThreadState.regs) (events : List Event)
    {j : Nat} {shown state : ThreadState arch}
    (hshown : states[(run (next browser) (load browser layout db).viewer events).curr]? = some shown)
    (hstate : states[j]? = some state) :
    List.Forall₂ (ShownAs (some (regsValue shown))) (sortedMembers state.registers)
      ((run (next browser) (load browser layout db).viewer events).showStep browser layout'
        j).viewer.detail.registers := by
  have hlt := (List.getElem?_eq_some_iff.mp hstate).1
  have hfirst := List.getElem?_eq_getElem (show 0 < states.length by omega)
  have hfollows := run_follows browser events (load_follows browser layout hregs hfirst)
  obtain ⟨shown', hshown', hprevRegs⟩ := hfollows.shown
  rw [hshown] at hshown'
  rw [← Option.some.inj hshown'] at hprevRegs
  have hshows := showStep_recorded browser layout' hfollows.regs_eq hfollows.arch_eq
    hfollows.base_converts hstate
  rw [← hprevRegs]
  exact hshows.panel

theorem panelsExact_iff (browser : Browser) (layout : Layout)
    (hregs : db.getAll.map TraceEntry.regs = states.map ThreadState.regs) :
    PanelsExact browser layout db states ↔ ∀ state ∈ states, ValuesFit state := by
  constructor
  · intro h state hstate
    obtain ⟨j, hj⟩ := List.mem_iff_getElem?.mp hstate
    have hlt := (List.getElem?_eq_some_iff.mp hj).1
    have hfirst := List.getElem?_eq_getElem (show 0 < states.length by omega)
    obtain ⟨shown, hshown, _⟩ := (load_follows browser layout hregs hfirst).shown
    have hpanel := moved_panel browser layout layout hregs [] hshown hj
    exact fits_of_texts hpanel (h.moved [] layout j shown state hshown hj).texts
  · intro h
    refine ⟨?_, ?_⟩
    · intro state hstate
      obtain ⟨v, _, _, hprevRegs, hshows⟩ := load_recorded browser layout hregs hstate
      have hfits := h state (List.mem_of_getElem? hstate)
      exact panelExact_of_fits hshows.panel hprevRegs hfits (by simp)
    · intro events layout' j shown state v hshown hstate
      have hpanel := moved_panel browser layout layout' hregs events hshown hstate
      have hfits := h state (List.mem_of_getElem? hstate)
      have hbefore := h shown (List.mem_of_getElem? hshown)
      exact panelExact_of_fits hpanel rfl hfits (by simpa using hbefore)

theorem served_regs {taskForPid : Int32 → Int32 × MachPort} {buildCapstone : Except String Unit}
    {pid : Int32} {dbPath : String} {start : Tracer}
    (hnew : Tracer.new taskForPid buildCapstone pid dbPath = .ok start) (envs : List (Env arch))
    (hserved : db.getAll = (run Tracer.next start envs).db.getAll) :
    db.getAll.map TraceEntry.regs =
      ((observations start.task envs).map Observation.state).map ThreadState.regs := by
  obtain ⟨task, rfl⟩ := new_eq_ok hnew
  have hrecords := getAll_run_records (fresh_gapFree task pid dbPath) envs fresh_getAll
  rw [hserved, List.map_map]
  exact map_eq_of_forall₂ hrecords fun e seen he => he.regs

-- What a run records is shown exactly when none of its register values needs more than 53 bits.
theorem new_run_panelsExact_iff {taskForPid : Int32 → Int32 × MachPort}
    {buildCapstone : Except String Unit} {pid : Int32} {dbPath : String} {start : Tracer}
    (hnew : Tracer.new taskForPid buildCapstone pid dbPath = .ok start) (envs : List (Env arch))
    (hserved : db.getAll = (run Tracer.next start envs).db.getAll) (browser : Browser)
    (layout : Layout) :
    PanelsExact browser layout db ((observations start.task envs).map Observation.state) ↔
      ∀ seen ∈ observations start.task envs, ValuesFit seen.state := by
  rw [panelsExact_iff browser layout (served_regs hnew envs hserved), List.forall_mem_map]

end Run

section Samples

def withRegister (value : UInt64) : ArmThreadState64 :=
  { x := (Vector.replicate 29 0).set 0 value, sp := 0x1000, pc := 0x4000 }

def nopAt (state : ArmThreadState64) : Env .aarch64 :=
  scripted state (fun _ => 0)
    { bytes := [0x1f, 0x20, 0x03, 0xd5], mnemonic := some "nop", opStr := none }
    (.ok ()) (.ok (.stopped 42 .SIGTRAP))

theorem new_run_panelsExact_iff_sample :
    let envs := [nopAt (withRegister 0xff), nopAt (withRegister 0x100)]
    PanelsExact sampleBrowser sampleLayout (run Tracer.next sampleStart envs).db
        ((observations sampleStart.task envs).map Observation.state) ↔
      ∀ seen ∈ observations sampleStart.task envs, ValuesFit seen.state :=
  new_run_panelsExact_iff new_sampleStart _ rfl sampleBrowser sampleLayout

theorem not_fitsDouble_odd : ¬FitsDouble 9007199254740993 := by
  rintro ⟨m, k, hm, heq⟩
  cases k with
  | zero => omega
  | succ k =>
      rw [pow_succ, ← Nat.mul_assoc] at heq
      omega

-- 2 ^ 53 + 1 is read as 2 ^ 53 and shown so.
theorem run_wide_register_not_exact :
    ¬ ∀ (envs : List (Env .aarch64)) (browser : Browser) (layout : Layout),
      PanelsExact browser layout (run Tracer.next sampleStart envs).db
        ((observations sampleStart.task envs).map Observation.state) := by
  intro h
  have hexact := h [nopAt (withRegister 9007199254740993)] sampleBrowser sampleLayout
  rw [panelsExact_iff sampleBrowser sampleLayout (served_regs new_sampleStart _ rfl)] at hexact
  have hmem : ("x0", 9007199254740993) ∈
      @ThreadState.registers .aarch64 (withRegister 9007199254740993) := by
    decide +kernel
  exact not_fitsDouble_odd (hexact _ (List.mem_singleton.mpr rfl) _ hmem)

end Samples

end Tdb.Web
