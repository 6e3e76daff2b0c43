import Tdb.Tui.Detail
import Tdb.Web.Screen

namespace Tdb

open Tdb.Library Tdb.Storage Tdb.Stats Tdb.Tracer Tdb.TraceLoop

variable {arch : Arch} {start : Tracer} {iterations : List (Iteration arch)} {db : TraceDb}

theorem stackPointer_mem (state : ThreadState arch) :
    (Web.stackName arch, state.sp.toNat) ∈ state.registers := by
  cases arch with
  | x86_64 =>
      change ("rsp", _) ∈ _
      simp [ThreadState.registers, ThreadState.sp]
  | aarch64 =>
      change ("sp", _) ∈ _
      simp [ThreadState.registers, ThreadState.sp]

section Tui

open Tdb.Tui

variable {platform : Platform}

-- Of the two names one is the thread's, and the other is nobody's.
theorem stackPointerIs_recorded (hreads : ReadsBack platform) {e : TraceEntry}
    {state : ThreadState arch} (he : e.regs = state.regs) :
    StackPointerIs platform e state.sp := by
  have hmem := stackPointer_mem state
  have hname : Web.stackName arch ∈ registerNames arch :=
    registers_names state ▸ List.mem_map_of_mem (f := Prod.fst) hmem
  have hlookup := lookup_regsFields state hname
  rw [(registerOf_eq_iff state hname _).mpr hmem, UInt64.ofNat_toNat] at hlookup
  refine ⟨regsFields state, fromStr_recorded hreads he, ?_⟩
  cases arch with
  | x86_64 =>
      refine Or.inr ⟨List.lookup_eq_none_iff.mpr fun p hp => ?_, hlookup⟩
      have hp := (regsFields_names state).mem_iff.mp (List.mem_map_of_mem (f := Prod.fst) hp)
      have hsp : "sp" ∉ registerNames .x86_64 := by decide +kernel
      have hdiffers : "sp" ≠ p.1 := fun hsame => hsp (hsame ▸ hp)
      simpa using hdiffers
  | aarch64 => exact Or.inl hlookup

-- Stack pointers of the lower half have their distance from the first one in the panel.
theorem visited_deltaShown (hreads : ReadsBack platform) (hholds : Holds start iterations db)
    (order : HashOrder) (traceFile : String) (inputs : List Event) :
    ∀ p ∈ visited (handle platform) (App.new platform order db traceFile) inputs,
      ∀ o first, (seen start iterations)[p.1.current]? = some o →
        (seen start iterations)[0]? = some first → o.state.sp.toNat < 2 ^ 63 →
          first.state.sp.toNat < 2 ^ 63 → ∀ build,
            DeltaShown build platform p.1 (o.state.sp.toNat - first.state.sp.toNat) := by
  intro p hp o first ho hfirst hlow hlow' build
  obtain ⟨e, he, hregs⟩ := hholds.exists_entry ho
  obtain ⟨e', he', hregs'⟩ := hholds.exists_entry hfirst
  have htrace := (visited_wellIndexed order db traceFile inputs p hp).2
  have hbase := (visited_baseSp inputs p hp).trans
    (new_baseSp he' (stackPointerIs_recorded hreads hregs'))
  rw [← htrace] at he
  exact ((deltaExact_iff he (stackPointerIs_recorded hreads hregs) hbase).mpr
    ⟨hlow, hlow'⟩).shown build

end Tui

section Web

open Tdb.Web Viewer

variable {browser : Browser} {v : Viewer}

-- The script takes the first stack pointer it shows for the base, or the next one after a zero.
def rebase (base sp : Nat) : Nat :=
  if base = 0 then sp else base

def BaseIs (v : Viewer) (base : Nat) : Prop :=
  v.baseSP = some (.num (.ofNat base)) ∨ base = 0 ∧ v.baseSP = none

structure Measures (v : Viewer) (base sp : Nat) : Prop where
  base_eq : v.baseSP = some (.num (.ofNat base))
  delta_eq : v.detail.delta = .round ((sp : ℚ) - base)

theorem truthy_ofNat {n : Nat} (h : n ≤ 2 ^ 53) :
    Value.truthy (.num (.ofNat n)) = decide (n ≠ 0) := by
  unfold Double.ofNat
  rw [Double.round_of_isBinary64 (isBinary64_natCast h)]
  simp [Value.truthy]

theorem BaseIs.rebased {base : Nat} (h : BaseIs v base) (hlow : base ≤ 2 ^ 53) (sp : Nat) :
    v.baseFor (some (.num (.ofNat sp))) = some (.num (.ofNat (rebase base sp))) := by
  unfold baseFor rebase
  rcases h with h | ⟨rfl, h⟩
  · rw [h, Option.any_some, truthy_ofNat hlow]
    by_cases hzero : base = 0
    · simp [hzero]
    · simp [hzero]
  · rw [h]
    simp

theorem BaseIs.baseConverts {base : Nat} (h : BaseIs v base) : v.BaseConverts browser := by
  intro value hvalue
  rcases h with h | ⟨_, h⟩
  · rw [h] at hvalue
    cases hvalue
    rfl
  · rw [h] at hvalue
    cases hvalue

theorem showDetail_measures {e : Entry} {state : ThreadState arch} {base : Nat}
    (hregs : e.regs = state.regs) (harch : v.arch = archName arch) (hbase : BaseIs v base)
    (hlow : base ≤ 2 ^ 53) (hsp : state.sp.toNat ≤ 2 ^ 53) :
    Measures (v.showDetail browser e).state (rebase base state.sp.toNat) state.sp.toNat := by
  have hmem := stackPointer_mem state
  have hmember := member_regsValue hmem
  have hrebased := hbase.rebased hlow state.sp.toNat
  have hrebase : rebase base state.sp.toNat ≤ 2 ^ 53 := by
    unfold rebase
    split <;> assumption
  obtain ⟨_, text, htext, _⟩ := toString16_ofNat browser (registers_lt state _ hmem)
  obtain ⟨rows, hrows, _⟩ := exists_panel browser v.prevRegs state
  have hparse : parseJson e.regs = some (regsValue state) := by rw [hregs, parseJson_regs]
  unfold stackName at hmember
  rw [← harch] at hmember
  have hdelta : minus browser (some (.num (.ofNat state.sp.toNat)))
      (v.baseFor (some (.num (.ofNat state.sp.toNat)))) =
        some ((Double.ofNat state.sp.toNat).sub (.ofNat (rebase base state.sp.toNat))) := by
    rw [hrebased]
    rfl
  rw [showDetail_eq_next hparse hmember hdelta htext hrows]
  refine ⟨hrebased, ?_⟩
  rw [Double.round_of_isBinary64 (isBinary64_sub hsp hrebase), ← Double.sub_ofNat hsp hrebase]
  rfl

variable {states : List (ThreadState arch)} {layout : Layout}

-- The page shows the recorded registers, and the distance of one stack pointer from a base.
structure Measuring (browser : Browser) (states : List (ThreadState arch)) (v : Viewer)
    (base : Nat) : Prop where
  follows : Web.Follows browser states v
  shown : ∃ state, states[v.curr]? = some state ∧ Measures v base state.sp.toNat

theorem showStep_measuring {base j : Nat} {state : ThreadState arch}
    (hregs : v.trace.map Entry.regs = states.map ThreadState.regs) (harch : v.arch = archName arch)
    (hbase : BaseIs v base) (hlow : base ≤ 2 ^ 53) (hstate : states[j]? = some state)
    (hsp : state.sp.toNat ≤ 2 ^ 53) :
    Measuring browser states (v.showStep browser layout j).viewer (rebase base state.sp.toNat) := by
  have hshows := showStep_recorded browser layout hregs harch hbase.baseConverts hstate
  have hfollows := hshows.follows hregs harch hstate
  have htext : (v.trace.map Entry.regs)[j]? = some state.regs := by
    rw [hregs, List.getElem?_map, hstate]
    rfl
  rw [List.getElem?_map, Option.map_eq_some_iff] at htext
  obtain ⟨e, hentry, hentryRegs⟩ := htext
  have hmeasures : Measures (({ v with curr := j } : Viewer).showDetail browser e).state
      (rebase base state.sp.toNat) state.sp.toNat :=
    showDetail_measures hentryRegs harch hbase hlow hsp
  obtain ⟨rows, tlCount, hshow⟩ := showStep_redraws browser layout hentry
  refine ⟨hfollows, state, ?_, ?_⟩
  · rw [hshows.curr_eq]
    exact hstate
  · rw [hshow]
    exact ⟨hmeasures.base_eq, hmeasures.delta_eq⟩

theorem load_measuring (browser : Browser) (layout : Layout)
    (hregs : db.getAll.map TraceEntry.regs = states.map ThreadState.regs) {first : ThreadState arch}
    (hfirst : states[0]? = some first) (hlow : first.sp.toNat ≤ 2 ^ 53) :
    Measuring browser states (load browser layout db).viewer first.sp.toNat := by
  have htext : (db.getAll.map TraceEntry.regs)[0]? = some first.regs := by
    rw [hregs, List.getElem?_map, hfirst]
    rfl
  rw [List.getElem?_map, Option.map_eq_some_iff] at htext
  obtain ⟨e, he, heregs⟩ := htext
  obtain ⟨rest, hall⟩ : ∃ rest, db.getAll = e :: rest := by
    cases hall : db.getAll with
    | nil =>
        rw [hall] at he
        cases he
    | cons entry rest =>
        rw [hall] at he
        cases he
        exact ⟨rest, rfl⟩
  have hparse : parseJson e.regs = some (regsValue first) := by rw [heregs, parseJson_regs]
  have hne : regsValue first ≠ .null := by
    unfold regsValue
    simp
  have htrace : (loadedRender browser layout db (regsValue first)).viewer.trace.map Entry.regs =
      states.map ThreadState.regs := by
    rw [← hregs]
    change (db.getAll.map Entry.ofTrace).map Entry.regs = _
    rw [List.map_map]
    rfl
  rw [load_of_readable browser layout db hall hparse hne]
  exact showStep_measuring htrace (archOf_regsValue first) (Or.inr ⟨rfl, rfl⟩) (Nat.zero_le _) hfirst
    hlow

-- Only a selection can change the base, and does not where the rule keeps it.
theorem Web.Effect.measuring {base : Nat} {handled : Handled}
    (heffect : Web.Effect browser v layout handled) (hlow : base ≤ 2 ^ 53)
    (hsps : ∀ state ∈ states, state.sp.toNat ≤ 2 ^ 53 ∧ rebase base state.sp.toNat = base)
    (h : Measuring browser states v base) : Measuring browser states handled.viewer base := by
  obtain ⟨hfollows, state, hstate, hmeasures⟩ := h
  cases heffect with
  | shown idx =>
      by_cases hidx : idx < 0 ∨ idx ≥ v.trace.length
      · rw [showStep_of_refused hidx]
        exact ⟨hfollows, state, hstate, hmeasures⟩
      · obtain ⟨j, rfl⟩ := Int.eq_ofNat_of_zero_le (show 0 ≤ idx by omega)
        have hlength := congrArg List.length hfollows.regs_eq
        rw [List.length_map, List.length_map] at hlength
        have hj : j < states.length := by omega
        obtain ⟨hsp, hkept⟩ := hsps _ (List.getElem_mem hj)
        have hshown := @showStep_measuring _ browser v states layout base _ _ hfollows.regs_eq
          hfollows.arch_eq (Or.inl hmeasures.base_eq) hlow (List.getElem?_eq_getElem hj) hsp
        rwa [hkept] at hshown
  | _ => exact ⟨⟨hfollows.regs_eq, hfollows.arch_eq, hfollows.base_converts, hfollows.shown⟩,
      state, hstate, hmeasures.base_eq, hmeasures.delta_eq⟩

section Onwards

-- The button for the next entry.
def onwards (layout : Layout) : Event where
  action := .step 1
  layout

-- Up to the first stack pointer other than zero each entry is the base of its own distance.
theorem run_onwards_measuring (browser : Browser) (layout : Layout)
    (hregs : db.getAll.map TraceEntry.regs = states.map ThreadState.regs)
    (hlow : ∀ state ∈ states, state.sp.toNat ≤ 2 ^ 53) {k : Nat} {state : ThreadState arch}
    (hstate : states[k]? = some state)
    (hzero : ∀ i before, i < k → states[i]? = some before → before.sp = 0) :
    let v := run (next browser) (load browser layout db).viewer (List.replicate k (onwards layout))
    v.curr = k ∧ Measuring browser states v state.sp.toNat := by
  have hsp := hlow state (List.mem_of_getElem? hstate)
  induction k generalizing state with
  | zero => exact ⟨load_curr browser layout db, load_measuring browser layout hregs hstate hsp⟩
  | succ k ih =>
      have hlt := (List.getElem?_eq_some_iff.mp hstate).1
      have hbefore := List.getElem?_eq_getElem (show k < states.length by omega)
      obtain ⟨hcurr, hfollows, shown, hshown, hmeasures⟩ := ih hbefore
        (fun i before hi => hzero i before (by omega)) (hlow _ (List.mem_of_getElem? hbefore))
      have hbase := hmeasures.base_eq
      rw [hzero k _ (by omega) hbefore] at hbase
      rw [List.replicate_succ', run_append]
      generalize run (next browser) (load browser layout db).viewer
        (List.replicate k (onwards layout)) = v at hcurr hfollows hbase
      have hstep : run (next browser) v [onwards layout] =
          (v.showStep browser layout (k + 1 : Nat)).viewer := by
        change (v.showStep browser layout (v.curr + 1)).viewer = _
        rw [hcurr]
        rfl
      have hmeasuring := @showStep_measuring _ browser v states layout 0 _ _ hfollows.regs_eq
        hfollows.arch_eq (Or.inl hbase) (Nat.zero_le _) hstate hsp
      have hselected := showStep_selected browser v layout (k + 1 : Nat)
      have hlength := congrArg List.length hfollows.regs_eq
      rw [List.length_map, List.length_map] at hlength
      rw [hstep]
      refine ⟨?_, hmeasuring⟩
      rw [hselected.curr_eq, if_pos (by omega)]
      rfl

-- The page has the distance from the first stack pointer.
def MeasuresFromFirst (states : List (ThreadState arch)) (v : Viewer) : Prop :=
  ∀ state first, states[v.curr]? = some state → states[0]? = some first →
    v.detail.delta = .round ((state.sp.toNat : ℚ) - first.sp.toNat)

theorem Measuring.measuresFromFirst {first : ThreadState arch} (hfirst : states[0]? = some first)
    (h : Measuring browser states v first.sp.toNat) : MeasuresFromFirst states v := by
  intro state first' hstate hfirst'
  obtain ⟨shown, hshown, hmeasures⟩ := h.shown
  rw [hstate] at hshown
  rw [hfirst] at hfirst'
  cases hshown
  cases hfirst'
  exact hmeasures.delta_eq

theorem run_measuresFromFirst_iff (browser : Browser) (layout : Layout)
    (hregs : db.getAll.map TraceEntry.regs = states.map ThreadState.regs)
    (hlow : ∀ state ∈ states, state.sp.toNat ≤ 2 ^ 53) {first : ThreadState arch}
    (hfirst : states[0]? = some first) :
    (∀ events, MeasuresFromFirst states
      (run (next browser) (load browser layout db).viewer events)) ↔
        (first.sp = 0 → ∀ state ∈ states, state.sp = 0) := by
  have hlowFirst := hlow first (List.mem_of_getElem? hfirst)
  constructor
  · intro h hzero
    by_contra hother
    push Not at hother
    obtain ⟨state, hmem, hne⟩ := hother
    -- the first entry with another stack pointer is shown as its own base
    obtain ⟨k, ⟨state, hstate, hne⟩, hleast⟩ :
        ∃ k, (∃ state : ThreadState arch, states[k]? = some state ∧ state.sp ≠ 0) ∧
          ∀ i (before : ThreadState arch), i < k → states[i]? = some before → before.sp = 0 := by
      classical
      obtain ⟨i, hi⟩ := List.mem_iff_getElem?.mp hmem
      have hexists : ∃ k, ∃ state : ThreadState arch, states[k]? = some state ∧ state.sp ≠ 0 :=
        ⟨i, state, hi, hne⟩
      refine ⟨Nat.find hexists, Nat.find_spec hexists, fun i before hlt hbefore => ?_⟩
      by_contra hnonzero
      exact Nat.find_min hexists hlt ⟨before, hbefore, hnonzero⟩
    obtain ⟨hcurr, hmeasuring⟩ := run_onwards_measuring browser layout hregs hlow hstate hleast
    obtain ⟨shown, hshown, hmeasures⟩ := hmeasuring.shown
    rw [hcurr, hstate] at hshown
    cases hshown
    have hsp := hlow state (List.mem_of_getElem? hstate)
    have hdelta := h (List.replicate k (onwards layout)) state first (by rw [hcurr, hstate]) hfirst
    rw [hmeasures.delta_eq, Double.round_of_isBinary64 (isBinary64_sub hsp hsp),
      Double.round_of_isBinary64 (isBinary64_sub hsp hlowFirst), Double.finite.injEq,
      Subtype.mk.injEq, sub_self, hzero] at hdelta
    have hcast : (state.sp.toNat : ℚ) = 0 := by simpa using hdelta.symm
    exact hne (UInt64.toNat_inj.mp (Nat.cast_eq_zero.mp hcast))
  · intro hkept events
    have hsps : ∀ state ∈ states,
        state.sp.toNat ≤ 2 ^ 53 ∧ rebase first.sp.toNat state.sp.toNat = first.sp.toNat := by
      intro state hstate
      refine ⟨hlow state hstate, ?_⟩
      unfold rebase
      split
      · rename_i hzero
        rw [hkept (UInt64.toNat_inj.mp hzero) state hstate, hzero]
        rfl
      · rfl
    have hmeasuring := run_invariant (next browser) events
      (load_measuring browser layout hregs hfirst hlowFirst)
      fun v event hv => (handle_effect browser v event).measuring hlowFirst hsps hv
    exact hmeasuring.measuresFromFirst hfirst

end Onwards

end Web

section Both

open Tdb.Tui Tdb.Web

variable {platform : Platform}

-- The distance from the first stack pointer in the two viewers. The terminal has it everywhere;
-- the page has it everywhere unless the first one is zero and another is not.
structure StackDeltas (platform : Platform) (browser : Browser) (states : List (ThreadState arch))
    (apps : List App) (page : List Web.Event → Viewer) : Prop where
  terminal : ∀ app ∈ apps, ∀ state first, states[app.current]? = some state →
    states[0]? = some first → ∀ build,
      DeltaShown build platform app (state.sp.toNat - first.sp.toNat)
  page_iff : ∀ first, states[0]? = some first →
    ((∀ events, MeasuresFromFirst states (page events)) ↔
      (first.sp = 0 → ∀ state ∈ states, state.sp = 0))

theorem new_load_stackDeltas (hreads : ReadsBack platform) (hholds : Holds start iterations db)
    (hlow : ∀ o ∈ seen start iterations, o.state.sp.toNat ≤ 2 ^ 53) (browser : Browser)
    (order : HashOrder) (layout : Layout) (traceFile : String) (inputs : List Tui.Event) :
    StackDeltas platform browser ((seen start iterations).map Observation.state)
      ((visited (Tui.handle platform) (App.new platform order db traceFile) inputs).map Prod.fst)
      (run (Web.next browser) (load browser layout db).viewer) := by
  refine ⟨?_, fun first hfirst => ?_⟩
  · intro app happ state first hstate hfirst build
    obtain ⟨p, hp, rfl⟩ := List.mem_map.mp happ
    rw [List.getElem?_map, Option.map_eq_some_iff] at hstate hfirst
    obtain ⟨o, ho, rfl⟩ := hstate
    obtain ⟨o', ho', rfl⟩ := hfirst
    have hsp := hlow o (List.mem_of_getElem? ho)
    have hsp' := hlow o' (List.mem_of_getElem? ho')
    exact visited_deltaShown hreads hholds order traceFile inputs p hp o o' ho ho' (by omega)
      (by omega) build
  · have hregs : db.getAll.map TraceEntry.regs =
        ((seen start iterations).map Observation.state).map ThreadState.regs := by
      rw [List.map_map]
      exact map_eq_of_forall₂ hholds.records fun e seen hrecords => hrecords.regs
    exact run_measuresFromFirst_iff browser layout hregs (List.forall_mem_map.mpr hlow) hfirst

theorem new_load_stackDeltas_twoFrames :
    StackDeltas jsonPlatform sampleBrowser
      ((seen sampleStart twoFramesTraced).map Observation.state)
      ((visited (Tui.handle jsonPlatform)
        (App.new jsonPlatform .inKeyOrder twoFramesDb "out.tdb") [.key .right]).map Prod.fst)
      (run (Web.next sampleBrowser) (load sampleBrowser sampleLayout twoFramesDb).viewer) :=
  new_load_stackDeltas jsonPlatform_readsBack twoFramesDb_holds (by decide +kernel) sampleBrowser
    .inKeyOrder sampleLayout "out.tdb" _

end Both

end Tdb
