import Tdb.Tracer.Invariant

namespace Tdb.Tracer

open Std Tdb.Library Tdb.Storage

variable {arch : Arch}

-- The call's PT_STEP succeeded, so that one instruction ran.
def Outcome.executed (outcome : Outcome) : Bool :=
  outcome.calls.any fun
    | .ptraceStep _ (.ok _) => true
    | _ => false

def Outcome.stepFailed (outcome : Outcome) : Bool :=
  outcome.calls.any fun
    | .ptraceStep _ (.error _) => true
    | _ => false

-- What a call had read when its instruction ran.
def executedObservation (env : Env arch) (t : Tracer) : List (Observation arch) :=
  if (singleStep env t).executed then (observe env t.task).toOption.toList else []

def executedObservations (start : Tracer) (envs : List (Env arch)) : List (Observation arch) :=
  (trail next start envs).flatMap fun p => executedObservation p.2 p.1

section Outcome

variable {env : Env arch} {t : Tracer}

theorem executed_of_error {e : String} (h : observe env t.task = .error e) :
    (singleStep env t).executed = false ∧ (singleStep env t).stepFailed = false := by
  rw [singleStep_of_error h]
  exact ⟨rfl, rfl⟩

theorem executed_of_ok {seen : Observation arch} (h : observe env t.task = .ok seen) :
    (singleStep env t).executed = !(singleStep env t).stepFailed := by
  rw [singleStep_of_ok h]
  cases hstep : env.ptraceStep (recorded env t seen).pid (recorded env t seen).pendingSignal with
  | error e =>
      rw [execute_of_error env _ _ hstep]
      rfl
  | ok done =>
      simp only [Outcome.executed, Outcome.stepFailed, execute_calls_of_ok env _ _ hstep]
      rfl

-- One entry for each call that reaches PT_STEP, whether or not the instruction ran.
theorem storedEntry_length (env : Env arch) (t : Tracer) :
    (storedEntry env t).toList.length =
      (executedObservation env t).length + if (singleStep env t).stepFailed then 1 else 0 := by
  unfold storedEntry executedObservation
  cases h : observe env t.task with
  | error e =>
      obtain ⟨hexec, hfail⟩ := executed_of_error h
      simp [hexec, hfail]
  | ok seen =>
      rw [executed_of_ok h]
      cases (singleStep env t).stepFailed <;> simp [Except.toOption]

theorem storedEntry_records (h : (singleStep env t).stepFailed = false) :
    List.Forall₂ Records (storedEntry env t).toList (executedObservation env t) := by
  have hobserved := storedEntry_observed env t
  unfold executedObservation
  cases hseen : observe env t.task with
  | error e =>
      rw [hseen] at hobserved
      simp only [(executed_of_error hseen).1]
      exact hobserved
  | ok seen =>
      rw [hseen] at hobserved
      simp only [executed_of_ok hseen, h]
      exact hobserved

end Outcome

section Run

variable {start : Tracer} (envs : List (Env arch))

-- The entries of a run outnumber its executed instructions by its failed PT_STEPs.
theorem length_entries (l : List (Tracer × Env arch)) :
    (l.flatMap fun p => (storedEntry p.2 p.1).toList).length =
      (l.flatMap fun p => executedObservation p.2 p.1).length +
        l.countP fun p => (singleStep p.2 p.1).stepFailed := by
  induction l with
  | nil => rfl
  | cons p rest ih =>
      simp only [List.flatMap_cons, List.length_append, List.countP_cons, ih,
        storedEntry_length p.2 p.1]
      omega

theorem entries_records_iff (hgap : start.GapFree) (hempty : start.db.getAll = []) :
    List.Forall₂ Records (run next start envs).db.getAll (executedObservations start envs) ↔
      ∀ p ∈ trail next start envs, (singleStep p.2 p.1).stepFailed = false := by
  have hall := getAll_run hgap envs
  rw [hempty, List.nil_append] at hall
  rw [hall]
  constructor
  · intro h
    have hlen := length_entries (trail next start envs)
    rw [h.length_eq, executedObservations] at hlen
    have hzero : (trail next start envs).countP (fun p => (singleStep p.2 p.1).stepFailed) = 0 := by
      omega
    simpa only [List.countP_eq_zero, Bool.not_eq_true] using hzero
  · intro h
    exact forall₂_flatMap fun p hp => storedEntry_records (h p hp)

end Run

section Retry

-- The stack pointer a call reads, if it gets that far.
def spRead (task : MachTask) (env : Env arch) : Option UInt64 :=
  (readState env task).toOption.map ThreadState.sp

-- A stopped process keeps its stack pointer: the next call that reads one reads `sp`.
def NextSpIs (task : MachTask) (sp : UInt64) (envs : List (Env arch)) : Prop :=
  ∀ found ∈ (envs.filterMap (spRead task)).head?, found = sp

theorem initLastSp_idem (t : Tracer) (sp : UInt64) :
    (t.initLastSp sp).initLastSp sp = t.initLastSp sp := by
  by_cases hzero : t.lastSp = 0 <;> simp [initLastSp, hzero]

theorem next_initLastSp {env : Env arch} {t : Tracer} {state : ThreadState arch}
    (h : readState env t.task = .ok state) :
    next (t.initLastSp state.sp) env = next t env := by
  unfold next singleStep
  simp only [initLastSp_task, h, initLastSp_idem]

theorem next_of_readState_error {env : Env arch} {t : Tracer} {e : String}
    (h : readState env t.task = .error e) : next t env = t := by
  unfold next singleStep
  simp only [h]

-- Setting `last_sp` early makes no difference to calls that would set it to the same value.
theorem run_initLastSp (t : Tracer) (sp : UInt64) (envs : List (Env arch))
    (h : NextSpIs t.task sp envs) :
    (run next (t.initLastSp sp) envs).db = (run next t envs).db := by
  induction envs with
  | nil => simp
  | cons env rest ih =>
      cases hread : readState env t.task with
      | error e =>
          have hread' : readState env (t.initLastSp sp).task = .error e := by
            rw [initLastSp_task, hread]
          rw [run_cons, run_cons, next_of_readState_error hread, next_of_readState_error hread']
          apply ih
          simpa [NextSpIs, spRead, hread, Except.toOption] using h
      | ok state =>
          have hsp : state.sp = sp := by
            simpa [NextSpIs, spRead, hread, Except.toOption] using h
          rw [run_cons, run_cons, ← hsp, next_initLastSp hread]

theorem run_retry {env : Env arch} {t : Tracer} {e : String} (after : List (Env arch))
    (h : observe env t.task = .error e)
    (hsp : t.lastSp = 0 → ∀ sp ∈ spRead t.task env, NextSpIs t.task sp after) :
    (run next t (env :: after)).db = (run next t after).db := by
  rw [run_cons, next_of_error h]
  unfold touched
  cases hread : readState env t.task with
  | error e => rfl
  | ok state =>
      by_cases hzero : t.lastSp = 0
      · apply run_initLastSp
        apply hsp hzero
        simp [spRead, hread, Except.toOption]
      · simp [initLastSp, hzero]

end Retry

theorem stepFailed_eq_false_iff (env : Env arch) (t : Tracer) :
    (singleStep env t).stepFailed = false ↔ StepSucceeds env t := by
  cases h : observe env t.task with
  | error e => simp [StepSucceeds, h, (executed_of_error h).2]
  | ok seen =>
      rw [singleStep_of_ok h]
      simp only [StepSucceeds, h, Except.ok.injEq, forall_eq']
      cases hstep : env.ptraceStep t.pid t.pendingSignal with
      | error e => simp [execute_of_error env (recorded env t seen) _ hstep, Outcome.stepFailed]
      | ok done => simp [Outcome.stepFailed, execute_calls_of_ok env (recorded env t seen) _ hstep]

-- The trace is that of the instructions that ran, and attempts that ran none leave no mark.
structure FaithfulRun (start : Tracer) (envs : List (Env arch)) : Prop where
  records : List.Forall₂ Records (run next start envs).db.getAll (executedObservations start envs)
  failures_leave : ∀ p ∈ trail next start envs, ∀ message,
    (singleStep p.2 p.1).result = .error message → (singleStep p.2 p.1).executed = false →
      (next p.1 p.2).db = p.1.db ∧ (next p.1 p.2).stepCount = p.1.stepCount ∧
        (next p.1 p.2).callDepth = p.1.callDepth

-- The trace is the same without an attempt that ran nothing.
def RetriesSame (start : Tracer) (envs : List (Env arch)) : Prop :=
  ∀ before env after, envs = before ++ env :: after → ∀ message,
    (singleStep env (run next start before)).result = .error message →
      (singleStep env (run next start before)).executed = false →
        (run next start (before ++ after)).db = (run next start envs).db

-- A process that nothing has run in keeps its stack pointer. What the first attempts read
-- of it stays in `last_sp` even when they fail.
def SpHeld (start : Tracer) (envs : List (Env arch)) : Prop :=
  ∀ before env after, envs = before ++ env :: after → ∀ e, observe env start.task = .error e →
    (run next start before).lastSp = 0 → ∀ sp ∈ spRead start.task env, NextSpIs start.task sp after

theorem observe_error_of_not_executed {env : Env arch} {t : Tracer} (h : StepSucceeds env t)
    (hexec : (singleStep env t).executed = false) : ∃ e, observe env t.task = .error e := by
  cases hseen : observe env t.task with
  | error e => exact ⟨e, rfl⟩
  | ok seen =>
      rw [executed_of_ok hseen, (stepFailed_eq_false_iff env t).mpr h] at hexec
      cases hexec

theorem new_run_faithful_iff {taskForPid : Int32 → Int32 × MachPort}
    {buildCapstone : Except String Unit} {pid : Int32} {dbPath : String} {start : Tracer}
    (hnew : new taskForPid buildCapstone pid dbPath = .ok start) (envs : List (Env arch)) :
    (FaithfulRun start envs ↔ ∀ p ∈ trail next start envs, StepSucceeds p.2 p.1) ∧
      ((∀ p ∈ trail next start envs, StepSucceeds p.2 p.1) → SpHeld start envs →
        RetriesSame start envs) := by
  obtain ⟨task, rfl⟩ := new_eq_ok hnew
  have hrecords := entries_records_iff envs (fresh_gapFree task pid dbPath) fresh_getAll
  simp only [stepFailed_eq_false_iff] at hrecords
  refine ⟨⟨fun h => hrecords.mp h.records, fun h => ⟨hrecords.mpr h, ?_⟩⟩, ?_⟩
  · intro p hp message _ hexec
    obtain ⟨e, hseen⟩ := observe_error_of_not_executed (h p hp) hexec
    have hleaves := next_field (fun t => (t.db, t.stepCount, t.callDepth)) (fun _ _ => rfl)
      (fun _ _ => rfl) p.1 p.2
    simpa only [hseen, Prod.mk.injEq] using hleaves
  · rintro h hsp before env after rfl message _ hexec
    have hsucceeds := h _ (mem_trail_middle next _ before env after)
    obtain ⟨e, hseen⟩ := observe_error_of_not_executed hsucceeds hexec
    rw [run_append, run_append]
    refine (run_retry after hseen ?_).symm
    rw [run_task] at hseen ⊢
    exact hsp before env after rfl e hseen

theorem new_run_faithful_iff_scripted :
    let envs := [scripted { sp := 0x1000 } (fun _ => 0)
      { bytes := [], mnemonic := some "nop", opStr := none } (.ok ()) (.ok (.exited 42 0))]
    (FaithfulRun sampleStart envs ↔ ∀ p ∈ trail next sampleStart envs, StepSucceeds p.2 p.1) ∧
      ((∀ p ∈ trail next sampleStart envs, StepSucceeds p.2 p.1) → SpHeld sampleStart envs →
        RetriesSame sampleStart envs) :=
  new_run_faithful_iff new_sampleStart _

-- The step fails once and succeeds on the retry: two entries for one call instruction.
theorem run_retried_not_faithful :
    ¬ ∀ envs : List (Env .aarch64), FaithfulRun sampleStart envs ∧ RetriesSame sampleStart envs := by
  intro h
  have hlen := (h
      [scripted { sp := 0x1000, pc := 0x4000 } (fun _ => 0)
          { bytes := [0, 0, 0, 0x94], mnemonic := some "bl", opStr := some "#0x4000" }
          (.error "EBUSY: Device or resource busy") (.error "ECHILD: No child processes"),
        scripted { sp := 0x1000, pc := 0x4000 } (fun _ => 0)
          { bytes := [0, 0, 0, 0x94], mnemonic := some "bl", opStr := some "#0x4000" }
          (.ok ()) (.ok (.stopped 42 .SIGTRAP))]).1.records.length_eq
  revert hlen
  decide +kernel

end Tdb.Tracer
