import Tdb.Library.Run
import Tdb.Tracer

namespace Tdb.Tracer

open Std Tdb.Library Tdb.Storage

variable {arch : Arch}

-- What a call has read when nothing can stop it from recording any more.
structure Observation (arch : Arch) where
  state : ThreadState arch
  insn : Insn

def observe (env : Env arch) (task : MachTask) : Except String (Observation arch) :=
  match readState env task with
  | .error e => .error e
  | .ok state =>
      match readInsn env task state.pc with
      | .error e => .error e
      | .ok insn => .ok { state, insn }

def entryOf (env : Env arch) (t : Tracer) (seen : Observation arch) : TraceEntry :=
  (t.initLastSp seen.state.sp).makeEntry env seen.state seen.insn

-- The tracer once the entry is stored and before the instruction runs.
def recorded (env : Env arch) (t : Tracer) (seen : Observation arch) : Tracer :=
  { t with
    db := { t.db with entries := t.db.entries.insert t.stepCount (entryOf env t seen) }
    stepCount := t.stepCount + 1
    memoryCache :=
      ((t.initLastSp seen.state.sp).detectMemChanges env seen.state.sp seen.insn.mnemonicText).1
    lastSp := seen.state.sp
    callDepth := (detectCall arch t.callDepth seen.insn.mnemonicText).1 }

-- All that a call can change when it records nothing.
def touched (env : Env arch) (t : Tracer) : Tracer :=
  match readState env t.task with
  | .error _ => t
  | .ok state => t.initLastSp state.sp

section Fields

variable (env : Env arch) (t : Tracer) (sp : UInt64)

@[simp] theorem initLastSp_task : (t.initLastSp sp).task = t.task := by
  unfold initLastSp; split <;> rfl

@[simp] theorem initLastSp_pid : (t.initLastSp sp).pid = t.pid := by
  unfold initLastSp; split <;> rfl

@[simp] theorem initLastSp_db : (t.initLastSp sp).db = t.db := by
  unfold initLastSp; split <;> rfl

@[simp] theorem initLastSp_stepCount : (t.initLastSp sp).stepCount = t.stepCount := by
  unfold initLastSp; split <;> rfl

@[simp] theorem initLastSp_memoryCache : (t.initLastSp sp).memoryCache = t.memoryCache := by
  unfold initLastSp; split <;> rfl

@[simp] theorem initLastSp_callDepth : (t.initLastSp sp).callDepth = t.callDepth := by
  unfold initLastSp; split <;> rfl

@[simp] theorem initLastSp_pendingSignal : (t.initLastSp sp).pendingSignal = t.pendingSignal := by
  unfold initLastSp; split <;> rfl

end Fields

-- The signal that a stop leaves for the next step.
def heldSignal : Except String WaitStatus → Option Signal
  | .ok (.stopped _ sig) => if sig = .SIGTRAP then none else some sig
  | _ => none

section Execute

variable (env : Env arch) (t : Tracer) (entry : TraceEntry)

theorem execute_of_error {e : String} (h : env.ptraceStep t.pid t.pendingSignal = .error e) :
    execute env t entry =
      { result := .error s!"ptrace(PT_STEP) failed: {e}"
        tracer := { t with pendingSignal := none }
        calls := [.ptraceStep t.pendingSignal (.error e)] } := by
  simp only [execute, h]

theorem execute_calls_of_ok (h : env.ptraceStep t.pid t.pendingSignal = .ok ()) :
    (execute env t entry).calls =
      [.ptraceStep t.pendingSignal (.ok ()), .waitpid (env.waitpid t.pid)] := by
  simp only [execute, h]
  split <;> rfl

theorem execute_tracer_of_ok (h : env.ptraceStep t.pid t.pendingSignal = .ok ()) :
    (execute env t entry).tracer = { t with pendingSignal := heldSignal (env.waitpid t.pid) } := by
  simp only [execute, h]
  split <;> simp_all [heldSignal]

-- Running the instruction touches nothing but the slot of the pending signal.
theorem execute_tracer :
    ∃ sig, (execute env t entry).tracer = { t with pendingSignal := sig } := by
  cases h : env.ptraceStep t.pid t.pendingSignal with
  | error e => exact ⟨none, by rw [execute_of_error env t entry h]⟩
  | ok done => exact ⟨_, execute_tracer_of_ok env t entry h⟩

-- The entry is returned when the step succeeds and the wait reports a stop.
def StopReported (env : Env arch) (t : Tracer) : Prop :=
  env.ptraceStep t.pid t.pendingSignal = .ok () ∧ ∃ pid sig, env.waitpid t.pid = .ok (.stopped pid sig)

theorem execute_result_eq_ok_iff (e : TraceEntry) :
    (execute env t entry).result = .ok e ↔ entry = e ∧ StopReported env t := by
  unfold StopReported
  cases hstep : env.ptraceStep t.pid t.pendingSignal with
  | error message => simp [execute, hstep]
  | ok done =>
      cases hwait : env.waitpid t.pid with
      | error message => simp [execute, hstep, hwait]
      | ok status =>
          cases status with
          | stopped pid sig => cases sig <;> simp [execute, hstep, hwait]
          | _ => simp [execute, hstep, hwait]

end Execute

section SingleStep

variable {env : Env arch} {t : Tracer}

theorem singleStep_of_error {e : String} (h : observe env t.task = .error e) :
    singleStep env t = { result := .error e, tracer := touched env t, calls := [] } := by
  unfold observe at h
  unfold singleStep touched
  cases hstate : readState env t.task with
  | error e' =>
      rw [hstate] at h
      cases h
      rfl
  | ok state =>
      simp only [hstate, initLastSp_task] at h ⊢
      cases hinsn : readInsn env t.task state.pc with
      | error e' =>
          rw [hinsn] at h
          cases h
          rfl
      | ok insn => simp only [hinsn, reduceCtorEq] at h

theorem singleStep_of_ok {seen : Observation arch} (h : observe env t.task = .ok seen) :
    singleStep env t = execute env (recorded env t seen) (entryOf env t seen) := by
  unfold observe at h
  unfold singleStep
  cases hstate : readState env t.task with
  | error e => simp only [hstate, reduceCtorEq] at h
  | ok state =>
      simp only [hstate, initLastSp_task] at h ⊢
      cases hinsn : readInsn env t.task state.pc with
      | error e => simp only [hinsn, reduceCtorEq] at h
      | ok insn =>
          simp only [hinsn] at h
          cases h
          simp only [TraceDb.insert, recorded, entryOf, makeEntry, initLastSp_pid, initLastSp_db,
            initLastSp_stepCount, initLastSp_callDepth, initLastSp_pendingSignal]

end SingleStep

section Next

-- The tracer after one call, and the entry the call stores if it stores one.
def next (t : Tracer) (env : Env arch) : Tracer :=
  (singleStep env t).tracer

def storedEntry (env : Env arch) (t : Tracer) : Option TraceEntry :=
  match observe env t.task with
  | .error _ => none
  | .ok seen => some (entryOf env t seen)

variable {env : Env arch} {t : Tracer}

theorem next_of_error {e : String} (h : observe env t.task = .error e) :
    next t env = touched env t := by
  unfold next
  rw [singleStep_of_error h]

theorem next_of_ok {seen : Observation arch} (h : observe env t.task = .ok seen) :
    ∃ sig, next t env = { recorded env t seen with pendingSignal := sig } := by
  unfold next
  rw [singleStep_of_ok h]
  exact execute_tracer env _ _

theorem storedEntry_eq_some_iff (e : TraceEntry) :
    storedEntry env t = some e ↔ ∃ seen, observe env t.task = .ok seen ∧ entryOf env t seen = e := by
  unfold storedEntry
  cases observe env t.task <;> simp

@[simp] theorem entryOf_step (seen : Observation arch) : (entryOf env t seen).step = t.stepCount := by
  simp only [entryOf, makeEntry, initLastSp_stepCount]

theorem storedEntry_step {e : TraceEntry} (h : storedEntry env t = some e) :
    e.step = t.stepCount := by
  obtain ⟨seen, _, rfl⟩ := (storedEntry_eq_some_iff e).mp h
  exact entryOf_step seen

-- A part of the tracer other than `last_sp` and the pending signal changes by recording only.
theorem next_field {β : Type} (field : Tracer → β)
    (hsp : ∀ t sp, field { t with lastSp := sp } = field t)
    (hsig : ∀ t sig, field { t with pendingSignal := sig } = field t) (t : Tracer) (env : Env arch) :
    field (next t env) = match observe env t.task with
      | .error _ => field t
      | .ok seen => field (recorded env t seen) := by
  cases h : observe env t.task with
  | error e =>
      rw [next_of_error h]
      unfold touched initLastSp
      split
      · rfl
      · split
        · exact hsp t _
        · rfl
  | ok seen =>
      obtain ⟨sig, hnext⟩ := next_of_ok h
      rw [hnext]
      exact hsig _ sig

@[simp] theorem next_task (t : Tracer) (env : Env arch) : (next t env).task = t.task := by
  rw [next_field Tracer.task (fun _ _ => rfl) (fun _ _ => rfl)]
  split <;> rfl

theorem next_pid (t : Tracer) (env : Env arch) : (next t env).pid = t.pid := by
  rw [next_field Tracer.pid (fun _ _ => rfl) (fun _ _ => rfl)]
  split <;> rfl

theorem next_db (t : Tracer) (env : Env arch) :
    (next t env).db = match storedEntry env t with
      | none => t.db
      | some e => { t.db with entries := t.db.entries.insert e.step e } := by
  rw [next_field Tracer.db (fun _ _ => rfl) (fun _ _ => rfl)]
  unfold storedEntry
  cases observe env t.task with
  | error e => rfl
  | ok seen => simp only [recorded, entryOf_step]

theorem next_path (t : Tracer) (env : Env arch) : (next t env).db.path = t.db.path := by
  rw [next_db]
  cases storedEntry env t <;> rfl

theorem next_stepCount (t : Tracer) (env : Env arch) :
    (next t env).stepCount = t.stepCount + (storedEntry env t).toList.length := by
  rw [next_field Tracer.stepCount (fun _ _ => rfl) (fun _ _ => rfl)]
  unfold storedEntry
  cases observe env t.task <;> rfl

theorem stepCount_le_next (t : Tracer) (env : Env arch) : t.stepCount ≤ (next t env).stepCount := by
  rw [next_stepCount]
  omega

@[simp] theorem run_task (t : Tracer) (envs : List (Env arch)) :
    (run next t envs).task = t.task := by
  induction envs generalizing t with
  | nil => rfl
  | cons env rest ih => rw [run_cons, ih, next_task]

end Next

-- What the calls of a run have read when they record; the task port never changes.
def observations (task : MachTask) (envs : List (Env arch)) : List (Observation arch) :=
  envs.filterMap fun env => (observe env task).toOption

theorem mem_observations_iff (task : MachTask) (envs : List (Env arch)) (seen : Observation arch) :
    seen ∈ observations task envs ↔ ∃ env ∈ envs, observe env task = .ok seen := by
  have hiff : ∀ env : Env arch, (observe env task).toOption = some seen ↔
      observe env task = .ok seen := by
    intro env
    cases observe env task <;> simp [Except.toOption]
  simp only [observations, List.mem_filterMap, hiff]

theorem observations_eq_flatMap (start : Tracer) (envs : List (Env arch)) :
    observations start.task envs =
      (trail next start envs).flatMap fun p => (observe p.2 p.1.task).toOption.toList := by
  induction envs generalizing start with
  | nil => rfl
  | cons env rest ih =>
      have hrest := ih (next start env)
      rw [next_task] at hrest
      rw [trail_cons, List.flatMap_cons, ← hrest, observations, List.filterMap_cons]
      cases (observe env start.task).toOption <;> rfl

-- The entry holds what was read, up to the annotation of a call or a return.
structure Records (e : TraceEntry) (seen : Observation arch) : Prop where
  pc : e.pc = seen.state.pc
  insnBytes : e.insnBytes = seen.insn.bytes
  insnText : ∃ callDepth,
    e.insnText = fullText seen.insn.text (detectCall arch callDepth seen.insn.mnemonicText).2
  regs : e.regs = seen.state.regs

theorem entryOf_records (env : Env arch) (t : Tracer) (seen : Observation arch) :
    Records (entryOf env t seen) seen :=
  ⟨rfl, rfl, ⟨_, rfl⟩, rfl⟩

theorem storedEntry_observed (env : Env arch) (t : Tracer) :
    List.Forall₂ Records (storedEntry env t).toList (observe env t.task).toOption.toList := by
  unfold storedEntry
  cases hseen : observe env t.task with
  | error e => exact List.Forall₂.nil
  | ok seen => exact List.Forall₂.cons (entryOf_records env t seen) List.Forall₂.nil

theorem new_eq_ok {taskForPid : Int32 → Int32 × MachPort} {buildCapstone : Except String Unit}
    {pid : Int32} {dbPath : String} {t : Tracer}
    (h : new taskForPid buildCapstone pid dbPath = .ok t) :
    ∃ task, t = fresh task pid { entries := ∅, path := dbPath } := by
  unfold new at h
  cases htask : MachTask.attach taskForPid pid with
  | error e => simp only [htask, reduceCtorEq] at h
  | ok task =>
      cases buildCapstone with
      | error e => simp only [htask, TraceDb.new, reduceCtorEq] at h
      | ok done =>
          simp only [htask, TraceDb.new, Except.ok.injEq] at h
          exact ⟨task, h.symm⟩

-- A process that answers every read with its registers and its memory, whose next
-- instruction is `insn`, and that answers the step and the wait as told.
def scripted (state : ArmThreadState64) (memory : UInt64 → UInt8) (insn : Insn)
    (stepAnswer : Except String Unit) (waitAnswer : Except String WaitStatus) :
    Env .aarch64 where
  taskThreads _ := (KERN_SUCCESS, [1])
  threadGetState _ := (KERN_SUCCESS, state)
  machVmReadOverwrite _ addr size :=
    (KERN_SUCCESS, (List.range size).map fun i => memory (addr + UInt64.ofNat i))
  disasmAll _ _ := .ok [insn]
  ptraceStep _ _ := stepAnswer
  waitpid _ := waitAnswer

section Scripted

variable {state : ArmThreadState64} {memory : UInt64 → UInt8} {insn : Insn}
  {stepAnswer : Except String Unit} {waitAnswer : Except String WaitStatus}

theorem scripted_readMemory_eq (task : MachTask) (addr : UInt64) (size : Nat) :
    task.readMemory (scripted state memory insn stepAnswer waitAnswer).toKernel addr size =
      .ok ((List.range size).map fun i => memory (addr + UInt64.ofNat i)) := by
  simp [MachTask.readMemory, scripted, List.take_of_length_le]

theorem scripted_readMemory {task : MachTask} {addr : UInt64} {size : Nat} {data : List UInt8}
    (h : task.readMemory (scripted state memory insn stepAnswer waitAnswer).toKernel addr size =
      .ok data) {i : Nat} {byte : UInt8} (hbyte : data[i]? = some byte) :
    byte = memory (addr + UInt64.ofNat i) := by
  rw [scripted_readMemory_eq, Except.ok.injEq] at h
  subst h
  obtain ⟨hi, rfl⟩ := List.getElem?_eq_some_iff.mp hbyte
  simp

end Scripted

-- The instruction that the call is about to run can be run.
def StepSucceeds (env : Env arch) (t : Tracer) : Prop :=
  ∀ seen, observe env t.task = .ok seen → env.ptraceStep t.pid t.pendingSignal = .ok ()

def sampleStart : Tracer :=
  fresh { task := 7 } 42 { entries := ∅, path := "out.tdb" }

theorem new_sampleStart :
    new (fun _ => (KERN_SUCCESS, 7)) (.ok ()) 42 "out.tdb" = .ok sampleStart := rfl

end Tdb.Tracer
