import Tdb.Library.Mailbox
import Tdb.Tracer.Step

namespace Tdb.Tracer

open Tdb.Library Tdb.Library.Mailbox

variable {arch : Arch}

-- The process-control calls of a run, in order.
def callsOf (start : Tracer) (envs : List (Env arch)) : List ControlCall :=
  (trail next start envs).flatMap fun p => (singleStep p.2 p.1).calls

-- The signals handed to the process by the steps that succeeded.
def delivered (calls : List ControlCall) : List Signal :=
  calls.flatMap fun
    | .ptraceStep sig (.ok _) => sig.toList
    | _ => []

-- The signals other than SIGTRAP that stopped the process.
def stopSignals (calls : List ControlCall) : List Signal :=
  calls.flatMap fun
    | .waitpid answer => (heldSignal answer).toList
    | _ => []

-- A process-control call as a move of the pending-signal slot.
def toMove : ControlCall → Option (Move Signal)
  | .ptraceStep sig (.ok _) => some (.hand sig)
  | .ptraceStep sig (.error _) => some (.lose sig)
  | .waitpid answer => (heldSignal answer).map .put

section Moves

variable (calls : List ControlCall)

theorem received_moves : received (calls.filterMap toMove) = delivered calls := by
  induction calls with
  | nil => rfl
  | cons call rest ih =>
      cases call with
      | ptraceStep sig answer =>
          cases answer <;> simp_all [toMove, received, delivered]
      | waitpid answer =>
          cases hheld : heldSignal answer <;> simp_all [toMove, received, delivered]

theorem posted_moves : posted (calls.filterMap toMove) = stopSignals calls := by
  induction calls with
  | nil => rfl
  | cons call rest ih =>
      cases call with
      | ptraceStep sig answer =>
          cases answer <;> simp_all [toMove, posted, stopSignals]
      | waitpid answer =>
          cases hheld : heldSignal answer <;> simp_all [toMove, posted, stopSignals]

theorem hand_mem_moves_iff (given : Option Signal) :
    Move.hand given ∈ calls.filterMap toMove ↔ ControlCall.ptraceStep given (.ok ()) ∈ calls := by
  rw [List.mem_filterMap]
  constructor
  · rintro ⟨call, hcall, hmove⟩
    cases call with
    | ptraceStep sig answer =>
        cases answer <;> simp_all [toMove]
    | waitpid answer => simp [toMove] at hmove
  · intro hcall
    exact ⟨_, hcall, rfl⟩

end Moves

section SingleStep

variable (env : Env arch) (t : Tracer)

-- A call moves the pending signal as a slot moves its item.
theorem singleStep_moves :
    ((singleStep env t).calls.filterMap toMove).foldlM Mailbox.next t.pendingSignal =
      some (Tracer.next t env).pendingSignal := by
  cases h : observe env t.task with
  | error e =>
      rw [next_of_error h, singleStep_of_error h]
      unfold touched
      split <;> simp
  | ok seen =>
      unfold Tracer.next
      rw [singleStep_of_ok h]
      cases hstep : env.ptraceStep t.pid t.pendingSignal with
      | error e =>
          rw [execute_of_error env (recorded env t seen) _ hstep]
          simp [toMove, recorded, Mailbox.next]
      | ok done =>
          rw [execute_calls_of_ok env (recorded env t seen) _ hstep,
            execute_tracer_of_ok env (recorded env t seen) _ hstep]
          cases hheld : heldSignal (env.waitpid t.pid) <;>
            simp [toMove, recorded, Mailbox.next, hheld]

-- A step that fails while a signal is pending drops it: `take()` has emptied the slot.
theorem singleStep_lost_iff :
    lost ((singleStep env t).calls.filterMap toMove) = [] ↔
      (t.pendingSignal.isSome → StepSucceeds env t) := by
  cases h : observe env t.task with
  | error e => simp [singleStep_of_error h, StepSucceeds, h, lost]
  | ok seen =>
      rw [singleStep_of_ok h]
      simp only [StepSucceeds, h, Except.ok.injEq, forall_eq']
      cases hstep : env.ptraceStep t.pid t.pendingSignal with
      | error e =>
          rw [execute_of_error env (recorded env t seen) _ hstep]
          cases hsig : t.pendingSignal <;> simp [toMove, recorded, lost, hsig]
      | ok done =>
          rw [execute_calls_of_ok env (recorded env t seen) _ hstep]
          cases hheld : heldSignal (env.waitpid t.pid) <;>
            simp [toMove, recorded, lost, hheld]

end SingleStep

section Run

variable (start : Tracer) (envs : List (Env arch))

theorem moves_callsOf :
    (callsOf start envs).filterMap toMove =
      (trail next start envs).flatMap fun p => (singleStep p.2 p.1).calls.filterMap toMove := by
  simp only [callsOf, List.filterMap_flatMap]

-- The run refines a slot for one signal.
theorem run_moves :
    ((callsOf start envs).filterMap toMove).foldlM Mailbox.next start.pendingSignal =
      some (run next start envs).pendingSignal := by
  rw [moves_callsOf]
  exact run_simulates next Mailbox.next (fun t => t.pendingSignal)
    (fun t env => (singleStep env t).calls.filterMap toMove)
    fun p _ => singleStep_moves p.2 p.1

theorem lost_flatMap {β : Type} (l : List β) (moves : β → List (Move Signal)) :
    lost (l.flatMap moves) = [] ↔ ∀ b ∈ l, lost (moves b) = [] := by
  induction l with
  | nil => simp [lost]
  | cons b rest ih => simp [ih]

theorem run_lost_iff :
    lost ((callsOf start envs).filterMap toMove) = [] ↔
      ∀ p ∈ trail next start envs, p.1.pendingSignal.isSome → StepSucceeds p.2 p.1 := by
  rw [moves_callsOf, lost_flatMap]
  exact forall₂_congr fun p _ => singleStep_lost_iff p.2 p.1

-- Every signal that stopped the process is handed back to it, once and in order, and
-- with the next step that succeeds.
structure SignalsKept : Prop where
  conserved : delivered (callsOf start envs) ++ (run next start envs).pendingSignal.toList =
    stopSignals (callsOf start envs)
  prompt : ∀ before stop between given after sig,
    callsOf start envs =
      before ++ .waitpid stop :: between ++ .ptraceStep given (.ok ()) :: after →
    heldSignal stop = some sig → (∀ other, .ptraceStep other (.ok ()) ∉ between) →
      given = some sig

end Run

theorem new_run_signalsKept_iff {taskForPid : Int32 → Int32 × MachPort}
    {buildCapstone : Except String Unit} {pid : Int32} {dbPath : String} {start : Tracer}
    (hnew : new taskForPid buildCapstone pid dbPath = .ok start) (envs : List (Env arch)) :
    SignalsKept start envs ↔
      ∀ p ∈ trail next start envs, p.1.pendingSignal.isSome → StepSucceeds p.2 p.1 := by
  have hempty : start.pendingSignal = none := by
    obtain ⟨task, rfl⟩ := new_eq_ok hnew
    rfl
  have hrun := run_moves start envs
  have hconserved := received_eq_posted_iff hrun
  rw [received_moves, posted_moves, hempty, Option.toList_none, List.nil_append] at hconserved
  rw [← run_lost_iff]
  constructor
  · intro h
    exact hconserved.mp h.conserved
  · intro hlost
    refine ⟨hconserved.mpr hlost, ?_⟩
    intro before stop between given after sig hcalls hstop hquiet
    rw [hcalls] at hrun hlost
    simp only [List.filterMap_append, List.filterMap_cons, toMove, hstop, Option.map_some]
      at hrun hlost
    refine hand_of_put hrun ?_ fun other => ?_
    · simp only [lost_append, List.append_eq_nil_iff, lost] at hlost
      exact hlost.1.2
    · rw [hand_mem_moves_iff]
      exact hquiet other

theorem new_run_signalsKept_iff_scripted :
    let envs := [scripted { sp := 0x1000 } (fun _ => 0)
      { bytes := [], mnemonic := some "nop", opStr := none } (.ok ()) (.ok (.stopped 42 .SIGINT))]
    SignalsKept sampleStart envs ↔
      ∀ p ∈ trail next sampleStart envs, p.1.pendingSignal.isSome → StepSucceeds p.2 p.1 :=
  new_run_signalsKept_iff new_sampleStart _

-- SIGINT stops the process and the next step fails: the retry goes on without the signal.
theorem run_stepFailed_drops_signal :
    ¬ ∀ envs : List (Env .aarch64), SignalsKept sampleStart envs := by
  intro h
  let nop : Insn := { bytes := [0x1f, 0x20, 0x03, 0xd5], mnemonic := some "nop", opStr := none }
  have hconserved := (h
    [scripted { sp := 0x1000, pc := 0x4000 } (fun _ => 0) nop (.ok ()) (.ok (.stopped 42 .SIGINT)),
      scripted { sp := 0x1000, pc := 0x4004 } (fun _ => 0) nop
        (.error "EBUSY: Device or resource busy") (.error "ECHILD: No child processes"),
      scripted { sp := 0x1000, pc := 0x4004 } (fun _ => 0) nop (.ok ())
        (.ok (.stopped 42 .SIGTRAP))]).conserved
  revert hconserved
  decide +kernel

end Tdb.Tracer
