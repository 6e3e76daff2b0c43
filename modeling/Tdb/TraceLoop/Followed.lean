import Tdb.TraceLoop.Recorded
import Tdb.Tracer.Process.Theorems

namespace Tdb.TraceLoop

open Tdb.Library Tdb.Storage Tdb.Tracer

variable {arch : Arch} {σ : Type}

-- The file that is written is the record of what the process does on its own, and the process is
-- left where it would be by then. Ctrl+C and failed calls decide how far this goes, and, as long as
-- the stack can be read, nothing else.
theorem traceLoop_followed {taskForPid : Int32 → Int32 × MachPort}
    {buildCapstone setHandler : Except String Unit}
    {write : String → List UInt8 → Except String Unit} {pid : Int32} {output : String}
    {iterations : List (Iteration arch)} {ending : Ending} {file : FileWrite}
    {process : Process arch σ} {capstone : List UInt8 → UInt64 → Except String (List Insn)} {s : σ}
    (hloop : traceLoop taskForPid buildCapstone setHandler write pid output iterations =
      some ending)
    (hsaves : file ∈ writes ending.calls)
    (hanswers : ∀ start, Tracer.new taskForPid buildCapstone pid output = .ok start →
      AnswersAll process capstone start s (answers start iterations))
    (htraps : ∀ start, Tracer.new taskForPid buildCapstone pid output = .ok start →
      TrapFree process s (run next start (answers start iterations)).db.count) :
    ∃ start db, Tracer.new taskForPid buildCapstone pid output = .ok start ∧ file = db.file ∧
      db = (run next start (answers start iterations)).db ∧
      Followed process capstone start s (answers start iterations) := by
  obtain ⟨start, db, hnew, _, _, hfile, _, hdb, _⟩ := traceLoop_saves hloop hsaves
  refine ⟨start, db, hnew, hfile, by rw [hdb, loop_tracer], ?_⟩
  exact new_run_followed hnew (hanswers start hnew) (htraps start hnew)

-- Ctrl+C comes after the second instruction.
def interruptedIterations : List (Iteration .aarch64) :=
  interruptedEnvs.map (fun env => { running := true, env }) ++
    [{ running := false, env := interrupted.answering disasmStore (2, none) }]

def traceInterrupted : Option Ending :=
  traceLoop (fun _ => (KERN_SUCCESS, 7)) (.ok ()) (.ok ()) (fun _ _ => .ok ()) 42 "out.tdb"
    interruptedIterations

theorem traceInterrupted_saved :
    (traceInterrupted.map fun ending => (writes ending.calls).length) = some 1 := by
  decide +kernel

theorem answers_interruptedIterations :
    answers sampleStart interruptedIterations = interruptedEnvs := rfl

theorem traceLoop_followed_interrupted :
    ∃ ending file, traceInterrupted = some ending ∧ file ∈ writes ending.calls ∧
      ∃ start db, Tracer.new (fun _ => (KERN_SUCCESS, 7)) (.ok ()) 42 "out.tdb" = .ok start ∧
        file = db.file ∧ db = (run next start (answers start interruptedIterations)).db ∧
        Followed interrupted disasmStore start 0 (answers start interruptedIterations) := by
  obtain ⟨ending, hloop, hlength⟩ := Option.map_eq_some_iff.mp traceInterrupted_saved
  obtain ⟨file, hfile⟩ := List.length_eq_one_iff.mp hlength
  have hmem : file ∈ writes ending.calls := by simp [hfile]
  refine ⟨ending, file, hloop, hmem, traceLoop_followed hloop hmem (fun start hnew => ?_)
    fun start hnew => ?_⟩
  · rw [new_sampleStart, Except.ok.injEq] at hnew
    subst hnew
    rw [answers_interruptedIterations]
    exact answersAll_interruptedEnvs
  · rw [new_sampleStart, Except.ok.injEq] at hnew
    subst hnew
    rw [answers_interruptedIterations]
    unfold TrapFree
    decide +kernel

end Tdb.TraceLoop
