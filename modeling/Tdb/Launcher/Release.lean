import Tdb.Launcher
import Tdb.TraceLoop.Theorems

namespace Tdb.Launcher

open Tdb.Library Tdb.Storage Tdb.Tracer Tdb.TraceLoop

variable {arch : Arch}

section Lines

-- The lines of the entries that `printProgress` prints.
def LineDue (s : LoopState) (entry : TraceEntry) : Prop :=
  entry.step % 1000 = 0 ∨ (entry.step - s.lastPrintStep > 100 ∧ isInteresting entry = true)

-- No character lies across the place where the text is cut.
def Cuttable (insnText : String) : Prop :=
  insnText.utf8ByteSize > 50 → (Text.slicePrefix insnText.toList 47).isSome

def LineFits (s : LoopState) (i : Iteration arch) : Prop :=
  ∀ entry, i.running = true → (s.tracer.singleStep i.env).result = .ok entry → LineDue s entry →
    Cuttable entry.insnText

theorem shortInsn_error_iff (insnText : String) :
    (∃ panic, shortInsn insnText = .error panic) ↔ ¬Cuttable insnText := by
  unfold Cuttable
  rw [shortInsn_eq]
  simp only [Text.truncated_eq_error_iff, exists_eq_left', Classical.not_imp,
    Option.not_isSome_iff_eq_none]

theorem printProgress_panicked_iff (s : LoopState) (entry : TraceEntry) :
    (∃ s' panic, printProgress s entry = .stop s' (.panicked panic)) ↔
      LineDue s entry ∧ ¬Cuttable entry.insnText := by
  rw [← shortInsn_error_iff]
  unfold printProgress LineDue
  split
  · rename_i hdue
    cases shortInsn entry.insnText <;> simp [hdue]
  · rename_i hdue
    simp [hdue]

theorem iterate_panicked_iff (s : LoopState) (i : Iteration arch) :
    (∃ s' panic, iterate s i = .stop s' (.panicked panic)) ↔ ¬LineFits s i := by
  unfold iterate LineFits
  cases i.running with
  | false => simp
  | true =>
      simp only [Bool.not_true, Bool.false_eq_true, if_false]
      cases hresult : (s.tracer.singleStep i.env).result with
      | ok entry =>
          dsimp only
          rw [printProgress_panicked_iff]
          simp [LineDue, countEntry]
      | processExited code => simp
      | error e =>
          dsimp only
          split <;> simp

end Lines

section Calls

variable {s : LoopState} {start : Tracer} {iterations : List (Iteration arch)} {pid : Int32}

theorem iterate_pid (s : LoopState) (i : Iteration arch) :
    (iterate s i).state.tracer.pid = s.tracer.pid := by
  rw [iterate_tracer]
  split
  · exact next_pid s.tracer i.env
  · rfl

-- The tracer stays with its process.
theorem loop_pid (start : Tracer) (iterations : List (Iteration arch)) :
    (loop iterate { tracer := start } iterations).state.tracer.pid = start.pid :=
  @loop_invariant _ _ _ iterate (fun s => s.tracer.pid = start.pid) _ _ rfl fun p _ h =>
    (iterate_pid p.1 p.2).trans h

-- Stepping never lets it go.
theorem detach_not_mem_loopCalls (start : Tracer) (iterations : List (Iteration arch))
    (pid : Int32) : .detach pid ∉ loopCalls start iterations := by
  intro h
  obtain ⟨p, _, hp⟩ := List.mem_flatMap.mp h
  unfold iterationCalls at hp
  split at hp
  · obtain ⟨call, _, hcall⟩ := List.mem_map.mp hp
    cases call <;> cases hcall
  · cases hp

-- A launch and an attach get hold of a process and do nothing else.
theorem mem_launched_calls (sys : System arch) (command : Command) :
    ∀ c ∈ (command.launched sys).calls,
      c = .fork ∨ (∃ pid, c = .attach pid) ∨ ∃ pid, c = .wait pid := by
  cases command with
  | run program args =>
      show ∀ c ∈ (launch sys.waitpid sys.fork program args).calls, _
      unfold launch
      split
      · simp
      · split
        · simp
        · cases sys.fork with
          | error e => simp
          | ok child =>
              simp only [Calling.calls_bind, Calling.calls_call, Calling.result_call]
              split <;> simp
  | trace pid =>
      show ∀ c ∈ (attach sys.waitpid sys.ptraceAttach pid).calls, _
      unfold attach
      simp only [Calling.calls_bind, Calling.calls_call, Calling.result_call]
      split
      · simp
      · simp only [Calling.calls_bind, Calling.calls_call, Calling.result_call]
        split <;> simp

theorem detach_not_mem_launched (sys : System arch) (command : Command) (pid : Int32) :
    .detach pid ∉ (command.launched sys).calls := by
  intro h
  rcases mem_launched_calls sys command _ h with h | ⟨_, h⟩ | ⟨_, h⟩ <;> cases h

theorem launched_writes (sys : System arch) (command : Command) :
    writes (command.launched sys).calls = [] := by
  refine List.filterMap_eq_nil_iff.mpr fun c hc => ?_
  rcases mem_launched_calls sys command c hc with rfl | ⟨_, rfl⟩ | ⟨_, rfl⟩ <;> rfl

theorem detach_mem_finish_iff (write : String → List UInt8 → Except String Unit) (s : LoopState) :
    .detach s.tracer.pid ∈ (finish write s).calls ↔ (s.tracer.db.save write).result = .ok () := by
  rw [finish_calls]
  cases (s.tracer.db.save write).result <;> simp

end Calls

section Commands

variable (sys : System arch) (output : String) (pid : Int32)

-- The loop is entered: the tracer is made and the handler installed.
def Prepared (start : Tracer) : Prop :=
  Tracer.new sys.taskForPid sys.buildCapstone pid output = .ok start ∧ sys.setHandler = .ok ()

-- Some step reports that the process is gone.
def ExitReported : Prop :=
  ∃ start, Prepared sys output pid start ∧
    ∃ p ∈ visited iterate { tracer := start } sys.iterations, p.2.running = true ∧
      ∃ code, (p.1.tracer.singleStep p.2.env).result = .processExited code

-- Every text can be cut that a line is printed for, and the store can be saved.
def EndsWell (start : Tracer) : Prop :=
  (∀ p ∈ visited iterate { tracer := start } sys.iterations, LineFits p.1 p.2) ∧
    ((loop iterate { tracer := start } sys.iterations).state.tracer.db.save sys.write).result = .ok ()

def Released (session : Ending) : Prop :=
  ExitReported sys output pid ∨ .detach pid ∈ session.calls

variable {sys output pid}

theorem new_pid {start : Tracer}
    (h : Tracer.new sys.taskForPid sys.buildCapstone pid output = .ok start) : start.pid = pid := by
  obtain ⟨task, rfl⟩ := new_eq_ok h
  rfl

theorem lines_fit_iff {start : Tracer} {iterations : List (Iteration arch)} {s : LoopState}
    {exit : LoopExit} (hflow : loop iterate { tracer := start } iterations = .stop s exit) :
    (∀ p ∈ visited iterate { tracer := start } iterations, LineFits p.1 p.2) ↔
      ∀ panic, exit ≠ .panicked panic := by
  constructor
  · rintro hfit panic rfl
    obtain ⟨p, hp, hstop⟩ := (loop_eq_stop_iff iterate).mp hflow
    exact (iterate_panicked_iff p.1 p.2).mp ⟨s, panic, hstop⟩ (hfit p hp)
  · intro hexit p hp
    by_contra hfit
    obtain ⟨s', panic, hstop⟩ := (iterate_panicked_iff p.1 p.2).mpr hfit
    have hbreak := (loop_eq_stop_iff iterate).mpr ⟨p, hp, hstop⟩
    rw [hflow] at hbreak
    cases hbreak
    exact hexit panic rfl

theorem Prepared.unique {start start' : Tracer} (h : Prepared sys output pid start)
    (h' : Prepared sys output pid start') : start' = start := by
  have hsame := h'.1
  rw [h.1] at hsame
  exact (Except.ok.inj hsame).symm

section Ended

variable {ending : Ending}
  (hended : Ended sys.taskForPid sys.buildCapstone sys.setHandler sys.write pid output
    sys.iterations ending)
include hended

-- The loop gets to its detach exactly if nothing fails or panics before it, and it is the traced
-- process that it lets go.
theorem detach_mem_iff :
    .detach pid ∈ ending.calls ↔ ∃ start, Prepared sys output pid start ∧ EndsWell sys start := by
  cases hended with
  | unprepared panic hnone =>
      refine iff_of_false List.not_mem_nil ?_
      rintro ⟨start, ⟨hnew, hhandler⟩, _⟩
      exact hnone start hnew hhandler
  | panicked start hnew hhandler s panic hflow =>
      have hstep := detach_not_mem_loopCalls start sys.iterations pid
      refine iff_of_false (by simpa using hstep) ?_
      rintro ⟨start', hprepared, hwell⟩
      rw [Prepared.unique ⟨hnew, hhandler⟩ hprepared] at hwell
      exact (lines_fit_iff hflow).mp hwell.1 panic rfl
  | finished start hnew hhandler s exit hflow hexit =>
      have hstep := detach_not_mem_loopCalls start sys.iterations pid
      have hpid := (loop_pid start sys.iterations).trans (new_pid hnew)
      have hsaved : (loop iterate { tracer := start } sys.iterations).state = s := by
        rw [hflow, Flow.state_stop]
      rw [hsaved] at hpid
      have hfinish := detach_mem_finish_iff sys.write s
      rw [hpid, ← hsaved] at hfinish
      rw [Calling.calls_bind, Calling.calls_tell, List.mem_append, or_iff_right hstep, ← hsaved,
        hfinish]
      constructor
      · intro hsave
        exact ⟨start, ⟨hnew, hhandler⟩, (lines_fit_iff hflow).mpr hexit, hsave⟩
      · rintro ⟨start', hprepared, hwell⟩
        rw [Prepared.unique ⟨hnew, hhandler⟩ hprepared] at hwell
        exact hwell.2

end Ended

theorem attach_pid {waitpid : Int32 → Except String WaitStatus}
    {ptraceAttach : Int32 → Except String Unit} {launcher : ProcessLauncher}
    (h : (attach waitpid ptraceAttach pid).result = .ok launcher) : launcher.pid = pid := by
  unfold attach at h
  simp only [Calling.result_bind, Calling.result_call] at h
  split at h
  · cases h
  · simp only [Calling.result_bind, Calling.result_call] at h
    split at h
    · cases h
      rfl
    · cases h
    · cases h

-- Once the launcher holds the process, the loop takes over.
theorem session_eq_traceFrom {command : Command} {launcher : ProcessLauncher}
    (hlaunched : (command.launched sys).result = .ok launcher) :
    command.session sys output =
      traceFrom sys (command.launched sys) launcher.pid output := by
  cases command with
  | run program args =>
      show runAndTrace sys program args output = _
      unfold runAndTrace
      change (launch sys.waitpid sys.fork program args).result = _ at hlaunched
      dsimp only
      rw [hlaunched]
      rfl
  | trace pid =>
      show attachAndTrace sys pid output = _
      unfold attachAndTrace
      change (attach sys.waitpid sys.ptraceAttach pid).result = _ at hlaunched
      rw [attach_pid hlaunched]
      dsimp only
      rw [hlaunched]
      rfl

-- What a command writes its loop writes.
theorem mem_writes_session {command : Command} {session : Ending} {file : FileWrite}
    (hended : command.session sys output = some session) (hfile : file ∈ writes session.calls) :
    ∃ launcher ending, (command.launched sys).result = .ok launcher ∧
      traceLoop sys.taskForPid sys.buildCapstone sys.setHandler sys.write launcher.pid output
        sys.iterations = some ending ∧ file ∈ writes ending.calls := by
  have hlaunch := launched_writes sys command
  cases hresult : (command.launched sys).result with
  | error e =>
      have hcalls : session.calls = (command.launched sys).calls := by
        cases command with
        | run program args =>
            change runAndTrace sys program args output = _ at hended
            change (launch sys.waitpid sys.fork program args).result = _ at hresult
            unfold runAndTrace at hended
            dsimp only at hended
            rw [hresult] at hended
            cases hended
            exact List.append_nil _
        | trace pid =>
            change attachAndTrace sys pid output = _ at hended
            change (attach sys.waitpid sys.ptraceAttach pid).result = _ at hresult
            unfold attachAndTrace at hended
            dsimp only at hended
            rw [hresult] at hended
            cases hended
            exact List.append_nil _
      rw [hcalls, hlaunch] at hfile
      exact absurd hfile List.not_mem_nil
  | ok launcher =>
      rw [session_eq_traceFrom hresult] at hended
      obtain ⟨ending, hloop, rfl⟩ := Option.map_eq_some_iff.mp hended
      unfold writes at hfile hlaunch
      rw [Calling.calls_bind, List.filterMap_append, hlaunch] at hfile
      exact ⟨launcher, ending, rfl, hloop, hfile⟩

-- The process is let go exactly if nothing fails between the launch and the last line of the
-- loop, or it had gone by itself.
theorem session_released_iff {command : Command} {launcher : ProcessLauncher} {session : Ending}
    (hlaunched : (command.launched sys).result = .ok launcher)
    (hended : command.session sys output = some session) :
    Released sys output launcher.pid session ↔
      ExitReported sys output launcher.pid ∨
        ∃ start, Prepared sys output launcher.pid start ∧ EndsWell sys start := by
  rw [session_eq_traceFrom hlaunched] at hended
  obtain ⟨ending, hloop, rfl⟩ := Option.map_eq_some_iff.mp hended
  have hlaunch := detach_not_mem_launched sys command launcher.pid
  unfold Released
  rw [Calling.calls_bind, List.mem_append, or_iff_right hlaunch,
    detach_mem_iff (traceLoop_ended hloop)]

end Commands

section Samples

-- A system that grants everything, and a user who stops the trace after one instruction.
def sampleSystem : System .aarch64 where
  fork := .ok 42
  ptraceAttach _ := .ok ()
  waitpid pid := .ok (.stopped pid .SIGTRAP)
  taskForPid _ := (KERN_SUCCESS, 7)
  buildCapstone := .ok ()
  setHandler := .ok ()
  write _ _ := .ok ()
  iterations :=
    let env := scripted { sp := 0x1000, pc := 0x4000 } (fun _ => 0)
      { bytes := [0x1f, 0x20, 0x03, 0xd5], mnemonic := some "nop", opStr := none } (.ok ())
      (.ok (.stopped 42 .SIGTRAP))
    [{ running := true, env }, { running := false, env }]

theorem session_released_iff_sample :
    ∃ session, (Command.run "ls" ["-l"]).session sampleSystem "out.tdb" = some session ∧
      (Released sampleSystem "out.tdb" 42 session ↔
        ExitReported sampleSystem "out.tdb" 42 ∨
          ∃ start, Prepared sampleSystem "out.tdb" 42 start ∧ EndsWell sampleSystem start) := by
  have hended : ((Command.run "ls" ["-l"]).session sampleSystem "out.tdb").isSome := by
    decide +kernel
  have hlaunched : ((Command.run "ls" ["-l"]).launched sampleSystem).result = .ok ⟨42⟩ := rfl
  obtain ⟨session, hsession⟩ := Option.isSome_iff_exists.mp hended
  exact ⟨session, hsession, session_released_iff hlaunched hsession⟩

-- Without the right to the task port the tracer is not made, and the process stays attached.
def deniedSystem : System .aarch64 :=
  { sampleSystem with taskForPid := fun _ => (5, 0) }

theorem denied_session_not_released :
    ¬ ∀ (sys : System .aarch64) (command : Command) (output : String) (launcher : ProcessLauncher)
      (session : Ending), (command.launched sys).result = .ok launcher →
        command.session sys output = some session → Released sys output launcher.pid session := by
  intro h
  have hended : ((Command.trace 42).session deniedSystem "out.tdb").isSome := by decide +kernel
  obtain ⟨session, hsession⟩ := Option.isSome_iff_exists.mp hended
  have hcalls : ((Command.trace 42).session deniedSystem "out.tdb").map Calling.calls =
      some [.attach 42, .wait 42] := by decide +kernel
  rw [hsession] at hcalls
  rcases h deniedSystem (.trace 42) "out.tdb" { pid := 42 } session rfl hsession with
    ⟨start, ⟨hnew, _⟩, _⟩ | hdetach
  · cases hnew
  · rw [Option.some.inj hcalls] at hdetach
    revert hdetach
    decide

end Samples

end Tdb.Launcher
