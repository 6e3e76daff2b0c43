import Tdb.TraceLoop.Theorems

namespace Tdb.TraceLoop

open Tdb.Library Tdb.Storage Tdb.Tracer

variable {arch : Arch}

def Iteration.answer (i : Iteration arch) : Option (Env arch) :=
  if i.running then some i.env else none

-- What the calls of a loop are answered, in their order.
def answers (start : Tracer) (iterations : List (Iteration arch)) : List (Env arch) :=
  (visited iterate { tracer := start } iterations).filterMap fun p => p.2.answer

theorem loop_tracer (start : Tracer) (iterations : List (Iteration arch)) :
    (loop iterate { tracer := start } iterations).state.tracer =
      run next start (answers start iterations) := by
  refine loop_runs iterate next LoopState.tracer (fun _ i => i.answer) fun p _ => ?_
  rw [iterate_tracer]
  unfold Iteration.answer
  cases p.2.running <;> rfl

-- What the store of a trace holds: the instructions that the calls have seen, under the numbers
-- from zero on.
structure Holds (start : Tracer) (iterations : List (Iteration arch)) (db : TraceDb) : Prop where
  path : db.path = start.db.path
  steps : db.getAll.map TraceEntry.step = List.range db.count
  records : List.Forall₂ Records db.getAll (observations start.task (answers start iterations))

theorem run_path (start : Tracer) (envs : List (Env arch)) :
    (run next start envs).db.path = start.db.path :=
  @run_invariant _ _ next (fun t => t.db.path = start.db.path) _ envs rfl fun t env h =>
    (next_path t env).trans h

theorem loop_holds {start : Tracer} (hgap : start.GapFree) (hempty : start.db.getAll = [])
    (iterations : List (Iteration arch)) :
    Holds start iterations (loop iterate { tracer := start } iterations).state.tracer.db := by
  rw [loop_tracer]
  have hfinal := run_gapFree hgap (answers start iterations)
  refine ⟨run_path start _, ?_, getAll_run_records hgap _ hempty⟩
  rw [hfinal.getAll_steps, hfinal.count_eq]

-- A loop that writes a file has broken without a panic, and writes what its calls have seen.
theorem traceLoop_saves {taskForPid : Int32 → Int32 × MachPort}
    {buildCapstone setHandler : Except String Unit}
    {write : String → List UInt8 → Except String Unit} {pid : Int32} {output : String}
    {iterations : List (Iteration arch)} {ending : Ending} {file : FileWrite}
    (hloop : traceLoop taskForPid buildCapstone setHandler write pid output iterations =
      some ending)
    (hsaves : file ∈ writes ending.calls) :
    ∃ start db, Tracer.new taskForPid buildCapstone pid output = .ok start ∧ setHandler = .ok () ∧
      (∃ s exit, loop iterate { tracer := start } iterations = .stop s exit ∧
        (∀ panic, exit ≠ .panicked panic)) ∧
      file = db.file ∧ db.path = output ∧
        db = (loop iterate { tracer := start } iterations).state.tracer.db ∧
          Holds start iterations db := by
  cases traceLoop_ended hloop with
  | unprepared panic hnone => exact absurd hsaves List.not_mem_nil
  | panicked start hnew hhandler s panic hflow =>
      rw [Calling.calls_bind, Calling.calls_tell, Calling.calls_pure, List.append_nil,
        loopCalls_writes] at hsaves
      exact absurd hsaves List.not_mem_nil
  | finished start hnew hhandler s exit hflow hexit =>
      rw [Calling.calls_bind, Calling.calls_tell, writes_finished, List.mem_singleton] at hsaves
      obtain ⟨task, rfl⟩ := new_eq_ok hnew
      have hholds := loop_holds (fresh_gapFree task pid output) fresh_getAll iterations
      refine ⟨_, s.tracer.db, hnew, hhandler, ⟨s, exit, hflow, hexit⟩, hsaves, ?_, ?_, ?_⟩
      · rw [hflow, Flow.state_stop] at hholds
        exact hholds.path
      · rw [hflow, Flow.state_stop]
      · rwa [hflow, Flow.state_stop] at hholds

-- The observations that the entries of a store hold, in their order.
def seen (start : Tracer) (iterations : List (Iteration arch)) : List (Observation arch) :=
  observations start.task (answers start iterations)

theorem Holds.exists_entry {start : Tracer} {iterations : List (Iteration arch)} {db : TraceDb}
    (h : Holds start iterations db) {k : Nat} {o : Observation arch}
    (ho : (seen start iterations)[k]? = some o) :
    ∃ e, db.getAll[k]? = some e ∧ e.regs = o.state.regs := by
  have hregs : db.getAll.map TraceEntry.regs = (seen start iterations).map fun o => o.state.regs :=
    map_eq_of_forall₂ h.records fun e o hrecords => hrecords.regs
  have hat := congrArg (fun l => l[k]?) hregs
  simp only [List.getElem?_map, ho, Option.map_some, Option.map_eq_some_iff] at hat
  exact hat

theorem Holds.exists_state {start : Tracer} {iterations : List (Iteration arch)} {db : TraceDb}
    (h : Holds start iterations db) {e : TraceEntry} (he : e ∈ db.getAll) :
    ∃ state : ThreadState arch, e.regs = state.regs := by
  obtain ⟨o, _, hrecords⟩ := exists_of_mem_forall₂ h.records he
  exact ⟨o.state, hrecords.regs⟩

theorem Holds.step_eq {start : Tracer} {iterations : List (Iteration arch)} {db : TraceDb}
    (h : Holds start iterations db) {k : Nat} {e : TraceEntry} (he : db.getAll[k]? = some e) :
    e.step = k := by
  have hstep : (db.getAll.map TraceEntry.step)[k]? = some e.step := by
    rw [List.getElem?_map, he]
    rfl
  rw [h.steps, List.getElem?_eq_some_iff] at hstep
  obtain ⟨_, hk⟩ := hstep
  rw [← hk, List.getElem_range]

-- What the calls see is what the disassembler answers in one of the iterations.
theorem exists_iteration_of_seen {start : Tracer} {iterations : List (Iteration arch)}
    {o : Observation arch} (ho : o ∈ seen start iterations) :
    ∃ i ∈ iterations, ∃ task, observe i.env task = .ok o := by
  obtain ⟨env, henv, hobserve⟩ := (mem_observations_iff _ _ _).mp ho
  obtain ⟨p, hp, hanswer⟩ := List.mem_filterMap.mp henv
  have hinput : p.2 ∈ iterations := by
    obtain ⟨n, hn⟩ := List.mem_iff_getElem?.mp hp
    exact List.mem_of_getElem? (input_of_visited iterate hn)
  have henv' : p.2.env = env := by
    unfold Iteration.answer at hanswer
    split at hanswer
    · exact Option.some.inj hanswer
    · cases hanswer
  exact ⟨p.2, hinput, _, henv' ▸ hobserve⟩

-- The texts of a store are plain if those of the disassembler are.
theorem Holds.isAscii {start : Tracer} {iterations : List (Iteration arch)} {db : TraceDb}
    (h : Holds start iterations db) (hascii : ∀ i ∈ iterations, CapstoneAscii i.env)
    {e : TraceEntry} (he : e ∈ db.getAll) : Text.IsAscii e.insnText := by
  obtain ⟨o, ho, hrecords⟩ := exists_of_mem_forall₂ h.records he
  obtain ⟨i, hi, task, hobserve⟩ := exists_iteration_of_seen ho
  obtain ⟨code, addr, insns, hdisasm, hmem⟩ := exists_disasm_of_observe hobserve
  obtain ⟨callDepth, htext⟩ := hrecords.insnText
  rw [htext]
  exact isAscii_fullText arch _ _ (hascii i hi code addr insns hdisasm _ hmem)

end Tdb.TraceLoop
