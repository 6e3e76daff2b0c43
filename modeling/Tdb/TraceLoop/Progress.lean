import Tdb.Library.Throttle
import Tdb.TraceLoop.Stops
import Tdb.Tracer.CallDepth

namespace Tdb.TraceLoop

open Tdb.Library Tdb.Storage Tdb.Tracer

variable {arch : Arch}

section Lines

-- The lines of the progress: one for every thousandth step, and one for an interesting step that
-- is more than a hundred steps behind the last one.
def lines : Throttle TraceEntry where
  always e := e.step % 1000 = 0
  wanted e := isInteresting e = true
  place e := e.step
  gap := 100

instance : DecidablePred lines.always := fun e => inferInstanceAs (Decidable (e.step % 1000 = 0))

instance : DecidablePred lines.wanted := fun e =>
  inferInstanceAs (Decidable (isInteresting e = true))

-- The line of an entry, as far as its text can be cut.
def lineOf (e : TraceEntry) : ProgressLine where
  marker := marker e
  step := e.step
  pc := e.pc
  insn := (shortInsn e.insnText).toOption.getD ""

-- What the loop has printed, and the step of its last line.
def printed (s : LoopState) : List ProgressLine × Nat :=
  (s.progress, s.lastPrintStep)

def printedOf (p : Throttle.Passed TraceEntry) : List ProgressLine × Nat :=
  (p.items.map lineOf, p.last)

def offerLine (p : List ProgressLine × Nat) (e : TraceEntry) : List ProgressLine × Nat :=
  if e.step % 1000 = 0 ∨ (e.step - p.2 > 100 ∧ isInteresting e = true) then
    (p.1 ++ [lineOf e], e.step)
  else
    p

theorem offerLine_printedOf (p : Throttle.Passed TraceEntry) (e : TraceEntry) :
    offerLine (printedOf p) e = printedOf (lines.offer p e) := by
  unfold offerLine Throttle.offer
  change (if e.step % 1000 = 0 ∨ (e.step - p.last > 100 ∧ isInteresting e = true) then _ else _) =
    printedOf (if e.step % 1000 = 0 ∨ (e.step - p.last > 100 ∧ isInteresting e = true) then _ else _)
  split
  · unfold printedOf
    rw [List.map_append, List.map_singleton]
    rfl
  · rfl

theorem printProgress_printed {s : LoopState} {entry : TraceEntry}
    (hpanic : ∀ s' panic, printProgress s entry ≠ .stop s' (.panicked panic)) :
    printed (printProgress s entry).state = offerLine (printed s) entry := by
  unfold printProgress at hpanic ⊢
  unfold offerLine printed
  split
  · rename_i hdue
    cases hshort : shortInsn entry.insnText with
    | error panic =>
        rw [if_pos hdue, hshort] at hpanic
        exact absurd rfl (hpanic s panic)
    | ok insn =>
        have hline : lineOf entry = { marker := marker entry, step := entry.step, pc := entry.pc, insn } := by
          unfold lineOf
          rw [hshort]
          rfl
        simp only [Flow.state_next, hline]
  · rfl

theorem iterate_printed {s : LoopState} {i : Iteration arch}
    (hpanic : ∀ s' panic, iterate s i ≠ .stop s' (.panicked panic)) :
    printed (iterate s i).state =
      ((reportedIn s i).map (offerLine (printed s))).getD (printed s) := by
  unfold iterate at hpanic ⊢
  unfold reportedIn
  cases hrun : i.running with
  | false => rfl
  | true =>
      rw [hrun] at hpanic
      simp only [Bool.not_true, Bool.false_eq_true, if_false, if_true] at hpanic ⊢
      cases hresult : (s.tracer.singleStep i.env).result with
      | ok entry =>
          rw [hresult] at hpanic
          exact printProgress_printed hpanic
      | processExited code => rfl
      | error e =>
          dsimp only
          split <;> rfl

end Lines

section Reported

variable (start : Tracer) (iterations : List (Iteration arch))

-- The entries that the loop gets back.
def reported : List TraceEntry :=
  (visited iterate { tracer := start } iterations).filterMap fun p => reportedIn p.1 p.2

variable {start iterations}

theorem reported_sublist (hgap : start.GapFree) (hempty : start.db.getAll = []) :
    (reported start iterations).Sublist
      (loop iterate { tracer := start } iterations).state.tracer.db.getAll := by
  rw [loop_getAll hgap iterations hempty]
  unfold reported
  generalize visited iterate { tracer := start } iterations = l
  induction l with
  | nil => exact List.Sublist.refl []
  | cons p rest ih =>
      have hfirst : (reportedIn p.1 p.2).toList.Sublist (storedIn p.1 p.2).toList := by
        rw [storedIn_toList]
        exact List.sublist_append_left _ _
      have hsplit : (p :: rest).filterMap (fun p => reportedIn p.1 p.2) =
          (reportedIn p.1 p.2).toList ++ rest.filterMap fun p => reportedIn p.1 p.2 := by
        rw [List.filterMap_cons]
        cases reportedIn p.1 p.2 <;> rfl
      rw [hsplit, List.flatMap_cons]
      exact hfirst.append ih

theorem reported_ascends (hgap : start.GapFree) (hempty : start.db.getAll = []) :
    (reported start iterations).Pairwise fun e e' => e.step < e'.step := by
  have hsteps := (loop_gapFree hgap iterations).getAll_steps
  have hall : (loop iterate { tracer := start } iterations).state.tracer.db.getAll.Pairwise
      fun e e' => e.step < e'.step := by
    rw [← List.pairwise_map (f := TraceEntry.step) (R := fun m n => m < n), hsteps]
    exact List.pairwise_lt_range
  exact hall.sublist (reported_sublist hgap hempty)

theorem loop_printed
    (hpanic : ∀ s panic, loop iterate { tracer := start } iterations ≠ .stop s (.panicked panic)) :
    printed (loop iterate { tracer := start } iterations).state =
      printedOf (lines.passed (reported start iterations)) := by
  rw [loop_runs iterate offerLine printed reportedIn fun p hp => iterate_printed
    fun s' panic hstop => hpanic s' panic ((loop_eq_stop_iff iterate).mpr ⟨p, hp, hstop⟩)]
  exact run_mirrors printedOf offerLine_printedOf {} _

end Reported

-- The lines are those of reported entries, in order. A thousandth step has one, and an
-- interesting step exactly if no line is within the hundred steps before it. So there is a line
-- near every interesting step, but for the first hundred steps if step 0 did not come back.
structure ProgressLaw (start : Tracer) (iterations : List (Iteration arch))
    (progress : List ProgressLine) (shown : List TraceEntry) : Prop where
  progress_eq : progress = shown.map lineOf
  ascends : shown.Pairwise fun e e' => e.step < e'.step
  law : lines.Law (reported start iterations) shown
  near : ∀ e ∈ reported start iterations, isInteresting e = true →
    (100 < e.step ∨ ∃ first ∈ reported start iterations, first.step = 0) →
      ∃ l ∈ shown, l.step ≤ e.step ∧ e.step ≤ l.step + 100

theorem new_loop_progressLaw {taskForPid : Int32 → Int32 × MachPort}
    {buildCapstone : Except String Unit} {pid : Int32} {output : String} {start : Tracer}
    (hnew : Tracer.new taskForPid buildCapstone pid output = .ok start)
    {iterations : List (Iteration arch)}
    (hpanic : ∀ s panic, loop iterate { tracer := start } iterations ≠ .stop s (.panicked panic)) :
    ∃ shown, ProgressLaw start iterations
      (loop iterate { tracer := start } iterations).state.progress shown := by
  obtain ⟨task, rfl⟩ := new_eq_ok hnew
  have hascends := @reported_ascends _ _ iterations (fresh_gapFree task pid output) fresh_getAll
  have hlaw := Throttle.passed_law (t := lines) hascends
  refine ⟨_, congrArg Prod.fst (loop_printed hpanic), hascends.sublist hlaw.sublist, hlaw,
    fun e he hwanted hstarted => ?_⟩
  rcases hlaw.near he hwanted with hearly | hnear
  · rcases hstarted with hlate | ⟨first, hfirst, hzero⟩
    · exact absurd hearly (Nat.not_le.mpr hlate)
    · have halways : lines.always first := by
        change first.step % 1000 = 0
        rw [hzero]
      change e.step ≤ 100 at hearly
      exact ⟨first, (hlaw.mem_iff first hfirst).mpr (Or.inl halways), by omega, by omega⟩
  · exact hnear

-- A call, which has the first line, and three steps that are too close to it for another one.
def fourSteps : List (Iteration .aarch64) :=
  callAndReturns.map fun env => { running := true, env }

theorem fourSteps_ascii : ∀ i ∈ fourSteps, CapstoneAscii i.env := by
  intro i hi code addr insns hdisasm insn hmem
  obtain ⟨env, henv, rfl⟩ := List.mem_map.mp hi
  obtain ⟨mnemonic, hmnemonic, rfl⟩ := List.mem_map.mp henv
  cases hdisasm
  rw [List.mem_singleton.mp hmem]
  simp only [List.mem_cons, List.not_mem_nil, or_false] at hmnemonic
  rcases hmnemonic with rfl | rfl | rfl | rfl <;> decide

theorem new_loop_progressLaw_fourSteps :
    (loop iterate { tracer := sampleStart } fourSteps).state.progress.map ProgressLine.step = [0] ∧
      ∃ shown, ProgressLaw sampleStart fourSteps
        (loop iterate { tracer := sampleStart } fourSteps).state.progress shown := by
  refine ⟨by decide +kernel, new_loop_progressLaw new_sampleStart fun s panic => ?_⟩
  exact loop_not_panicked fourSteps_ascii

end Tdb.TraceLoop
