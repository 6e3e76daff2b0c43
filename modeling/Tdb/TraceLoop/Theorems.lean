import Mathlib.Algebra.Order.BigOperators.Group.List
import Mathlib.Algebra.Order.Monoid.Prod
import Mathlib.Algebra.Order.Group.Nat
import Tdb.Stats.Lemmas
import Tdb.Storage.SaveLoad
import Tdb.TraceLoop
import Tdb.Tracer.Markers
import Tdb.Tracer.Memory

namespace Tdb.TraceLoop

open Tdb.Library Tdb.Storage Tdb.Stats Tdb.Tracer

variable {arch : Arch}

-- What an entry adds to the calls, the returns and the memory changes of a summary.
def amount (e : TraceEntry) : Nat × Nat × Nat :=
  (if Text.contains e.insnText "CALL" then 1 else 0,
    if Text.contains e.insnText "RETURN" then 1 else 0, e.memChanges.length)

def counters (s : LoopState) : Nat × Nat × Nat :=
  (s.callCount, s.returnCount, s.memChangeCount)

-- The text of a line is cut like any other.
theorem shortInsn_eq (insnText : String) : shortInsn insnText =
    Text.truncated 50 47 "..." { message := Text.midCharacter insnText 47 } insnText :=
  rfl

section Iterate

variable (s : LoopState) (i : Iteration arch)

-- The entry an iteration stores, the one it gets back as `Ok` and counts, and the one that
-- is stored only.
def storedIn : Option TraceEntry :=
  if i.running then storedEntry i.env s.tracer else none

def reportedIn : Option TraceEntry :=
  if i.running then
    match (s.tracer.singleStep i.env).result with
    | .ok entry => some entry
    | _ => none
  else none

def missedIn : Option TraceEntry :=
  if (reportedIn s i).isSome then none else storedIn s i

theorem printProgress_tracer (entry : TraceEntry) :
    (printProgress s entry).state.tracer = s.tracer := by
  unfold printProgress
  split
  · cases shortInsn entry.insnText <;> rfl
  · rfl

theorem printProgress_counters (entry : TraceEntry) :
    counters (printProgress s entry).state = counters s := by
  unfold printProgress
  split
  · cases shortInsn entry.insnText <;> rfl
  · rfl

theorem countEntry_counters (entry : TraceEntry) :
    counters (countEntry s entry) = counters s + amount entry := by
  unfold counters countEntry amount
  split <;> split <;> rfl

theorem iterate_tracer :
    (iterate s i).state.tracer = if i.running then next s.tracer i.env else s.tracer := by
  unfold iterate next
  cases i.running with
  | false => rfl
  | true =>
      simp only [Bool.not_true, Bool.false_eq_true, if_false, if_true]
      cases (s.tracer.singleStep i.env).result with
      | ok entry => exact printProgress_tracer _ entry
      | processExited code => rfl
      | error e =>
          dsimp only
          split <;> rfl

theorem iterate_counters :
    counters (iterate s i).state = counters s + ((reportedIn s i).toList.map amount).sum := by
  unfold iterate reportedIn
  cases i.running with
  | false => rfl
  | true =>
      simp only [Bool.not_true, Bool.false_eq_true, if_false, if_true]
      cases (s.tracer.singleStep i.env).result with
      | ok entry =>
          simp only [printProgress_counters, countEntry_counters, Option.toList_some,
            List.map_singleton, List.sum_singleton]
          rfl
      | processExited code => rfl
      | error e =>
          dsimp only
          split <;> rfl

theorem reportedIn_eq_some_iff (e : TraceEntry) :
    reportedIn s i = some e ↔ i.running = true ∧ ∃ seen,
      observe i.env s.tracer.task = .ok seen ∧ entryOf i.env s.tracer seen = e ∧
        StopReported i.env s.tracer := by
  have hresult : reportedIn s i = some e ↔
      i.running = true ∧ (s.tracer.singleStep i.env).result = .ok e := by
    unfold reportedIn
    cases i.running <;> cases (s.tracer.singleStep i.env).result <;> simp
  rw [hresult]
  cases h : observe i.env s.tracer.task with
  | error message => simp [singleStep_of_error h]
  | ok seen =>
      rw [singleStep_of_ok h, execute_result_eq_ok_iff]
      simp only [Except.ok.injEq, exists_eq_left']
      exact Iff.rfl

theorem storedIn_eq_some_iff (e : TraceEntry) :
    storedIn s i = some e ↔ i.running = true ∧ ∃ seen,
      observe i.env s.tracer.task = .ok seen ∧ entryOf i.env s.tracer seen = e := by
  unfold storedIn
  cases i.running <;> simp [storedEntry_eq_some_iff]

theorem storedIn_toList :
    (storedIn s i).toList = (reportedIn s i).toList ++ (missedIn s i).toList := by
  unfold missedIn
  cases h : reportedIn s i with
  | none => rfl
  | some e =>
      obtain ⟨hrun, seen, hseen, he, _⟩ := (reportedIn_eq_some_iff s i e).mp h
      rw [(storedIn_eq_some_iff s i e).mpr ⟨hrun, seen, hseen, he⟩]
      rfl

theorem missedIn_eq_some_iff (e : TraceEntry) :
    missedIn s i = some e ↔ i.running = true ∧ ∃ seen,
      observe i.env s.tracer.task = .ok seen ∧ entryOf i.env s.tracer seen = e ∧
        ¬ StopReported i.env s.tracer := by
  unfold missedIn
  constructor
  · intro h
    split at h
    · cases h
    · rename_i hnone
      obtain ⟨hrun, seen, hseen, he⟩ := (storedIn_eq_some_iff s i e).mp h
      refine ⟨hrun, seen, hseen, he, fun hstop => hnone ?_⟩
      rw [(reportedIn_eq_some_iff s i e).mpr ⟨hrun, seen, hseen, he, hstop⟩]
      rfl
  · rintro ⟨hrun, seen, hseen, he, hstop⟩
    have hnone : reportedIn s i = none := by
      refine Option.eq_none_iff_forall_ne_some.mpr fun other hother => ?_
      obtain ⟨_, _, _, _, hreported⟩ := (reportedIn_eq_some_iff s i other).mp hother
      exact hstop hreported
    rw [hnone]
    exact (storedIn_eq_some_iff s i e).mpr ⟨hrun, seen, hseen, he⟩

theorem iterate_getAll (hgap : s.tracer.GapFree) :
    (iterate s i).state.tracer.db.getAll = s.tracer.db.getAll ++ (storedIn s i).toList := by
  rw [iterate_tracer]
  unfold storedIn
  cases i.running with
  | false => simp
  | true => exact hgap.getAll_next i.env

theorem iterate_gapFree (hgap : s.tracer.GapFree) : (iterate s i).state.tracer.GapFree := by
  rw [iterate_tracer]
  split
  · exact hgap.next i.env
  · exact hgap

end Iterate

section Loop

theorem iterate_path (s : LoopState) (i : Iteration arch) :
    (iterate s i).state.tracer.db.path = s.tracer.db.path := by
  rw [iterate_tracer]
  split
  · exact next_path s.tracer i.env
  · rfl

theorem loop_path (start : Tracer) (iterations : List (Iteration arch)) :
    (loop iterate { tracer := start } iterations).state.tracer.db.path = start.db.path :=
  @loop_invariant _ _ _ iterate (fun s => s.tracer.db.path = start.db.path) _ _ rfl fun p _ h =>
    (iterate_path p.1 p.2).trans h

variable {start : Tracer} (hgap : start.GapFree) (iterations : List (Iteration arch))
include hgap

theorem visited_gapFree :
    ∀ p ∈ visited iterate { tracer := start } iterations, p.1.tracer.GapFree :=
  @visited_invariant _ _ _ iterate (fun s => s.tracer.GapFree) _ _ hgap fun p _ h => iterate_gapFree p.1 p.2 h

theorem loop_gapFree : (loop iterate { tracer := start } iterations).state.tracer.GapFree :=
  @loop_invariant _ _ _ iterate (fun s => s.tracer.GapFree) _ _ hgap fun p _ h => iterate_gapFree p.1 p.2 h

theorem loop_getAll (hempty : start.db.getAll = []) :
    (loop iterate { tracer := start } iterations).state.tracer.db.getAll =
      (visited iterate { tracer := start } iterations).flatMap
        fun p => (storedIn p.1 p.2).toList := by
  have happends := loop_appends iterate (fun s => s.tracer.db.getAll)
    (fun s i => (storedIn s i).toList)
    fun p hp => iterate_getAll p.1 p.2 (visited_gapFree hgap iterations p hp)
  rwa [hempty, List.nil_append] at happends

omit hgap in
theorem loop_counters :
    counters (loop iterate { tracer := start } iterations).state =
      ((visited iterate { tracer := start } iterations).map fun p =>
        ((reportedIn p.1 p.2).toList.map amount).sum).sum := by
  refine (loop_adds iterate counters (fun s i => ((reportedIn s i).toList.map amount).sum)
    fun p _ => iterate_counters p.1 p.2).trans ?_
  exact zero_add _

-- What is stored is what was counted, and what was missed on top of it.
theorem loop_amount (hempty : start.db.getAll = []) :
    ((loop iterate { tracer := start } iterations).state.tracer.db.getAll.map amount).sum =
      counters (loop iterate { tracer := start } iterations).state +
        ((visited iterate { tracer := start } iterations).map fun p =>
          ((missedIn p.1 p.2).toList.map amount).sum).sum := by
  rw [loop_getAll hgap iterations hempty, loop_counters, ← List.sum_map_add]
  generalize visited iterate { tracer := start } iterations = l
  induction l with
  | nil => rfl
  | cons p rest ih =>
      rw [List.flatMap_cons, List.map_append, List.sum_append, ih, List.map_cons, List.sum_cons,
        storedIn_toList, List.map_append, List.sum_append]

end Loop

section Analyze

theorem sum_amount (entries : List TraceEntry) :
    (entries.map amount).sum = (entries.countP fun e => Text.contains e.insnText "CALL",
      entries.countP fun e => Text.contains e.insnText "RETURN",
      (entries.map fun e => e.memChanges.length).sum) := by
  induction entries with
  | nil => rfl
  | cons e rest ih =>
      simp only [List.map_cons, List.sum_cons, ih, List.countP_cons, amount, Prod.mk_add_mk,
        Nat.add_comm]

theorem analyze_amount (order : HashOrder) (db : TraceDb) :
    ((TraceStats.analyze order db).callCount, (TraceStats.analyze order db).retCount,
      (TraceStats.analyze order db).memChangeCount) = (db.getAll.map amount).sum := by
  rw [sum_amount, analyze_callCount, analyze_retCount, analyze_memChangeCount]

end Analyze

section Quiet

-- An instruction that counts for nothing: neither a call nor a return, by its mnemonic or by
-- the letters of its text, and with nothing changed in a window since its last snapshot.
structure Quiet (env : Env arch) (t : Tracer) (seen : Observation arch) : Prop where
  not_call : isCall arch seen.insn.mnemonicText = false
  not_return : isReturn arch seen.insn.mnemonicText = false
  text_not_call : Text.contains seen.insn.text "CALL" = false
  text_not_return : Text.contains seen.insn.text "RETURN" = false
  window_same : ∀ base newData oldData, captured env t = some (base, newData) →
    t.memoryCache[base]? = some oldData → ∀ (i : Nat) (oldVal newVal : UInt8),
      oldData[i]? = some oldVal → newData[i]? = some newVal → newVal = oldVal

theorem diffWindow_eq_nil_iff (base : UInt64) (oldData newData : List UInt8) :
    diffWindow base oldData newData = [] ↔
      ∀ (i : Nat) (oldVal newVal : UInt8), oldData[i]? = some oldVal →
        newData[i]? = some newVal → newVal = oldVal := by
  rw [List.eq_nil_iff_forall_not_mem]
  constructor
  · intro h i oldVal newVal hold hnew
    by_contra hne
    exact h ⟨base + UInt64.ofNat i, oldVal, newVal⟩
      ((mem_diffWindow_iff _ _ _ _).mpr ⟨i, hold, hnew, hne, rfl⟩)
  · intro h c hc
    obtain ⟨i, hold, hnew, hne, _⟩ := (mem_diffWindow_iff _ _ _ _).mp hc
    exact hne (h i _ _ hold hnew)

theorem memChanges_eq_nil_iff {env : Env arch} {t : Tracer} {seen : Observation arch}
    (h : observe env t.task = .ok seen) :
    (entryOf env t seen).memChanges = [] ↔
      ∀ base newData oldData, captured env t = some (base, newData) →
        t.memoryCache[base]? = some oldData → ∀ (i : Nat) (oldVal newVal : UInt8),
          oldData[i]? = some oldVal → newData[i]? = some newVal → newVal = oldVal := by
  rw [entryOf_memChanges h]
  cases hcap : captured env t with
  | none => simp
  | some snapshot =>
      obtain ⟨base, newData⟩ := snapshot
      cases hold : t.memoryCache[base]? with
      | none =>
          simp only [hold]
          refine iff_of_true trivial fun _ _ oldData hsame hsome => ?_
          cases hsame
          rw [hold] at hsome
          cases hsome
      | some oldData =>
          simp only [hold]
          refine (diffWindow_eq_nil_iff base oldData newData).trans ⟨?_, ?_⟩
          · intro hbytes _ _ other hsame hsome
            cases hsame
            rw [hold] at hsome
            cases hsome
            exact hbytes
          · intro hbytes
            exact hbytes base newData oldData rfl hold

theorem amount_entryOf_eq_zero_iff {env : Env arch} {t : Tracer} {seen : Observation arch}
    (h : observe env t.task = .ok seen) : amount (entryOf env t seen) = 0 ↔ Quiet env t seen := by
  have hcall : Text.contains (entryOf env t seen).insnText "CALL" =
      (Text.contains seen.insn.text "CALL" || isCall arch seen.insn.mnemonicText) :=
    entryText_contains_CALL arch _ _ _
  have hret : Text.contains (entryOf env t seen).insnText "RETURN" =
      (Text.contains seen.insn.text "RETURN" || isReturn arch seen.insn.mnemonicText) :=
    entryText_contains_RETURN arch _ _ _
  have hchanges := memChanges_eq_nil_iff h
  simp only [amount, hcall, hret, Prod.mk_eq_zero, List.length_eq_zero_iff, hchanges]
  constructor
  · rintro ⟨h1, h2, h3⟩
    simp only [ite_eq_right_iff, Nat.one_ne_zero, imp_false, Bool.not_eq_true, Bool.or_eq_false_iff]
      at h1 h2
    exact ⟨h1.2, h2.2, h1.1, h2.1, h3⟩
  · intro hq
    simp only [hq.not_call, hq.not_return, hq.text_not_call, hq.text_not_return, Bool.or_self,
      Bool.false_eq_true, if_false, true_and]
    exact hq.window_same

end Quiet

section Summary

def Agrees (printed : Summary) (stats : TraceStats) : Prop :=
  printed.totalSteps = stats.totalSteps ∧ printed.functionCalls = stats.callCount ∧
    printed.returns = stats.retCount ∧ printed.memoryChanges = stats.memChangeCount

theorem agrees_iff {s : LoopState} (hgap : s.tracer.GapFree) (order : HashOrder) :
    Agrees (summary s) (TraceStats.analyze order s.tracer.db) ↔
      counters s = (s.tracer.db.getAll.map amount).sum := by
  rw [← analyze_amount order]
  simp only [Agrees, summary, counters, analyze_totalSteps, hgap.count_eq, true_and,
    Prod.mk.injEq]

-- Every recorded instruction is returned as Ok or counts for nothing.
def EntriesCounted (start : Tracer) (iterations : List (Iteration arch)) : Prop :=
  ∀ p ∈ visited iterate { tracer := start } iterations, p.2.running = true → ∀ seen,
    observe p.2.env p.1.tracer.task = .ok seen →
      StopReported p.2.env p.1.tracer ∨ Quiet p.2.env p.1.tracer seen

theorem missed_eq_zero_iff (s : LoopState) (i : Iteration arch) :
    ((missedIn s i).toList.map amount).sum = 0 ↔
      (i.running = true → ∀ seen, observe i.env s.tracer.task = .ok seen →
        StopReported i.env s.tracer ∨ Quiet i.env s.tracer seen) := by
  have hzero : ((missedIn s i).toList.map amount).sum = 0 ↔
      ∀ e, missedIn s i = some e → amount e = 0 := by
    cases missedIn s i <;> simp
  rw [hzero]
  constructor
  · intro h hrun seen hseen
    by_cases hstop : StopReported i.env s.tracer
    · exact Or.inl hstop
    · have hmissed := (missedIn_eq_some_iff s i _).mpr ⟨hrun, seen, hseen, rfl, hstop⟩
      exact Or.inr ((amount_entryOf_eq_zero_iff hseen).mp (h _ hmissed))
  · intro h e he
    obtain ⟨hrun, seen, hseen, rfl, hstop⟩ := (missedIn_eq_some_iff s i e).mp he
    rcases h hrun seen hseen with hreported | hquiet
    · exact False.elim (hstop hreported)
    · exact (amount_entryOf_eq_zero_iff hseen).mpr hquiet

theorem loop_agrees_iff {start : Tracer} (hgap : start.GapFree) (hempty : start.db.getAll = [])
    (iterations : List (Iteration arch)) (order : HashOrder) {s : LoopState}
    (hs : (loop iterate { tracer := start } iterations).state = s) :
    Agrees (summary s) (TraceStats.analyze order s.tracer.db) ↔ EntriesCounted start iterations := by
  have hamount := loop_amount hgap iterations hempty
  have hfinal := loop_gapFree hgap iterations
  rw [hs] at hamount hfinal
  rw [agrees_iff hfinal, hamount, left_eq_add, List.sum_eq_zero_iff]
  simp only [List.mem_map, forall_exists_index, and_imp, forall_apply_eq_imp_iff₂,
    missed_eq_zero_iff]
  exact Iff.rfl

end Summary

section Ended

variable {taskForPid : Int32 → Int32 × MachPort} {buildCapstone setHandler : Except String Unit}
  {write : String → List UInt8 → Except String Unit} {pid : Int32} {output : String}
  {iterations : List (Iteration arch)}

-- The three ways in which the loop can end: it is never entered, it panics over a line, or it
-- comes to its last lines.
inductive Ended (taskForPid : Int32 → Int32 × MachPort)
    (buildCapstone setHandler : Except String Unit)
    (write : String → List UInt8 → Except String Unit) (pid : Int32) (output : String)
    (iterations : List (Iteration arch)) : Ending → Prop where
  | unprepared (panic : Panic)
      (hnone : ∀ start, Tracer.new taskForPid buildCapstone pid output = .ok start →
        setHandler ≠ .ok ()) :
      Ended taskForPid buildCapstone setHandler write pid output iterations
        (return .error panic)
  | panicked (start : Tracer) (hnew : Tracer.new taskForPid buildCapstone pid output = .ok start)
      (hhandler : setHandler = .ok ()) (s : LoopState) (panic : Panic)
      (hflow : loop iterate { tracer := start } iterations = .stop s (.panicked panic)) :
      Ended taskForPid buildCapstone setHandler write pid output iterations do
        tell (loopCalls start iterations)
        return .error panic
  | finished (start : Tracer) (hnew : Tracer.new taskForPid buildCapstone pid output = .ok start)
      (hhandler : setHandler = .ok ()) (s : LoopState) (exit : LoopExit)
      (hflow : loop iterate { tracer := start } iterations = .stop s exit)
      (hexit : ∀ panic, exit ≠ .panicked panic) :
      Ended taskForPid buildCapstone setHandler write pid output iterations do
        tell (loopCalls start iterations)
        finish write s

theorem traceLoop_ended {ending : Ending}
    (hloop : traceLoop taskForPid buildCapstone setHandler write pid output iterations =
      some ending) :
    Ended taskForPid buildCapstone setHandler write pid output iterations ending := by
  unfold traceLoop at hloop
  cases hnew : Tracer.new taskForPid buildCapstone pid output with
  | error e =>
      rw [hnew] at hloop
      cases hloop
      exact .unprepared _ fun start hstart => by rw [hnew] at hstart; cases hstart
  | ok start =>
      rw [hnew] at hloop
      cases hhandler : setHandler with
      | error e =>
          rw [hhandler] at hloop
          cases hloop
          exact .unprepared _ fun _ _ => nofun
      | ok done =>
          rw [hhandler] at hloop
          cases hflow : loop iterate { tracer := start } iterations with
          | next s => simp only [hflow, reduceCtorEq] at hloop
          | stop s exit =>
              simp only [hflow] at hloop
              cases exit with
              | panicked panic =>
                  cases hloop
                  exact .panicked start hnew rfl s panic hflow
              | _ =>
                  cases hloop
                  exact .finished start hnew rfl s _ hflow nofun

theorem finish_result (s : LoopState) :
    (finish write s).result = match (s.tracer.db.save write).result with
      | .error e => .error { message := s!"Failed to save trace: {repr e}" }
      | .ok () => .ok (summary s) := by
  unfold finish
  simp only [Calling.result_bind, Calling.result_within]
  cases (s.tracer.db.save write).result <;> rfl

-- After the save comes the detach, if the save has worked.
theorem finish_calls (s : LoopState) :
    (finish write s).calls = .write s.tracer.db.file ::
      match (s.tracer.db.save write).result with
      | .error _ => []
      | .ok () => [.detach s.tracer.pid] := by
  unfold finish
  simp only [Calling.calls_bind, Calling.calls_within, Calling.result_within, TraceDb.save_calls]
  cases (s.tracer.db.save write).result <;> rfl

-- Saving is one write, of the whole store.
theorem finish_writes (s : LoopState) : writes (finish write s).calls = [s.tracer.db.file] := by
  rw [finish_calls]
  cases (s.tracer.db.save write).result <;> rfl

theorem iterationCalls_written (s : LoopState) (i : Iteration arch) :
    ∀ c ∈ iterationCalls s i, c.written = none := by
  intro c hc
  unfold iterationCalls at hc
  split at hc
  · obtain ⟨call, _, rfl⟩ := List.mem_map.mp hc
    cases call <;> rfl
  · exact absurd hc List.not_mem_nil

-- Nothing is written before the loop is left.
theorem loopCalls_writes (start : Tracer) (iterations : List (Iteration arch)) :
    writes (loopCalls start iterations) = [] := by
  refine List.filterMap_eq_nil_iff.mpr fun c hc => ?_
  obtain ⟨p, _, hp⟩ := List.mem_flatMap.mp hc
  exact iterationCalls_written p.1 p.2 c hp

theorem writes_finished (start : Tracer) (iterations : List (Iteration arch)) (s : LoopState) :
    writes (loopCalls start iterations ++ (finish write s).calls) = [s.tracer.db.file] := by
  unfold writes
  rw [List.filterMap_append]
  exact (congrArg₂ (· ++ ·) (loopCalls_writes start iterations) (finish_writes s))

-- A trace that prints a summary has left the loop and saved what the loop recorded.
theorem traceLoop_eq_ok {start : Tracer} {ending : Ending} {printed : Summary}
    (hnew : Tracer.new taskForPid buildCapstone pid output = .ok start)
    (hloop : traceLoop taskForPid buildCapstone setHandler write pid output iterations =
      some ending)
    (hprinted : ending.result = .ok printed) :
    ∃ s, (loop iterate { tracer := start } iterations).state = s ∧ printed = summary s ∧
      writes ending.calls = [s.tracer.db.file] := by
  cases traceLoop_ended hloop with
  | unprepared panic hnone => cases hprinted
  | panicked start' hnew' hhandler s panic hflow => cases hprinted
  | finished start' hnew' hhandler s exit hflow hexit =>
      rw [hnew] at hnew'
      cases hnew'
      have hstate : (loop iterate { tracer := start } iterations).state = s := by
        rw [hflow, Flow.state_stop]
      refine ⟨s, hstate, ?_, writes_finished start iterations s⟩
      rw [Calling.result_bind, finish_result] at hprinted
      split at hprinted
      · cases hprinted
      · exact (Except.ok.inj hprinted).symm

end Ended

-- The live counters see the entries that come back as Ok, the statistics all that are stored.
theorem traceLoop_agrees_iff {taskForPid : Int32 → Int32 × MachPort}
    {buildCapstone setHandler : Except String Unit}
    {write : String → List UInt8 → Except String Unit} {pid : Int32} {output : String}
    {iterations : List (Iteration arch)} {start : Tracer} {ending : Ending} {printed : Summary}
    (hnew : Tracer.new taskForPid buildCapstone pid output = .ok start)
    (hloop : traceLoop taskForPid buildCapstone setHandler write pid output iterations =
      some ending)
    (hprinted : ending.result = .ok printed) :
    ∃ db, db = (loop iterate { tracer := start } iterations).state.tracer.db ∧
      writes ending.calls = [db.file] ∧ ∀ order,
        (Agrees printed (TraceStats.analyze order db) ↔ EntriesCounted start iterations) := by
  obtain ⟨s, hs, rfl, hsave⟩ := traceLoop_eq_ok hnew hloop hprinted
  obtain ⟨task, rfl⟩ := new_eq_ok hnew
  exact ⟨s.tracer.db, by rw [hs], hsave, fun order =>
    loop_agrees_iff (fresh_gapFree task pid output) fresh_getAll iterations order hs⟩

section Killed

-- A process that is killed while it runs a call instruction.
def killedInCall : List (Iteration .aarch64) :=
  [{ running := true
     env := scripted { sp := 0x1000, pc := 0x4000 } (fun _ => 0)
       { bytes := [0, 0, 0, 0x94], mnemonic := some "bl", opStr := some "#0x4000" } (.ok ())
       (.ok (.signaled 42 .SIGKILL false)) }]

def traceKilled : Option Ending :=
  traceLoop (fun _ => (KERN_SUCCESS, 7)) (.ok ()) (.ok ()) (fun _ _ => .ok ()) 42 "out.tdb"
    killedInCall

theorem traceKilled_result :
    traceKilled.map Calling.result = some (.ok ⟨1, 0, 0, 0⟩) := by decide +kernel

theorem traceLoop_agrees_iff_killedInCall :
    ∃ ending printed, traceKilled = some ending ∧ ending.result = .ok printed ∧
      ∃ db, db = (loop iterate { tracer := sampleStart } killedInCall).state.tracer.db ∧
        writes ending.calls = [db.file] ∧ ∀ order,
          (Agrees printed (TraceStats.analyze order db) ↔
            EntriesCounted sampleStart killedInCall) := by
  obtain ⟨ending, hloop, hprinted⟩ := Option.map_eq_some_iff.mp traceKilled_result
  exact ⟨ending, _, hloop, hprinted, traceLoop_agrees_iff new_sampleStart hloop hprinted⟩

-- The call is in the saved trace, and the summary prints no call.
theorem traceLoop_killed_disagrees :
    ¬ ∀ (iterations : List (Iteration .aarch64)) ending printed db,
      traceLoop (fun _ => (KERN_SUCCESS, 7)) (.ok ()) (.ok ()) (fun _ _ => .ok ()) 42 "out.tdb"
        iterations = some ending → ending.result = .ok printed → db.Representable →
          writes ending.calls = [db.file] →
            ∀ order, Agrees printed (TraceStats.analyze order db) := by
  intro h
  obtain ⟨ending, hloop, hprinted⟩ := Option.map_eq_some_iff.mp traceKilled_result
  obtain ⟨s, hs, _, hsave⟩ := traceLoop_eq_ok new_sampleStart hloop hprinted
  have hfits : s.tracer.db.Representable := by
    rw [← hs]
    decide +kernel
  have hcount : (TraceStats.analyze .inKeyOrder s.tracer.db).callCount = 1 := by
    rw [← hs]
    decide +kernel
  have hagrees := h killedInCall ending _ s.tracer.db hloop hprinted hfits hsave .inKeyOrder
  rw [← hagrees.2.1] at hcount
  cases hcount

end Killed

end Tdb.TraceLoop
