import Tdb.TraceLoop.Theorems

namespace Tdb.TraceLoop

open Tdb.Library Tdb.Storage Tdb.Stats Tdb.Tracer

variable {arch : Arch}

section Iterate

variable {s s' : LoopState} {i : Iteration arch}

-- What the `n`-th call gives when every iteration before it has made one.
def resultAt (start : Tracer) (iterations : List (Iteration arch)) (n : Nat) : Option StepResult :=
  iterations[n]?.map fun i =>
    ((run next start ((iterations.take n).map Iteration.env)).singleStep i.env).result

def isError : StepResult → Bool
  | .error _ => true
  | _ => false

-- The `n`-th iteration finds the flag cleared, its call reports the exit of the process, or it
-- is the eleventh in a row whose call reports an error.
def StopsAt (start : Tracer) (iterations : List (Iteration arch)) (n : Nat) : Prop :=
  (∃ i, iterations[n]? = some i ∧ i.running = false) ∨
    (∃ code, resultAt start iterations n = some (.processExited code)) ∨
    10 ≤ n ∧ ∀ m, n ≤ m + 10 → m ≤ n → (resultAt start iterations m).any isError

theorem shortInsn_of_isAscii {text : String} (h : Text.IsAscii text) :
    ∃ shown, shortInsn text = .ok shown := by
  rw [shortInsn_eq, Text.truncated_ok_iff]
  exact fun hlong => h.endsAt (by omega)

-- A line is printed without a panic, and then it is the last one.
theorem printProgress_of_isAscii {entry : TraceEntry} (h : Text.IsAscii entry.insnText) :
    ∃ progress lastPrintStep, printProgress s entry = .next { s with progress, lastPrintStep } ∧
      (lastPrintStep = entry.step ∨ lastPrintStep = s.lastPrintStep) := by
  obtain ⟨shown, hshown⟩ := shortInsn_of_isAscii h
  unfold printProgress
  split
  · rw [hshown]
    exact ⟨_, _, rfl, Or.inl rfl⟩
  · exact ⟨s.progress, s.lastPrintStep, rfl, Or.inr rfl⟩

-- An entry that comes back as Ok is the one the call has stored, and its text is plain.
theorem of_result_ok {t : Tracer} {env : Env arch} {entry : TraceEntry}
    (h : (t.singleStep env).result = .ok entry) :
    storedEntry env t = some entry ∧ (CapstoneAscii env → Text.IsAscii entry.insnText) := by
  cases hseen : observe env t.task with
  | error message =>
      rw [singleStep_of_error hseen] at h
      cases h
  | ok seen =>
      rw [singleStep_of_ok hseen, execute_result_eq_ok_iff] at h
      obtain ⟨rfl, _⟩ := h
      refine ⟨(storedEntry_eq_some_iff _).mpr ⟨seen, hseen, rfl⟩, fun hascii => ?_⟩
      obtain ⟨code, addr, insns, hdisasm, hmem⟩ := exists_disasm_of_observe hseen
      unfold entryOf makeEntry
      exact isAscii_fullText arch _ _ (hascii code addr insns hdisasm seen.insn hmem)

-- What an iteration with the flag set does, by the result of its call, when no line can panic.
inductive Goes (s : LoopState) (i : Iteration arch) : Flow LoopState LoopExit → Prop where
  | counted (entry : TraceEntry) (progress : List ProgressLine) (lastPrintStep : Nat)
      (hresult : (s.tracer.singleStep i.env).result = .ok entry)
      (hprint : lastPrintStep = entry.step ∨ lastPrintStep = s.lastPrintStep) :
      Goes s i (.next
        { countEntry { s with tracer := next s.tracer i.env } entry with progress, lastPrintStep })
  | exited (code : Int32) (hresult : (s.tracer.singleStep i.env).result = .processExited code) :
      Goes s i (.stop { s with tracer := next s.tracer i.env } (.processExited code))
  | forgiven (message : String) (hresult : (s.tracer.singleStep i.env).result = .error message)
      (hcount : s.errorCount < 10) :
      Goes s i (.next
        { s with tracer := next s.tracer i.env, errorCount := s.errorCount + 1 })
  | failed (message : String) (hresult : (s.tracer.singleStep i.env).result = .error message)
      (hcount : 10 ≤ s.errorCount) :
      Goes s i (.stop
        { s with tracer := next s.tracer i.env, errorCount := s.errorCount + 1 }
        (.tooManyErrors message))

theorem iterate_goes (s : LoopState) (hascii : CapstoneAscii i.env) (hrun : i.running = true) :
    Goes s i (iterate s i) := by
  unfold iterate
  rw [hrun]
  simp only [Bool.not_true, Bool.false_eq_true, if_false]
  cases hresult : (s.tracer.singleStep i.env).result with
  | ok entry =>
      obtain ⟨progress, lastPrintStep, hprogress, hprint⟩ := printProgress_of_isAscii
        (s := countEntry { s with tracer := (s.tracer.singleStep i.env).tracer } entry)
        ((of_result_ok hresult).2 hascii)
      dsimp only
      rw [hprogress]
      exact .counted entry progress lastPrintStep hresult hprint
  | processExited code => exact .exited code hresult
  | error message =>
      dsimp only
      split
      · exact .failed message hresult (by omega)
      · exact .forgiven message hresult (by omega)

end Iterate

section Counting

variable {start : Tracer} {iterations : List (Iteration arch)}

-- At the top of the `n`-th iteration the tracer has made `n` calls, the error count is the
-- number of errors that they end with, and the last printed step lies behind.
structure Counts (start : Tracer) (iterations : List (Iteration arch)) (n : Nat) (s : LoopState) :
    Prop where
  tracer_eq : s.tracer = run next start ((iterations.take n).map Iteration.env)
  errorCount_le : s.errorCount ≤ n
  errors : ∀ m, n ≤ m + s.errorCount → m < n → (resultAt start iterations m).any isError
  other : ∀ m, m + s.errorCount + 1 = n → (resultAt start iterations m).any isError = false
  lastPrintStep_le : s.lastPrintStep ≤ s.tracer.stepCount

theorem resultAt_eq {n : Nat} {s : LoopState} {i : Iteration arch}
    (h : Counts start iterations n s) (hi : iterations[n]? = some i) :
    resultAt start iterations n = some (s.tracer.singleStep i.env).result := by
  unfold resultAt
  rw [hi, h.tracer_eq, Option.map_some]

theorem run_take_next {n : Nat} {s : LoopState} {i : Iteration arch}
    (h : Counts start iterations n s) (hi : iterations[n]? = some i) :
    next s.tracer i.env = run next start ((iterations.take (n + 1)).map Iteration.env) := by
  rw [List.take_add_one, hi, Option.toList_some, List.map_append, run_append, ← h.tracer_eq]
  rfl

theorem Goes.counts {n : Nat} {s s' : LoopState} {i : Iteration arch}
    (h : Counts start iterations n s) (hi : iterations[n]? = some i) (hgoes : Goes s i (.next s')) :
    Counts start iterations (n + 1) s' := by
  have hresultAt := resultAt_eq h hi
  have hnext := run_take_next h hi
  have hmono := stepCount_le_next s.tracer i.env
  have hprinted := h.lastPrintStep_le
  have hcount := h.errorCount_le
  generalize hflow : Flow.next s' = flow at hgoes
  cases hgoes with
  | counted entry progress lastPrintStep hresult hprint =>
      cases hflow
      have hstep := storedEntry_step (of_result_ok hresult).1
      rw [hresult] at hresultAt
      refine ⟨hnext, Nat.zero_le _, fun m hm hmn => ?_, fun m hm => ?_, ?_⟩
      · dsimp only [countEntry] at hm
        omega
      · dsimp only [countEntry] at hm
        obtain rfl : m = n := by omega
        rw [hresultAt]
        rfl
      · dsimp only [countEntry]
        omega
  | forgiven message hresult _ =>
      cases hflow
      rw [hresult] at hresultAt
      refine ⟨hnext, by dsimp only; omega, fun m hm hmn => ?_, fun m hm => ?_, ?_⟩
      · dsimp only at hm
        by_cases hmn' : m = n
        · subst hmn'
          rw [hresultAt]
          rfl
        · exact h.errors m (by omega) (by omega)
      · dsimp only at hm
        exact h.other m (by omega)
      · dsimp only
        omega
  | exited code hresult => cases hflow
  | failed message hresult _ => cases hflow

-- With the flag set it is up to the result of the call and the errors counted before it.
theorem Counts.stopsAt_iff {n : Nat} {s : LoopState} {i : Iteration arch}
    (h : Counts start iterations n s) (hi : iterations[n]? = some i) (hrun : i.running = true) :
    StopsAt start iterations n ↔
      (∃ code, (s.tracer.singleStep i.env).result = .processExited code) ∨
        (∃ message, (s.tracer.singleStep i.env).result = .error message) ∧ 10 ≤ s.errorCount := by
  have hresultAt := resultAt_eq h hi
  have hcleared : ¬∃ i, iterations[n]? = some i ∧ i.running = false := by
    rintro ⟨j, hj, hfalse⟩
    rw [hi, Option.some.injEq] at hj
    rw [← hj, hrun] at hfalse
    cases hfalse
  unfold StopsAt
  simp only [hcleared, false_or, hresultAt, Option.some.injEq]
  refine or_congr_right ?_
  constructor
  · rintro ⟨hn, herrors⟩
    have hlast := herrors n (by omega) le_rfl
    rw [hresultAt, Option.any_some] at hlast
    refine ⟨?_, ?_⟩
    · cases hresult : (s.tracer.singleStep i.env).result with
      | error message => exact ⟨message, rfl⟩
      | ok entry =>
          rw [hresult] at hlast
          cases hlast
      | processExited code =>
          rw [hresult] at hlast
          cases hlast
    · by_contra hfew
      -- the call in front of the counted errors is one of the eleven
      have hother := h.other (n - s.errorCount - 1) (by omega)
      rw [herrors _ (by omega) (by omega)] at hother
      cases hother
  · rintro ⟨⟨message, hmessage⟩, hcount⟩
    have hle := h.errorCount_le
    refine ⟨by omega, fun m hm hmn => ?_⟩
    by_cases hlast : m = n
    · subst hlast
      rw [hresultAt, hmessage]
      rfl
    · exact h.errors m (by omega) (by omega)

-- An iteration breaks exactly where it should.
theorem Counts.stops_iff {n : Nat} {s : LoopState} {i : Iteration arch}
    (h : Counts start iterations n s) (hi : iterations[n]? = some i)
    (hascii : CapstoneAscii i.env) :
    (∃ s' e, iterate s i = .stop s' e) ↔ StopsAt start iterations n := by
  cases hrun : i.running with
  | false =>
      refine iff_of_true ⟨s, .stopping, ?_⟩ (Or.inl ⟨i, hi, hrun⟩)
      unfold iterate
      simp [hrun]
  | true =>
      have hgoes := iterate_goes s hascii hrun
      rw [h.stopsAt_iff hi hrun]
      generalize iterate s i = flow at hgoes
      cases hgoes with
      | counted entry progress lastPrintStep hresult hprint => simp [hresult]
      | exited code hresult => simp [hresult]
      | forgiven message hresult hcount => simp [hresult, hcount]
      | failed message hresult hcount => simp [hresult, hcount]

end Counting

section Run

variable {start : Tracer} {iterations : List (Iteration arch)}

theorem lt_of_stopsAt {n : Nat} (h : StopsAt start iterations n) : n < iterations.length := by
  have hsome : ∀ result, resultAt start iterations n = some result → n < iterations.length := by
    intro result hresult
    obtain ⟨i, hi, _⟩ := Option.map_eq_some_iff.mp hresult
    exact (List.getElem?_eq_some_iff.mp hi).1
  rcases h with ⟨i, hi, _⟩ | ⟨code, hcode⟩ | ⟨_, herrors⟩
  · exact (List.getElem?_eq_some_iff.mp hi).1
  · exact hsome _ hcode
  · obtain ⟨result, hresult, _⟩ := (Option.any_eq_true _ _).mp (herrors n (by omega) le_rfl)
    exact hsome result hresult

variable (hascii : ∀ i ∈ iterations, CapstoneAscii i.env)
include hascii

theorem visited_counts {n : Nat} {p : LoopState × Iteration arch}
    (hp : (visited iterate { tracer := start } iterations)[n]? = some p) :
    Counts start iterations n p.1 := by
  refine visited_invariant_at iterate ?_ ?_ hp
  · refine ⟨rfl, le_rfl, fun m _ hm => ?_, fun m hm => ?_, Nat.zero_le _⟩
    · omega
    · cases hm
  · intro n p s' hp hcounts hnext
    have hi := input_of_visited iterate hp
    cases hrun : p.2.running with
    | false =>
        unfold iterate at hnext
        simp [hrun] at hnext
    | true =>
        have hgoes := iterate_goes p.1 (hascii p.2 (List.mem_of_getElem? hi)) hrun
        rw [hnext] at hgoes
        exact hgoes.counts hcounts hi

theorem visited_stops_iff (n : Nat) (p : LoopState × Iteration arch)
    (hp : (visited iterate { tracer := start } iterations)[n]? = some p) :
    (∃ s' e, iterate p.1 p.2 = .stop s' e) ↔ StopsAt start iterations n := by
  have hi := input_of_visited iterate hp
  exact (visited_counts hascii hp).stops_iff hi (hascii p.2 (List.mem_of_getElem? hi))

theorem loop_not_panicked {s : LoopState} {panic : Panic} :
    loop iterate { tracer := start } iterations ≠ .stop s (.panicked panic) := by
  intro hloop
  obtain ⟨p, hp, hstop⟩ := (loop_eq_stop_iff iterate).mp hloop
  obtain ⟨n, hn⟩ := List.mem_iff_getElem?.mp hp
  have hi := input_of_visited iterate hn
  cases hrun : p.2.running with
  | false =>
      unfold iterate at hstop
      simp [hrun] at hstop
  | true =>
      have hgoes := iterate_goes p.1 (hascii p.2 (List.mem_of_getElem? hi)) hrun
      rw [hstop] at hgoes
      cases hgoes

end Run

section Ended

variable {taskForPid : Int32 → Int32 × MachPort} {buildCapstone : Except String Unit}
  {write : String → List UInt8 → Except String Unit} {pid : Int32} {output : String}
  {start : Tracer} {iterations : List (Iteration arch)}

theorem traceLoop_eq_some_iff (hnew : Tracer.new taskForPid buildCapstone pid output = .ok start)
    (hascii : ∀ i ∈ iterations, CapstoneAscii i.env) (ending : Ending) :
    traceLoop taskForPid buildCapstone (.ok ()) write pid output iterations = some ending ↔
      ∃ s e, loop iterate { tracer := start } iterations = .stop s e ∧
        ending = (do
          tell (loopCalls start iterations)
          finish write s) := by
  unfold traceLoop
  rw [hnew]
  dsimp only
  cases hflow : loop iterate { tracer := start } iterations with
  | next s => simp
  | stop s exit =>
      cases exit with
      | panicked panic => exact absurd hflow (loop_not_panicked hascii)
      | _ => simp [eq_comm]

-- What the loop does with every sequence of answers and every moment at which the flag is
-- cleared.
structure StopsExactly (start : Tracer) (output : String) (iterations : List (Iteration arch))
    (ending : Option Ending) : Prop where
  -- a call is made as long as nothing has stopped the loop and the flag is set
  called : ∀ n, (∃ p, (visited iterate { tracer := start } iterations)[n]? = some p ∧
      p.2.running = true) ↔
    (∃ i, iterations[n]? = some i ∧ i.running = true) ∧ ∀ m < n, ¬StopsAt start iterations m
  call_eq : ∀ (n : Nat) p, (visited iterate { tracer := start } iterations)[n]? = some p →
    iterations[n]? = some p.2 ∧
      p.1.tracer = run next start ((iterations.take n).map Iteration.env)
  ends : ending.isSome ↔ ∃ n, StopsAt start iterations n
  saved : ∀ e, ending = some e → ∃ db : TraceDb, writes e.calls = [db.file] ∧ db.path = output ∧
    db.getAll = (visited iterate { tracer := start } iterations).flatMap fun p =>
      (storedIn p.1 p.2).toList
  no_underflow : ∀ p ∈ visited iterate { tracer := start } iterations, p.2.running = true →
    ∀ entry, (p.1.tracer.singleStep p.2.env).result = .ok entry → p.1.lastPrintStep ≤ entry.step

-- The loop goes on until the flag is cleared, the process exits or eleven calls in a row have
-- failed, and saves once what all its calls have recorded.
theorem traceLoop_stopsExactly
    (hnew : Tracer.new taskForPid buildCapstone pid output = .ok start)
    (hascii : ∀ i ∈ iterations, CapstoneAscii i.env) :
    StopsExactly start output iterations
      (traceLoop taskForPid buildCapstone (.ok ()) write pid output iterations) where
  called n := by
    have hlength : n < (visited iterate { tracer := start } iterations).length ↔
        n < iterations.length ∧ ∀ m < n, ¬StopsAt start iterations m :=
      lt_length_visited_iff (visited_stops_iff hascii) n
    constructor
    · rintro ⟨p, hp, hrun⟩
      have hlt := (List.getElem?_eq_some_iff.mp hp).1
      exact ⟨⟨p.2, input_of_visited iterate hp, hrun⟩, (hlength.mp hlt).2⟩
    · rintro ⟨⟨i, hi, hrun⟩, hnone⟩
      have hlt := hlength.mpr ⟨(List.getElem?_eq_some_iff.mp hi).1, hnone⟩
      have hp := List.getElem?_eq_getElem hlt
      have hinput := input_of_visited iterate hp
      rw [hi, Option.some.injEq] at hinput
      exact ⟨_, hp, hinput ▸ hrun⟩
  call_eq n p hp := ⟨input_of_visited iterate hp, (visited_counts hascii hp).tracer_eq⟩
  ends := by
    have hstops : (∃ s e, loop iterate { tracer := start } iterations = .stop s e) ↔
        ∃ n < iterations.length, StopsAt start iterations n :=
      loop_stops_iff (visited_stops_iff hascii)
    rw [Option.isSome_iff_exists]
    constructor
    · rintro ⟨ending, hending⟩
      obtain ⟨s, e, hloop, _⟩ := (traceLoop_eq_some_iff hnew hascii ending).mp hending
      obtain ⟨n, _, hn⟩ := hstops.mp ⟨s, e, hloop⟩
      exact ⟨n, hn⟩
    · rintro ⟨n, hn⟩
      obtain ⟨s, e, hloop⟩ := hstops.mpr ⟨n, lt_of_stopsAt hn, hn⟩
      exact ⟨_, (traceLoop_eq_some_iff hnew hascii _).mpr ⟨s, e, hloop, rfl⟩⟩
  saved ending hending := by
    obtain ⟨s, e, hloop, rfl⟩ := (traceLoop_eq_some_iff hnew hascii ending).mp hending
    obtain ⟨task, rfl⟩ := new_eq_ok hnew
    refine ⟨s.tracer.db, writes_finished _ iterations s, ?_, ?_⟩
    · have hpath := loop_path (fresh task pid { entries := ∅, path := output }) iterations
      rwa [hloop, Flow.state_stop] at hpath
    · rw [← loop_getAll (fresh_gapFree task pid output) iterations fresh_getAll, hloop,
        Flow.state_stop]
  no_underflow p hp _ entry hresult := by
    obtain ⟨n, hn⟩ := List.mem_iff_getElem?.mp hp
    have hcounts := visited_counts hascii hn
    rw [storedEntry_step (of_result_ok hresult).1]
    exact hcounts.lastPrintStep_le

theorem killedInCall_ascii : ∀ i ∈ killedInCall, CapstoneAscii i.env := by
  intro i hi code addr insns hdisasm insn hmem
  rw [List.mem_singleton.mp hi] at hdisasm
  cases hdisasm
  rw [List.mem_singleton.mp hmem]
  decide

theorem traceLoop_stopsExactly_killedInCall :
    StopsExactly sampleStart "out.tdb" killedInCall traceKilled :=
  traceLoop_stopsExactly new_sampleStart killedInCall_ascii

end Ended

end Tdb.TraceLoop
