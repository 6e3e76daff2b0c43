import Tdb.Tracer.Memory
import Tdb.Tracer.Process

namespace Tdb.Tracer

open Std Tdb.Library Tdb.Storage

variable {arch : Arch} {σ : Type}

namespace Process

variable (process : Process arch σ) (capstone : List UInt8 → UInt64 → Except String (List Insn))

def spAt (s : σ) (k : Nat) : UInt64 :=
  (process.registers (process.free s k).1).sp

-- The stack pointer is not where it was before the last instruction. A zero there says nothing.
def moved (s : σ) : Nat → Bool
  | 0 => false
  | k + 1 => process.spAt s k ≠ 0 && process.spAt s (k + 1) ≠ process.spAt s k

-- The part of the stack that is looked at before instruction `k`, if any is.
def window (s : σ) (k : Nat) : Option (UInt64 × List UInt8) :=
  match process.shows capstone (process.free s k).1 with
  | none => none
  | some seen =>
      if process.moved s k || isStoreMnemonic seen.insn.mnemonicText then
        let base := saturatingSub seen.state.sp 128
        some (base, process.bytes (process.free s k).1 base 256)
      else
        none

end Process

section Ideal

variable {process : Process arch σ} {capstone : List UInt8 → UInt64 → Except String (List Insn)}
  {start : Tracer} {s : σ}

theorem traced_observe {k : Nat} {seen : Observation arch} (t : Tracer)
    (hshows : process.shows capstone (process.free s k).1 = some seen) :
    observe (process.answering capstone (process.free s k)) t.task = .ok seen :=
  answering_observe process capstone (process.free s k) t.task hshows

-- What the tracer remembers of the stack pointer when instruction `k` comes up.
theorem moved_iff (hsp : start.lastSp = 0) {k : Nat}
    (hshown : ∀ j < k, (process.shows capstone (process.free s j).1).isSome) :
    process.spAt s k ≠ ((process.traced capstone start s k).initLastSp (process.spAt s k)).lastSp ↔
      process.moved s k = true := by
  cases k with
  | zero =>
      have hlast : (process.traced capstone start s 0).lastSp = 0 := hsp
      simp [initLastSp, hlast, Process.moved]
  | succ k =>
      obtain ⟨seen, hseen⟩ := Option.isSome_iff_exists.mp (hshown k (Nat.lt_succ_self k))
      obtain ⟨sig, hnext⟩ := next_of_ok
        (traced_observe (process.traced capstone start s k) hseen)
      have hlast : (process.traced capstone start s (k + 1)).lastSp = process.spAt s k := by
        rw [Process.traced_succ, hnext]
        dsimp only [recorded]
        rw [Process.shows_state hseen]
        rfl
      unfold Process.moved initLastSp
      rw [hlast]
      by_cases hzero : process.spAt s k = 0 <;> simp [hzero, hlast]

theorem captured_traced (hsp : start.lastSp = 0) {k : Nat}
    (hshown : ∀ j ≤ k, (process.shows capstone (process.free s j).1).isSome) :
    captured (process.answering capstone (process.free s k)) (process.traced capstone start s k) =
      process.window capstone s k := by
  obtain ⟨seen, hseen⟩ := Option.isSome_iff_exists.mp (hshown k le_rfl)
  have hstate : seen.state.sp = process.spAt s k := by
    rw [Process.shows_state hseen]
    rfl
  have hmoved := moved_iff hsp fun j hj => hshown j hj.le
  unfold captured Process.window
  rw [traced_observe _ hseen, hseen]
  dsimp only
  rw [hstate, answering_readMemory]
  simp only [hmoved, Bool.or_eq_true]

theorem take_calls (process : Process arch σ)
    (capstone : List UInt8 → UInt64 → Except String (List Insn)) (s : σ) {n k : Nat} (hk : k ≤ n) :
    (process.calls capstone s n).take k = process.calls capstone s k := by
  unfold Process.calls
  rw [← List.map_take, List.take_range, Nat.min_eq_left hk]

theorem getElem?_calls (process : Process arch σ)
    (capstone : List UInt8 → UInt64 → Except String (List Insn)) (s : σ) {n k : Nat} (hk : k < n) :
    (process.calls capstone s n)[k]? = some (process.answering capstone (process.free s k)) := by
  unfold Process.calls
  rw [List.getElem?_map, List.getElem?_range hk]
  rfl

theorem capturedAt_calls (hsp : start.lastSp = 0) {n k : Nat} (hk : k < n)
    (hshown : ∀ j < n, (process.shows capstone (process.free s j).1).isSome) :
    capturedAt start (process.calls capstone s n) k = process.window capstone s k := by
  unfold capturedAt
  rw [take_calls process capstone s hk.le, getElem?_calls process capstone s hk]
  exact captured_traced hsp fun j hj => hshown j (hj.trans_lt hk)

-- A byte of the part at `base` that was one thing before instruction `j` and is another before
-- instruction `k`.
structure Overwritten (process : Process arch σ) (s : σ) (base : UInt64) (j k : Nat) (c : MemChange) :
    Prop where
  place : ∃ i < 256, c.addr = base + UInt64.ofNat i
  oldVal_eq : c.oldVal = process.memory (process.free s j).1 c.addr
  newVal_eq : c.newVal = process.memory (process.free s k).1 c.addr
  ne : c.newVal ≠ c.oldVal

theorem mem_diffWindow_bytes (s : σ) (base : UInt64) (j k : Nat) (c : MemChange) :
    c ∈ diffWindow base (process.bytes (process.free s j).1 base 256)
        (process.bytes (process.free s k).1 base 256) ↔ Overwritten process s base j k c := by
  have hbyte : ∀ n i (byte : UInt8),
      (process.bytes (process.free s n).1 base 256)[i]? = some byte ↔
        i < 256 ∧ byte = process.memory (process.free s n).1 (base + UInt64.ofNat i) := by
    intro n i byte
    unfold Process.bytes
    rw [List.getElem?_map]
    by_cases hi : i < 256
    · rw [List.getElem?_range hi]
      simp [hi, eq_comm]
    · rw [List.getElem?_eq_none (by simpa using hi)]
      simp [hi]
  rw [mem_diffWindow_iff]
  constructor
  · rintro ⟨i, hold, hnew, hne, haddr⟩
    rw [hbyte, ← haddr] at hold hnew
    exact ⟨⟨i, hold.1, haddr⟩, hold.2, hnew.2, hne⟩
  · rintro ⟨⟨i, hi, haddr⟩, hold, hnew, hne⟩
    refine ⟨i, ?_, ?_, hne, haddr⟩
    · rw [hbyte, ← haddr]
      exact ⟨hi, hold⟩
    · rw [hbyte, ← haddr]
      exact ⟨hi, hnew⟩

-- Before instruction `k` the same part of the stack is looked at as before `j`, and as nowhere
-- between them.
structure LooksBack (process : Process arch σ)
    (capstone : List UInt8 → UInt64 → Except String (List Insn)) (s : σ) (base : UInt64)
    (j k : Nat) : Prop where
  before : j < k
  looked : (process.window capstone s j).map Prod.fst = some base
  looks : (process.window capstone s k).map Prod.fst = some base
  quiet : ∀ i, j < i → i < k → (process.window capstone s i).map Prod.fst ≠ some base

-- A look at a part of the stack finds what is there.
theorem window_eq_some_iff (s : σ) (k : Nat) (base : UInt64) (data : List UInt8) :
    process.window capstone s k = some (base, data) ↔
      (process.window capstone s k).map Prod.fst = some base ∧
        data = process.bytes (process.free s k).1 base 256 := by
  unfold Process.window
  split
  · simp
  · split
    · simp only [Option.map_some, Option.some.injEq, Prod.mk.injEq]
      constructor
      · rintro ⟨rfl, rfl⟩
        exact ⟨rfl, rfl⟩
      · rintro ⟨rfl, rfl⟩
        exact ⟨rfl, rfl⟩
    · simp

theorem mem_memChanges_traced (hgap : start.GapFree) (hgetAll : start.db.getAll = [])
    (hcache : start.memoryCache = ∅) (hsp : start.lastSp = 0) {n : Nat}
    (hshown : ∀ j < n, (process.shows capstone (process.free s j).1).isSome) {k : Nat}
    {e : TraceEntry} (he : (process.traced capstone start s n).db.getAll[k]? = some e)
    (c : MemChange) :
    c ∈ e.memChanges ↔ ∃ base j, LooksBack process capstone s base j k ∧
      Overwritten process s base j k c := by
  have hsees : ∀ env ∈ process.calls capstone s n, ∃ seen, observe env start.task = .ok seen := by
    intro env henv
    obtain ⟨j, hj, rfl⟩ := List.mem_map.mp henv
    obtain ⟨seen, hseen⟩ := Option.isSome_iff_exists.mp (hshown j (List.mem_range.mp hj))
    exact ⟨seen, traced_observe start hseen⟩
  unfold Process.traced at he
  rw [getElem?_getAll_run hgap _ hgetAll hsees] at he
  obtain ⟨env, henv, hstored⟩ := Option.bind_eq_some_iff.mp he
  have hk : k < n := by
    have hlt := (List.getElem?_eq_some_iff.mp henv).1
    unfold Process.calls at hlt
    simpa using hlt
  have hwindow : ∀ i < n, capturedAt start (process.calls capstone s n) i =
      process.window capstone s i := fun i hi => capturedAt_calls hsp hi hshown
  rw [mem_memChanges_iff hcache henv hstored]
  constructor
  · rintro ⟨base, newData, j, oldData, hlooks, hlast, hdiff⟩
    obtain ⟨hbefore, hlooked, hquiet⟩ := hlast
    rw [hwindow k hk, window_eq_some_iff] at hlooks
    rw [hwindow j (hbefore.trans hk), window_eq_some_iff] at hlooked
    rw [hlooks.2, hlooked.2] at hdiff
    refine ⟨base, j, ⟨hbefore, hlooked.1, hlooks.1, fun i hji hik hi => ?_⟩,
      (mem_diffWindow_bytes s base j k c).mp hdiff⟩
    apply hquiet i hji hik
    rw [hwindow i (hik.trans hk)]
    exact (window_eq_some_iff s i base _).mpr ⟨hi, rfl⟩
  · rintro ⟨base, j, ⟨hbefore, hlooked, hlooks, hquiet⟩, hdiff⟩
    refine ⟨base, _, j, _, ?_, ⟨hbefore, ?_, fun i hji hik other hi => ?_⟩,
      (mem_diffWindow_bytes s base j k c).mpr hdiff⟩
    · rw [hwindow k hk]
      exact (window_eq_some_iff s k base _).mpr ⟨hlooks, rfl⟩
    · rw [hwindow j (hbefore.trans hk)]
      exact (window_eq_some_iff s j base _).mpr ⟨hlooked, rfl⟩
    · rw [hwindow i (hik.trans hk)] at hi
      exact hquiet i hji hik ((window_eq_some_iff s i base other).mp hi).1

end Ideal

section Run

variable (process : Process arch σ) (capstone : List UInt8 → UInt64 → Except String (List Insn))

def debugged (start : Tracer) (s : σ) (envs : List (Env arch)) : Debugged σ :=
  run process.attend ⟨start, s⟩ envs

-- The system answers all calls of a run for one process.
def AnswersAll (start : Tracer) (s : σ) (envs : List (Env arch)) : Prop :=
  ∀ p ∈ trail process.attend ⟨start, s⟩ envs, Answers process capstone p.1 p.2

def WindowsRead (start : Tracer) (envs : List (Env arch)) : Prop :=
  ∀ p ∈ trail next start envs, WindowRead p.2 p.1

-- A process and its trace after a run of calls. The process is where it would be on its own after
-- as many instructions, with the same signal to come. Entry `k` holds what it showed before its
-- instruction `k`, and what had changed in the part of the stack looked at since the last look at
-- the same part.
structure Followed (start : Tracer) (s : σ) (envs : List (Env arch)) : Prop where
  place : ((debugged process start s envs).state, (run next start envs).pendingSignal) =
    process.free s (run next start envs).db.count
  records : ∀ (k : Nat) e, (run next start envs).db.getAll[k]? = some e →
    ∃ seen, process.shows capstone (process.free s k).1 = some seen ∧ Records e seen
  changes : WindowsRead start envs → ∀ (k : Nat) e, (run next start envs).db.getAll[k]? = some e →
    ∀ c, c ∈ e.memChanges ↔
      ∃ base j, LooksBack process capstone s base j k ∧ Overwritten process s base j k c
  unaffected : WindowsRead start envs → (run next start envs).db =
    (process.traced capstone start s (run next start envs).db.count).db

variable {process capstone}

theorem debugged_tracer (start : Tracer) (s : σ) (envs : List (Env arch)) :
    (debugged process start s envs).tracer = run next start envs :=
  (run_mirrors Debugged.tracer (fun _ _ => rfl) _ envs).symm

theorem start_mirrors {start : Tracer} (hgap : start.GapFree) (hgetAll : start.db.getAll = [])
    (hpending : start.pendingSignal = none) (hcount : start.stepCount = 0) (s : σ) :
    Mirrors process capstone s ⟨start, s⟩ := by
  refine ⟨hgap, ?_, ?_⟩
  · dsimp only
    rw [hpending, hcount]
    rfl
  · dsimp only
    rw [hgetAll]
    simp

-- As long as the process brings up no SIGTRAP, whatever is kept by each call holds at the end.
theorem debugged_invariant {Inv : Debugged σ → Prop} {start : Tracer} {s : σ}
    {envs : List (Env arch)} (hstart : Inv ⟨start, s⟩)
    (hattend : ∀ p ∈ trail process.attend ⟨start, s⟩ envs, Inv p.1 →
      TrapFree process s (process.attend p.1 p.2).tracer.stepCount → Inv (process.attend p.1 p.2))
    (htraps : TrapFree process s (run next start envs).stepCount) :
    Inv (debugged process start s envs) := by
  have hend := @loop_invariant _ _ _ (forever process.attend)
    (fun p => TrapFree process s p.tracer.stepCount → Inv p) ⟨start, s⟩ envs (fun _ => hstart)
    fun p hp h hfree => hattend p hp (h (hfree.mono (stepCount_le_next p.1.tracer p.2))) hfree
  refine hend ?_
  rwa [← debugged_tracer start s envs] at htraps

theorem debugged_mirrors {start : Tracer} {s : σ} {envs : List (Env arch)}
    (hstart : Mirrors process capstone s ⟨start, s⟩)
    (hanswers : AnswersAll process capstone start s envs)
    (htraps : TrapFree process s (run next start envs).stepCount) :
    Mirrors process capstone s (debugged process start s envs) :=
  debugged_invariant hstart (fun p hp h hfree => h.attend (hanswers p hp) hfree) htraps

theorem windowRead_of_mem {start : Tracer} {s : σ} {envs : List (Env arch)}
    (hwindows : WindowsRead start envs) {p : Debugged σ × Env arch}
    (hp : p ∈ trail process.attend ⟨start, s⟩ envs) : WindowRead p.2 p.1.tracer := by
  have htrail : trail next start envs =
      (trail process.attend ⟨start, s⟩ envs).map fun p => (p.1.tracer, p.2) :=
    trail_mirrors Debugged.tracer (fun _ _ => rfl) ⟨start, s⟩ envs
  refine hwindows (p.1.tracer, p.2) ?_
  rw [htrail]
  exact List.mem_map_of_mem hp

-- Whatever reads have failed on the way, the store is the one of a run in which none has.
theorem run_db_eq_traced {start : Tracer} (hcount : start.stepCount = 0) {s : σ}
    {envs : List (Env arch)} (hstart : Mirrors process capstone s ⟨start, s⟩)
    (hanswers : AnswersAll process capstone start s envs)
    (htraps : TrapFree process s (run next start envs).stepCount)
    (hwindows : WindowsRead start envs) :
    (run next start envs).db =
      (process.traced capstone start s (run next start envs).stepCount).db := by
  let Inv : Debugged σ → Prop := fun p => Mirrors process capstone s p ∧
    SamePlace (process.registers p.state).sp p.tracer
      (process.traced capstone start s p.tracer.stepCount)
  have hinit : Inv ⟨start, s⟩ := by
    refine ⟨hstart, Or.inl ?_⟩
    dsimp only
    rw [hcount]
    rfl
  have hend : Inv (debugged process start s envs) :=
    debugged_invariant hinit (fun p hp h hfree => ⟨h.1.attend (hanswers p hp) hfree,
      h.1.attend_samePlace (hanswers p hp) (windowRead_of_mem hwindows hp) h.2⟩) htraps
  have hsame := hend.2
  rw [debugged_tracer] at hsame
  rcases hsame with hsame | hsame
  · exact congrArg Tracer.db hsame
  · rw [congrArg Tracer.db hsame, initLastSp_db]

-- A traced process that brings up no SIGTRAP does what it does on its own, and its trace is the
-- record of that, however many calls have failed to read it.
theorem new_run_followed {taskForPid : Int32 → Int32 × MachPort}
    {buildCapstone : Except String Unit} {pid : Int32} {dbPath : String} {start : Tracer}
    (hnew : new taskForPid buildCapstone pid dbPath = .ok start) {s : σ} {envs : List (Env arch)}
    (hanswers : AnswersAll process capstone start s envs)
    (htraps : TrapFree process s (run next start envs).db.count) :
    Followed process capstone start s envs := by
  obtain ⟨task, rfl⟩ := new_eq_ok hnew
  have hgap := fresh_gapFree task pid dbPath
  have hstart : Mirrors process capstone s ⟨fresh task pid { entries := ∅, path := dbPath }, s⟩ :=
    start_mirrors hgap fresh_getAll rfl rfl s
  have hcount := (run_gapFree hgap envs).count_eq
  rw [hcount] at htraps
  have hmirrors := debugged_mirrors hstart hanswers htraps
  have hplace := hmirrors.place
  have hrecords := hmirrors.entries
  rw [debugged_tracer] at hplace hrecords
  have hsame := run_db_eq_traced rfl hstart hanswers htraps
  refine ⟨by rw [hcount]; exact hplace, hrecords, fun hwindows k e he c => ?_, by rwa [hcount]⟩
  have hshown : ∀ j < (run next (fresh task pid { entries := ∅, path := dbPath }) envs).stepCount,
      (process.shows capstone (process.free s j).1).isSome := by
    intro j hj
    rw [← hcount, ← TraceDb.length_getAll] at hj
    obtain ⟨seen, hseen, _⟩ := hrecords j _ (List.getElem?_eq_getElem hj)
    rw [hseen]
    rfl
  rw [hsame hwindows] at he
  exact mem_memChanges_traced hgap fresh_getAll rfl rfl hshown he c

end Run

section Interrupted

-- A process that stores a byte at its stack pointer, time and again, and is interrupted once.
def interrupted : Process .aarch64 Nat where
  registers k := { sp := 0x1000, pc := 0x4000 + 4 * UInt64.ofNat k }
  memory := storedByte
  execute k _ := (k + 1, .goesOn (if k = 0 then some .SIGINT else none))

def disasmStore (_ : List UInt8) (_ : UInt64) : Except String (List Insn) :=
  .ok [{ bytes := [0xe0, 0x03, 0, 0xf9], mnemonic := some "str", opStr := some "x0, [sp]" }]

-- Before the second instruction the threads cannot be listed once.
def interruptedEnvs : List (Env .aarch64) :=
  [interrupted.answering disasmStore (0, none),
    { interrupted.answering disasmStore (1, none) with taskThreads := fun _ => (5, []) },
    interrupted.answering disasmStore (1, none)]

theorem answersAll_interruptedEnvs :
    AnswersAll interrupted disasmStore sampleStart 0 interruptedEnvs := by
  have hfirst : ∀ t k, Answers interrupted disasmStore ⟨t, k⟩
      (interrupted.answering disasmStore (k, none)) := fun t k =>
    answering_answers interrupted disasmStore t k
  intro p hp
  rcases hp with _ | ⟨_, _ | ⟨_, _ | ⟨_, hp⟩⟩⟩
  · exact hfirst _ 0
  · refine ⟨fun state h => ?_, (hfirst _ 1).memory, rfl, fun seen h => rfl, fun h => rfl⟩
    cases h
  · exact hfirst _ 1
  · cases hp

end Interrupted

end Tdb.Tracer
