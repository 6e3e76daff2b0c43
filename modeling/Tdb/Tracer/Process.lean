import Tdb.Tracer.Executed

namespace Tdb.Tracer

open Std Tdb.Library Tdb.Storage

-- What becomes of a process with an instruction: it goes on, where a signal may have come up for
-- it, or it is gone.
inductive Fate where
  | goesOn (raised : Option Signal)
  | exited (code : Int32)
  | killed (sig : Signal) (coreDump : Bool)
deriving DecidableEq, Repr

namespace Fate

def raised : Fate → Option Signal
  | goesOn raised => raised
  | exited _ | killed _ _ => none

-- What `waitpid` has of a process that was made to run one instruction. It stops behind it, with
-- SIGTRAP if nothing has come up.
def reported (pid : Int32) : Fate → WaitStatus
  | goesOn raised => .stopped pid (raised.getD .SIGTRAP)
  | exited code => .exited pid code
  | killed sig coreDump => .signaled pid sig coreDump

-- A SIGTRAP of the process cannot be told from the stop behind a step, and is not kept.
theorem heldSignal_reported_iff (pid : Int32) (fate : Fate) :
    heldSignal (.ok (fate.reported pid)) = fate.raised ↔ fate.raised ≠ some .SIGTRAP := by
  cases fate with
  | goesOn raised =>
      cases raised with
      | none => simp [reported, Fate.raised, heldSignal]
      | some sig =>
          by_cases htrap : sig = .SIGTRAP <;> simp [reported, Fate.raised, heldSignal, htrap]
  | exited code => simp [reported, raised, heldSignal]
  | killed sig coreDump => simp [reported, raised, heldSignal]

end Fate

-- A process between two instructions: what it shows to who reads it, and what its next instruction
-- makes of it, with or without a signal delivered first.
structure Process (arch : Arch) (σ : Type) where
  registers : σ → ThreadState arch
  memory : σ → UInt64 → UInt8
  execute : σ → Option Signal → σ × Fate

-- The tracer and the process it has attached to.
structure Debugged (σ : Type) where
  tracer : Tracer
  state : σ

variable {arch : Arch} {σ : Type}

namespace Process

variable (process : Process arch σ)

def bytes (s : σ) (addr : UInt64) (size : Nat) : List UInt8 :=
  (List.range size).map fun i => process.memory s (addr + UInt64.ofNat i)

-- With nobody attached, a signal is delivered before the instruction after the one it came with.
def advance (p : σ × Option Signal) : σ × Option Signal :=
  let (s, fate) := process.execute p.1 p.2
  (s, fate.raised)

def free (s : σ) (n : Nat) : σ × Option Signal :=
  process.advance^[n] (s, none)

-- The instruction that the process is about to run, as the disassembler has it.
def shows (capstone : List UInt8 → UInt64 → Except String (List Insn)) (s : σ) :
    Option (Observation arch) :=
  let state := process.registers s
  match capstone (process.bytes s state.pc 16) state.pc with
  | .ok (insn :: _) => some { state, insn }
  | _ => none

def obey (s : σ) : ControlCall → σ
  | .ptraceStep sig (.ok _) => (process.execute s sig).1
  | _ => s

-- A call of `singleStep`: the process moves only where it is told to.
def attend (p : Debugged σ) (env : Env arch) : Debugged σ where
  tracer := next p.tracer env
  state := (singleStep env p.tracer).calls.foldl process.obey p.state

end Process

-- The system answers for the process as it stands. Any read may fail, and none of them lies.
structure Answers (process : Process arch σ)
    (capstone : List UInt8 → UInt64 → Except String (List Insn)) (p : Debugged σ) (env : Env arch) :
    Prop where
  registers : ∀ state, readState env p.tracer.task = .ok state → state = process.registers p.state
  memory : ∀ addr size data, p.tracer.task.readMemory env.toKernel addr size = .ok data →
    data = process.bytes p.state addr size
  disasmAll : env.disasmAll = capstone
  ptraceStep : StepSucceeds env p.tracer
  waitpid : env.ptraceStep p.tracer.pid p.tracer.pendingSignal = .ok () →
    env.waitpid p.tracer.pid =
      .ok ((process.execute p.state p.tracer.pendingSignal).2.reported p.tracer.pid)

section Attend

variable {process : Process arch σ} {capstone : List UInt8 → UInt64 → Except String (List Insn)}
  {p : Debugged σ} {env : Env arch}

theorem Process.shows_state {s : σ} {seen : Observation arch}
    (h : process.shows capstone s = some seen) : seen.state = process.registers s := by
  unfold Process.shows at h
  dsimp only at h
  split at h
  · cases h
    rfl
  · cases h

theorem Answers.shows (h : Answers process capstone p env) {seen : Observation arch}
    (hseen : observe env p.tracer.task = .ok seen) : process.shows capstone p.state = some seen := by
  unfold observe at hseen
  split at hseen
  · cases hseen
  · rename_i state hstate
    have hregisters := h.registers state hstate
    split at hseen
    · cases hseen
    · rename_i insn hinsn
      cases hseen
      unfold readInsn at hinsn
      split at hinsn
      · cases hinsn
      · rename_i code hcode
        have hbytes := h.memory _ _ _ hcode
        rw [h.disasmAll] at hinsn
        unfold Process.shows
        rw [← hregisters]
        dsimp only
        rw [← hbytes]
        split at hinsn
        · cases hinsn
        · rename_i first rest hdisasm
          cases hinsn
          rw [hdisasm]
        · cases hinsn

-- Where a call sees nothing it leaves the process alone.
theorem attend_of_error {e : String} (h : observe env p.tracer.task = .error e) :
    process.attend p env = ⟨touched env p.tracer, p.state⟩ := by
  unfold Process.attend next
  rw [singleStep_of_error h]
  rfl

theorem attend_of_ok (h : Answers process capstone p env) {seen : Observation arch}
    (hseen : observe env p.tracer.task = .ok seen) :
    process.attend p env =
      ⟨{ recorded env p.tracer seen with
          pendingSignal := heldSignal
            (.ok ((process.execute p.state p.tracer.pendingSignal).2.reported p.tracer.pid)) },
        (process.execute p.state p.tracer.pendingSignal).1⟩ := by
  have hstep : env.ptraceStep (recorded env p.tracer seen).pid
      (recorded env p.tracer seen).pendingSignal = .ok () := h.ptraceStep seen hseen
  have hwait : env.waitpid (recorded env p.tracer seen).pid =
      .ok ((process.execute p.state p.tracer.pendingSignal).2.reported p.tracer.pid) :=
    h.waitpid hstep
  unfold Process.attend next
  rw [singleStep_of_ok hseen, execute_tracer_of_ok env _ _ hstep, execute_calls_of_ok env _ _ hstep,
    hwait]
  rfl

-- The tracer has followed the process from `s` on: the process is where it would be on its own,
-- with the same signal to come, and each entry holds what it showed at that place of its run.
structure Mirrors (process : Process arch σ)
    (capstone : List UInt8 → UInt64 → Except String (List Insn)) (s : σ) (p : Debugged σ) :
    Prop where
  gapFree : p.tracer.GapFree
  place : (p.state, p.tracer.pendingSignal) = process.free s p.tracer.stepCount
  entries : ∀ (k : Nat) e, p.tracer.db.getAll[k]? = some e →
    ∃ seen, process.shows capstone (process.free s k).1 = some seen ∧ Records e seen

theorem GapFree.length_getAll {t : Tracer} (h : t.GapFree) : t.db.getAll.length = t.stepCount := by
  have hlength := congrArg List.length h.getAll_steps
  rwa [List.length_map, List.length_range] at hlength

-- An entry of the store after a call was there before it or is the one that the call stores.
theorem entry_next {t : Tracer} (h : t.GapFree) {k : Nat} {e : TraceEntry}
    (he : (next t env).db.getAll[k]? = some e) :
    t.db.getAll[k]? = some e ∨ k = t.stepCount ∧ storedEntry env t = some e := by
  rw [h.getAll_next env] at he
  by_cases hk : k < t.db.getAll.length
  · rw [List.getElem?_append_left hk] at he
    exact Or.inl he
  · rw [List.getElem?_append_right (by omega)] at he
    cases hs : storedEntry env t with
    | none =>
        rw [hs] at he
        cases he
    | some e' =>
        rw [hs, Option.toList_some, List.getElem?_singleton] at he
        split at he
        · cases he
          exact Or.inr ⟨by rw [← h.length_getAll]; omega, rfl⟩
        · cases he

theorem Process.free_succ (s : σ) (n : Nat) :
    process.free s (n + 1) = process.advance (process.free s n) :=
  Function.iterate_succ_apply' process.advance n (s, none)

-- The first `n` instructions that the process runs on its own bring no SIGTRAP up.
def TrapFree (process : Process arch σ) (s : σ) (n : Nat) : Prop :=
  ∀ k < n, (process.free s (k + 1)).2 ≠ some .SIGTRAP

theorem TrapFree.mono {s : σ} {m n : Nat} (h : TrapFree process s n) (hmn : m ≤ n) :
    TrapFree process s m :=
  fun k hk => h k (hk.trans_le hmn)

theorem Mirrors.attend {s : σ} (h : Mirrors process capstone s p)
    (hanswers : Answers process capstone p env)
    (htraps : TrapFree process s (process.attend p env).tracer.stepCount) :
    Mirrors process capstone s (process.attend p env) := by
  have hgap : (process.attend p env).tracer.GapFree := h.gapFree.next env
  refine ⟨hgap, ?_, ?_⟩
  · cases hseen : observe env p.tracer.task with
    | error e =>
        rw [attend_of_error hseen]
        have hplace := h.place
        unfold touched
        split <;> simpa using hplace
    | ok seen =>
        rw [attend_of_ok hanswers hseen] at htraps ⊢
        dsimp only [recorded] at htraps ⊢
        have htrap := htraps p.tracer.stepCount (Nat.lt_succ_self _)
        rw [Process.free_succ, ← h.place] at htrap ⊢
        rw [(Fate.heldSignal_reported_iff p.tracer.pid _).mpr htrap]
        rfl
  · intro k e hk
    rcases entry_next h.gapFree hk with hk | ⟨rfl, hstored⟩
    · exact h.entries k e hk
    · obtain ⟨seen, hseen, rfl⟩ := (storedEntry_eq_some_iff e).mp hstored
      rw [← h.place]
      exact ⟨seen, hanswers.shows hseen, entryOf_records env p.tracer seen⟩

end Attend

section Answering

variable (process : Process arch σ) (capstone : List UInt8 → UInt64 → Except String (List Insn))

-- A system in which nothing fails.
def Process.answering (p : σ × Option Signal) : Env arch where
  taskThreads _ := (KERN_SUCCESS, [1])
  threadGetState _ := (KERN_SUCCESS, process.registers p.1)
  machVmReadOverwrite _ addr size := (KERN_SUCCESS, process.bytes p.1 addr size)
  disasmAll := capstone
  ptraceStep _ _ := .ok ()
  waitpid pid := .ok ((process.execute p.1 p.2).2.reported pid)

theorem answering_readState (p : σ × Option Signal) (task : MachTask) :
    readState (process.answering capstone p) task = .ok (process.registers p.1) := rfl

theorem answering_readMemory (p : σ × Option Signal) (task : MachTask) (addr : UInt64) (size : Nat) :
    task.readMemory (process.answering capstone p).toKernel addr size =
      .ok (process.bytes p.1 addr size) := by
  unfold MachTask.readMemory Process.answering
  dsimp only
  rw [if_neg (by simp), List.take_of_length_le (by simp [Process.bytes])]

theorem answering_answers (t : Tracer) (s : σ) :
    Answers process capstone ⟨t, s⟩ (process.answering capstone (s, t.pendingSignal)) where
  registers state h := by
    rw [answering_readState] at h
    exact (Except.ok.inj h).symm
  memory addr size data h := by
    rw [answering_readMemory] at h
    exact (Except.ok.inj h).symm
  disasmAll := rfl
  ptraceStep seen h := rfl
  waitpid h := rfl

theorem answering_observe (p : σ × Option Signal) (task : MachTask) {seen : Observation arch}
    (h : process.shows capstone p.1 = some seen) :
    observe (process.answering capstone p) task = .ok seen := by
  have hcode := answering_readMemory process capstone p task (process.registers p.1).pc 16
  unfold Process.shows at h
  unfold observe readInsn
  rw [answering_readState]
  dsimp only
  rw [hcode]
  dsimp only
  have hcapstone : (process.answering capstone p).disasmAll = capstone := rfl
  rw [hcapstone]
  dsimp only at h
  split at h
  · rename_i insn rest hdisasm
    cases h
    rw [hdisasm]
  · cases h

-- One call for each of the first `n` instructions, of which none fails.
def Process.calls (s : σ) (n : Nat) : List (Env arch) :=
  (List.range n).map fun k => process.answering capstone (process.free s k)

def Process.traced (start : Tracer) (s : σ) (n : Nat) : Tracer :=
  run next start (process.calls capstone s n)

theorem Process.traced_succ (start : Tracer) (s : σ) (n : Nat) :
    process.traced capstone start s (n + 1) =
      next (process.traced capstone start s n) (process.answering capstone (process.free s n)) := by
  unfold Process.traced Process.calls
  rw [List.range_succ, List.map_append, run_append]
  rfl

end Answering

section Same

variable {process : Process arch σ} {capstone : List UInt8 → UInt64 → Except String (List Insn)}

-- The window around the stack pointer is read where the call looks at it.
def WindowRead (env : Env arch) (t : Tracer) : Prop :=
  ∀ seen, observe env t.task = .ok seen →
    seen.state.sp ≠ (t.initLastSp seen.state.sp).lastSp ∨ isStoreMnemonic seen.insn.mnemonicText →
      ∃ data, t.task.readMemory env.toKernel (saturatingSub seen.state.sp 128) 256 = .ok data

theorem detectMemChanges_congr {env env' : Env arch} {t : Tracer} {sp : UInt64} {mnemonic : String}
    (h : sp ≠ t.lastSp ∨ isStoreMnemonic mnemonic →
      t.task.readMemory env.toKernel (saturatingSub sp 128) 256 =
        t.task.readMemory env'.toKernel (saturatingSub sp 128) 256) :
    t.detectMemChanges env sp mnemonic = t.detectMemChanges env' sp mnemonic := by
  unfold detectMemChanges
  split
  · rename_i hlooks
    dsimp only
    rw [h hlooks]
  · rfl

theorem recorded_initLastSp (env : Env arch) (t : Tracer) (seen : Observation arch) :
    recorded env (t.initLastSp seen.state.sp) seen = recorded env t seen := by
  unfold recorded entryOf
  simp only [initLastSp_idem, initLastSp_db, initLastSp_stepCount, initLastSp_callDepth]
  by_cases hzero : t.lastSp = 0 <;> simp [initLastSp, hzero]

theorem recorded_congr {env env' : Env arch} {t : Tracer} {seen : Observation arch}
    (h : (t.initLastSp seen.state.sp).detectMemChanges env seen.state.sp seen.insn.mnemonicText =
      (t.initLastSp seen.state.sp).detectMemChanges env' seen.state.sp seen.insn.mnemonicText) :
    recorded env t seen = recorded env' t seen := by
  unfold recorded entryOf makeEntry
  rw [h]

-- Two tracers at the same place of the trace: one may have looked at the stack pointer already.
def SamePlace (sp : UInt64) (t t' : Tracer) : Prop :=
  t = t' ∨ t = t'.initLastSp sp

theorem SamePlace.touched {env : Env arch} {t t' : Tracer} {sp : UInt64} (h : SamePlace sp t t')
    (hsp : ∀ state, readState env t.task = .ok state → state.sp = sp) :
    SamePlace sp (Tracer.touched env t) t' := by
  unfold Tracer.touched
  split
  · exact h
  · rename_i state hstate
    rw [hsp state hstate]
    rcases h with rfl | rfl
    · exact Or.inr rfl
    · exact Or.inr (initLastSp_idem t' sp)

theorem SamePlace.recorded {env env' : Env arch} {t t' : Tracer} {seen : Observation arch}
    (h : SamePlace seen.state.sp t t')
    (hchanges : (t.initLastSp seen.state.sp).detectMemChanges env seen.state.sp
        seen.insn.mnemonicText =
      (t.initLastSp seen.state.sp).detectMemChanges env' seen.state.sp seen.insn.mnemonicText) :
    Tracer.recorded env t seen = Tracer.recorded env' t' seen := by
  rw [recorded_congr hchanges]
  rcases h with rfl | rfl
  · rfl
  · exact recorded_initLastSp env' t' seen

theorem SamePlace.pendingSignal_eq {t t' : Tracer} {sp : UInt64} (h : SamePlace sp t t') :
    t.pendingSignal = t'.pendingSignal := by
  rcases h with rfl | rfl
  · rfl
  · exact initLastSp_pendingSignal t' sp

theorem SamePlace.pid_eq {t t' : Tracer} {sp : UInt64} (h : SamePlace sp t t') : t.pid = t'.pid := by
  rcases h with rfl | rfl
  · rfl
  · exact initLastSp_pid t' sp

-- One more call keeps the tracer where it would be if no call had failed.
theorem Mirrors.attend_samePlace {start : Tracer} {s : σ} {p : Debugged σ} {env : Env arch}
    (h : Mirrors process capstone s p) (hanswers : Answers process capstone p env)
    (hwindow : WindowRead env p.tracer)
    (hsame : SamePlace (process.registers p.state).sp p.tracer
      (process.traced capstone start s p.tracer.stepCount)) :
    SamePlace (process.registers (process.attend p env).state).sp (process.attend p env).tracer
      (process.traced capstone start s (process.attend p env).tracer.stepCount) := by
  have hcount : (process.attend p env).tracer.stepCount =
      p.tracer.stepCount + (storedEntry env p.tracer).toList.length := next_stepCount p.tracer env
  unfold storedEntry at hcount
  cases hseen : observe env p.tracer.task with
  | error e =>
      rw [hseen] at hcount
      rw [hcount, attend_of_error hseen]
      exact hsame.touched fun state hstate => by rw [hanswers.registers state hstate]
  | ok seen =>
      rw [hseen] at hcount
      have hshows := hanswers.shows hseen
      have hstate := Process.shows_state hshows
      have hcall := answering_answers process capstone
        (process.traced capstone start s p.tracer.stepCount) p.state
      rw [← hsame.pendingSignal_eq] at hcall
      have hideal := attend_of_ok hcall (answering_observe process capstone _ _ hshows)
      have hnext := congrArg Debugged.tracer hideal
      rw [hcount]
      dsimp only [Option.toList_some, List.length_singleton]
      rw [Process.traced_succ, ← h.place, attend_of_ok hanswers hseen]
      refine Or.inl ?_
      refine Eq.trans ?_ hnext.symm
      dsimp only
      have hchanges : (p.tracer.initLastSp seen.state.sp).detectMemChanges env seen.state.sp
            seen.insn.mnemonicText =
          (p.tracer.initLastSp seen.state.sp).detectMemChanges
            (process.answering capstone (p.state, p.tracer.pendingSignal)) seen.state.sp
            seen.insn.mnemonicText := by
        refine detectMemChanges_congr fun hlooks => ?_
        obtain ⟨data, hread⟩ := hwindow seen hseen hlooks
        rw [initLastSp_task, hread, answering_readMemory, hanswers.memory _ _ _ hread]
      rw [← hstate] at hsame
      rw [hsame.recorded hchanges, hsame.pendingSignal_eq, hsame.pid_eq]

end Same

end Tdb.Tracer
