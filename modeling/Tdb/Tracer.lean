import Tdb.Library.Text
import Tdb.Storage
import Tdb.Tracer.Mach

namespace Tdb.Tracer

open Std Tdb.Library Tdb.Storage

-- The signals of macOS.
inductive Signal where
  | SIGHUP | SIGINT | SIGQUIT | SIGILL | SIGTRAP | SIGABRT | SIGEMT | SIGFPE | SIGKILL | SIGBUS
  | SIGSEGV | SIGSYS | SIGPIPE | SIGALRM | SIGTERM | SIGURG | SIGSTOP | SIGTSTP | SIGCONT | SIGCHLD
  | SIGTTIN | SIGTTOU | SIGIO | SIGXCPU | SIGXFSZ | SIGVTALRM | SIGPROF | SIGWINCH | SIGINFO
  | SIGUSR1 | SIGUSR2
deriving DecidableEq, Repr

inductive WaitStatus where
  | exited (pid : Int32) (code : Int32)
  | signaled (pid : Int32) (sig : Signal) (coreDump : Bool)
  | stopped (pid : Int32) (sig : Signal)
  | continued (pid : Int32)
  | stillAlive
deriving DecidableEq, Repr

-- Capstone leaves the mnemonic and the operands out when it has no text for them.
structure Insn where
  bytes : List UInt8
  mnemonic : Option String
  opStr : Option String
deriving DecidableEq, Repr

-- What the system answers during one call of `singleStep`.
structure Env (arch : Arch) extends Kernel arch where
  disasmAll : List UInt8 → UInt64 → Except String (List Insn)
  ptraceStep : Int32 → Option Signal → Except String Unit
  waitpid : Int32 → Except String WaitStatus

inductive StepResult where
  | ok (entry : TraceEntry)
  | processExited (code : Int32)
  | error (message : String)
deriving DecidableEq, Repr

-- A process-control call the tracer makes, with its answer.
inductive ControlCall where
  | ptraceStep (sig : Option Signal) (answer : Except String Unit)
  | waitpid (answer : Except String WaitStatus)
deriving DecidableEq, Repr

end Tdb.Tracer

namespace Tdb

open Std Tdb.Storage Tdb.Tracer

structure Tracer where
  task : MachTask
  pid : Int32
  db : TraceDb
  stepCount : Nat
  memoryCache : ExtTreeMap UInt64 (List UInt8)
  lastSp : UInt64
  callDepth : Nat
  pendingSignal : Option Signal

end Tdb

namespace Tdb.Tracer

open Std Tdb.Library Tdb.Storage

-- How a call of `singleStep` ends: what it returns, what it leaves in the tracer and
-- the process-control calls it made.
structure Outcome where
  result : StepResult
  tracer : Tracer
  calls : List ControlCall

-- The tracer's annotation of the instructions that call and that return.
def isCall : Arch → String → Bool
  | .x86_64, mnemonic => mnemonic == "call" || mnemonic == "callq"
  | .aarch64, mnemonic =>
      mnemonic == "bl" || mnemonic == "blr" || mnemonic == "blraa" || mnemonic == "blrab"

def isReturn : Arch → String → Bool
  | .x86_64, mnemonic => mnemonic == "ret" || mnemonic == "retq"
  | .aarch64, mnemonic => mnemonic == "ret" || mnemonic == "retab" || mnemonic == "retaa"

def isStoreMnemonic (m : String) : Bool :=
  (m == "str" || m == "stp" || m == "stur" || m == "stlr" || m == "stxr" || m == "strb" ||
    m == "strh" || m == "push" || m == "pushq") || Text.startsWith m "st"

-- `u64::saturating_sub`
def saturatingSub (a b : UInt64) : UInt64 :=
  if b ≤ a then a - b else 0

-- The bytes on which two snapshots of one window differ, as far as both reach.
def diffWindow (base : UInt64) (oldData newData : List UInt8) : List MemChange :=
  (oldData.zip newData).zipIdx.filterMap fun ((oldVal, newVal), i) =>
    if newVal ≠ oldVal then some { addr := base + UInt64.ofNat i, oldVal, newVal } else none

-- The depth after the instruction, and its annotation.
def detectCall (arch : Arch) (callDepth : Nat) (mnemonic : String) : Nat × String :=
  if isCall arch mnemonic then
    let callDepth := callDepth + 1
    (callDepth, s!"CALL [depth:{callDepth}]")
  else if isReturn arch mnemonic then
    let callDepth := if callDepth > 0 then callDepth - 1 else callDepth
    (callDepth, s!"RETURN [depth:{callDepth}]")
  else
    (callDepth, "")

namespace Insn

-- Capstone's `mnemonic()` and `op_str()` with `unwrap_or("")`.
def mnemonicText (insn : Insn) : String := insn.mnemonic.getD ""

def operands (insn : Insn) : String := insn.opStr.getD ""

def text (insn : Insn) : String :=
  if insn.operands = "" then insn.mnemonicText else s!"{insn.mnemonicText} {insn.operands}"

end Insn

def fullText (insnText annotation : String) : String :=
  if annotation = "" then insnText else s!"{insnText} ; { annotation}"

variable {arch : Arch}

def fresh (task : MachTask) (pid : Int32) (db : TraceDb) : Tracer where
  task
  pid
  db
  stepCount := 0
  memoryCache := ∅
  lastSp := 0
  callDepth := 0
  pendingSignal := none

def new (taskForPid : Int32 → Int32 × MachPort) (buildCapstone : Except String Unit)
    (pid : Int32) (dbPath : String) : Except String Tracer :=
  match MachTask.attach taskForPid pid with
  | .error e => .error e
  | .ok task =>
      match TraceDb.new dbPath with
      | .error e => .error e
      | .ok db =>
          match buildCapstone with
          | .error e => .error s!"Capstone init failed: {e}"
          | .ok () => .ok (fresh task pid db)

-- Step 1: the registers of the first thread.
def readState (env : Env arch) (task : MachTask) : Except String (ThreadState arch) :=
  match task.getThreads env.toKernel with
  | .ok (thread :: _) => MachTask.getThreadState env.toKernel thread
  | .ok [] => .error "No threads found"
  | .error e => .error e

-- Step 2: the first instruction in the bytes at the program counter.
def readInsn (env : Env arch) (task : MachTask) (pc : UInt64) : Except String Insn :=
  match task.readMemory env.toKernel pc 16 with
  | .error e => .error s!"Read at PC 0x{lowerHex pc}: {e}"
  | .ok code =>
      match env.disasmAll code pc with
      | .error e => .error s!"Disasm at 0x{lowerHex pc}: {e}"
      | .ok (insn :: _) => .ok insn
      | .ok [] => .error s!"No instruction at 0x{lowerHex pc}"

-- `last_sp` starts at 0, which stands for "not read yet".
def initLastSp (t : Tracer) (sp : UInt64) : Tracer :=
  if t.lastSp = 0 then { t with lastSp := sp } else t

-- Step 4: the snapshot cache and the changes of the stack window around `sp`.
def detectMemChanges (env : Env arch) (t : Tracer) (sp : UInt64) (mnemonic : String) :
    ExtTreeMap UInt64 (List UInt8) × List MemChange :=
  if sp ≠ t.lastSp ∨ isStoreMnemonic mnemonic then
    let stackBase := saturatingSub sp 128
    match t.task.readMemory env.toKernel stackBase 256 with
    | .ok newData =>
        let memChanges := match t.memoryCache[stackBase]? with
          | some oldData => diffWindow stackBase oldData newData
          | none => []
        (t.memoryCache.insert stackBase newData, memChanges)
    | .error _ => (t.memoryCache, [])
  else
    (t.memoryCache, [])

-- Steps 3 to 5: the entry of the instruction about to run.
def makeEntry (env : Env arch) (t : Tracer) (state : ThreadState arch) (insn : Insn) :
    TraceEntry where
  step := t.stepCount
  pc := state.pc
  insnBytes := insn.bytes
  insnText := fullText insn.text (detectCall arch t.callDepth insn.mnemonicText).2
  regs := state.regs
  memChanges := (detectMemChanges env t state.sp insn.mnemonicText).2

-- Step 6 and 7: `pending_signal.take()` comes before the call that may fail.
def execute (env : Env arch) (t : Tracer) (entry : TraceEntry) : Outcome :=
  let sig := t.pendingSignal
  let t := { t with pendingSignal := none }
  match env.ptraceStep t.pid sig with
  | .error e =>
      { result := .error s!"ptrace(PT_STEP) failed: {e}"
        tracer := t
        calls := [.ptraceStep sig (.error e)] }
  | .ok () =>
      let answer := env.waitpid t.pid
      let calls := [.ptraceStep sig (.ok ()), .waitpid answer]
      match answer with
      | .ok (.stopped _ .SIGTRAP) => { result := .ok entry, tracer := t, calls }
      | .ok (.stopped _ sig) =>
          { result := .ok entry, tracer := { t with pendingSignal := some sig }, calls }
      | .ok (.exited _ code) => { result := .processExited code, tracer := t, calls }
      | .ok (.signaled _ _ _) => { result := .processExited (-1), tracer := t, calls }
      | .ok (.continued pid) =>
          { result := .error s!"Unexpected wait status: Continued(Pid({pid}))", tracer := t, calls }
      | .ok .stillAlive =>
          { result := .error "Unexpected wait status: StillAlive", tracer := t, calls }
      | .error e => { result := .error s!"waitpid: {e}", tracer := t, calls }

def singleStep (env : Env arch) (t : Tracer) : Outcome :=
  match readState env t.task with
  | .error e => { result := .error e, tracer := t, calls := [] }
  | .ok state =>
      let t := t.initLastSp state.sp
      match readInsn env t.task state.pc with
      | .error e => { result := .error e, tracer := t, calls := [] }
      | .ok insn =>
          let entry := t.makeEntry env state insn
          let (callDepth, _) := detectCall arch t.callDepth insn.mnemonicText
          let (memoryCache, _) := t.detectMemChanges env state.sp insn.mnemonicText
          let t := { t with callDepth, memoryCache }
          match t.db.insert entry with
          | .error e => { result := .error e, tracer := t, calls := [] }
          | .ok db =>
              execute env { t with db, stepCount := t.stepCount + 1, lastSp := state.sp } entry

end Tdb.Tracer
