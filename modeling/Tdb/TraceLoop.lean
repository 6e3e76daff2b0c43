import Tdb.Storage.Bincode
import Tdb.Tracer.Step

namespace Tdb.Tracer

open Tdb.Library Tdb.Storage

-- The calls of a tracing command: those that control a process, and the write of its file.
inductive SystemCall where
  | fork
  | attach (pid : Int32)
  | wait (pid : Int32)
  | step (pid : Int32) (sig : Option Signal)
  | detach (pid : Int32)
  | write (file : FileWrite)
deriving DecidableEq, Repr

def ControlCall.on (pid : Int32) : ControlCall → SystemCall
  | .ptraceStep sig _ => .step pid sig
  | .waitpid _ => .wait pid

def SystemCall.written : SystemCall → Option FileWrite
  | write file => some file
  | _ => none

-- The writes among some calls.
def writes (calls : List SystemCall) : List FileWrite :=
  calls.filterMap SystemCall.written

-- Whether it worked is not looked at.
def detach (t : Tracer) : Calling SystemCall Unit :=
  Calling.call (.detach t.pid) ()

end Tdb.Tracer

namespace Tdb.TraceLoop

open Tdb.Library Tdb.Storage Tdb.Tracer

structure ProgressLine where
  marker : String
  step : Nat
  pc : UInt64
  insn : String
deriving DecidableEq, Repr

structure LoopState where
  tracer : Tracer
  errorCount : Nat := 0
  callCount : Nat := 0
  returnCount : Nat := 0
  memChangeCount : Nat := 0
  lastPrintStep : Nat := 0
  progress : List ProgressLine := []

-- What an iteration meets: the flag that Ctrl+C clears, and the answers to its step.
structure Iteration (arch : Arch) where
  running : Bool
  env : Env arch

inductive LoopExit where
  | stopping
  | processExited (code : Int32)
  | tooManyErrors (message : String)
  | panicked (panic : Panic)
deriving DecidableEq, Repr

-- `&insn_text[..47]` panics when a character straddles byte 47.
def shortInsn (insnText : String) : Except Panic String :=
  if insnText.utf8ByteSize > 50 then
    match Text.slicePrefix insnText.toList 47 with
    | some kept => .ok (String.ofList kept ++ "...")
    | none => .error { message := Text.midCharacter insnText 47 }
  else
    .ok insnText

def isInteresting (entry : TraceEntry) : Bool :=
  Text.contains entry.insnText "CALL" || Text.contains entry.insnText "RETURN" ||
    !entry.memChanges.isEmpty

def marker (entry : TraceEntry) : String :=
  if Text.contains entry.insnText "CALL" then ">"
  else if Text.contains entry.insnText "RETURN" then "<"
  else if !entry.memChanges.isEmpty then "*"
  else " "

def countEntry (s : LoopState) (entry : TraceEntry) : LoopState :=
  { s with
    errorCount := 0
    callCount :=
      if Text.contains entry.insnText "CALL" then s.callCount + 1 else s.callCount
    returnCount :=
      if Text.contains entry.insnText "RETURN" then s.returnCount + 1 else s.returnCount
    memChangeCount := s.memChangeCount + entry.memChanges.length }

-- The progress line: every 1000 steps, or on interesting events.
def printProgress (s : LoopState) (entry : TraceEntry) : Flow LoopState LoopExit :=
  if entry.step % 1000 = 0 ∨ (entry.step - s.lastPrintStep > 100 ∧ isInteresting entry) then
    match shortInsn entry.insnText with
    | .error panic => .stop s (.panicked panic)
    | .ok insn =>
        .next { s with
          progress := s.progress ++ [{ marker := marker entry, step := entry.step, pc := entry.pc, insn }]
          lastPrintStep := entry.step }
  else
    .next s

def iterate {arch : Arch} (s : LoopState) (i : Iteration arch) : Flow LoopState LoopExit :=
  if !i.running then
    .stop s .stopping
  else
    let outcome := s.tracer.singleStep i.env
    let s := { s with tracer := outcome.tracer }
    match outcome.result with
    | .ok entry => printProgress (countEntry s entry) entry
    | .processExited code => .stop s (.processExited code)
    | .error e =>
        let s := { s with errorCount := s.errorCount + 1 }
        if s.errorCount > 10 then .stop s (.tooManyErrors e) else .next s

structure Summary where
  totalSteps : Nat
  functionCalls : Nat
  returns : Nat
  memoryChanges : Nat
deriving DecidableEq, Repr

def summary (s : LoopState) : Summary where
  totalSteps := s.tracer.stepCount
  functionCalls := s.callCount
  returns := s.returnCount
  memoryChanges := s.memChangeCount

-- The calls that the iterations make.
def iterationCalls {arch : Arch} (s : LoopState) (i : Iteration arch) : List SystemCall :=
  if i.running then (s.tracer.singleStep i.env).calls.map (ControlCall.on s.tracer.pid) else []

def loopCalls {arch : Arch} (start : Tracer) (iterations : List (Iteration arch)) :
    List SystemCall :=
  (visited iterate { tracer := start } iterations).flatMap fun p => iterationCalls p.1 p.2

-- A loop that has come to its end: with its summary or a panic, and with the calls it made.
abbrev Ending := Calling SystemCall (Except Panic Summary)

-- Saving comes before the detach and the summary.
def finish (write : String → List UInt8 → Except String Unit) (s : LoopState) : Ending := do
  match ← (s.tracer.db.save write).within .write with
  | .error e => return .error { message := s!"Failed to save trace: {repr e}" }
  | .ok () =>
      s.tracer.detach
      return .ok (summary s)

-- `none` when the iterations given do not end the loop.
def traceLoop {arch : Arch} (taskForPid : Int32 → Int32 × MachPort)
    (buildCapstone setHandler : Except String Unit)
    (write : String → List UInt8 → Except String Unit) (pid : Int32) (output : String)
    (iterations : List (Iteration arch)) : Option Ending :=
  match Tracer.new taskForPid buildCapstone pid output with
  | .error e => some (return .error { message := s!"Failed to create tracer: {repr e}" })
  | .ok tracer =>
      match setHandler with
      | .error e => some (return .error { message := s!"Failed to set Ctrl+C handler: {e}" })
      | .ok () =>
          match loop iterate { tracer } iterations with
          | .next _ => none
          | .stop _ (.panicked panic) => some do
              tell (loopCalls tracer iterations)
              return .error panic
          | .stop s _ => some do
              tell (loopCalls tracer iterations)
              finish write s

end Tdb.TraceLoop
