import Std.Data.ExtTreeMap

namespace Tdb.Tracer

open Std

-- The target_arch the tracer is compiled for.
inductive Arch where
  | x86_64
  | aarch64
deriving DecidableEq, Repr

structure X86ThreadState64 where
  rax : UInt64 := 0
  rbx : UInt64 := 0
  rcx : UInt64 := 0
  rdx : UInt64 := 0
  rdi : UInt64 := 0
  rsi : UInt64 := 0
  rbp : UInt64 := 0
  rsp : UInt64 := 0
  r8 : UInt64 := 0
  r9 : UInt64 := 0
  r10 : UInt64 := 0
  r11 : UInt64 := 0
  r12 : UInt64 := 0
  r13 : UInt64 := 0
  r14 : UInt64 := 0
  r15 : UInt64 := 0
  rip : UInt64 := 0
  rflags : UInt64 := 0

structure ArmThreadState64 where
  x : Vector UInt64 29 := Vector.replicate 29 0
  fp : UInt64 := 0
  lr : UInt64 := 0
  sp : UInt64 := 0
  pc : UInt64 := 0
  cpsr : UInt32 := 0

def ThreadState : Arch → Type
  | .x86_64 => X86ThreadState64
  | .aarch64 => ArmThreadState64

-- `serde_json::json!` keeps an object in a BTreeMap, so its keys come out sorted.
def jsonObject (fields : List (String × Nat)) : String :=
  let sorted := (ExtTreeMap.ofList fields compare).toList
  "\x7b" ++ ",".intercalate (sorted.map fun (key, value) => s!"\"{key}\":{value}") ++ "\x7d"

namespace X86ThreadState64

def regs (state : X86ThreadState64) : String :=
  jsonObject [
    ("rax", state.rax.toNat), ("rbx", state.rbx.toNat), ("rcx", state.rcx.toNat),
    ("rdx", state.rdx.toNat), ("rdi", state.rdi.toNat), ("rsi", state.rsi.toNat),
    ("rbp", state.rbp.toNat), ("rsp", state.rsp.toNat), ("r8", state.r8.toNat),
    ("r9", state.r9.toNat), ("r10", state.r10.toNat), ("r11", state.r11.toNat),
    ("r12", state.r12.toNat), ("r13", state.r13.toNat), ("r14", state.r14.toNat),
    ("r15", state.r15.toNat), ("rip", state.rip.toNat), ("rflags", state.rflags.toNat)]

end X86ThreadState64

namespace ArmThreadState64

def regs (state : ArmThreadState64) : String :=
  jsonObject
    (((state.x.toList.zipIdx).map fun (value, i) => (s!"x{i}", value.toNat)) ++
      [("fp", state.fp.toNat), ("lr", state.lr.toNat), ("sp", state.sp.toNat),
        ("pc", state.pc.toNat), ("cpsr", state.cpsr.toNat)])

end ArmThreadState64

namespace ThreadState

def pc : {arch : Arch} → ThreadState arch → UInt64
  | .x86_64, state => X86ThreadState64.rip state
  | .aarch64, state => ArmThreadState64.pc state

def sp : {arch : Arch} → ThreadState arch → UInt64
  | .x86_64, state => X86ThreadState64.rsp state
  | .aarch64, state => ArmThreadState64.sp state

def regs : {arch : Arch} → ThreadState arch → String
  | .x86_64, state => X86ThreadState64.regs state
  | .aarch64, state => ArmThreadState64.regs state

end ThreadState

abbrev MachPort := UInt32

def KERN_SUCCESS : Int32 := 0

-- What the Mach calls answer: a kernel return code and the data they write.
structure Kernel (arch : Arch) where
  taskThreads : MachPort → Int32 × List MachPort
  threadGetState : MachPort → Int32 × ThreadState arch
  machVmReadOverwrite : MachPort → UInt64 → Nat → Int32 × List UInt8

-- The `x` format of a u64.
def lowerHex (n : UInt64) : String :=
  String.ofList (Nat.toDigits 16 n.toNat)

structure MachTask where
  task : MachPort
deriving DecidableEq, Repr

namespace MachTask

variable {arch : Arch}

def attach (taskForPid : Int32 → Int32 × MachPort) (pid : Int32) : Except String MachTask :=
  let (kr, task) := taskForPid pid
  if kr ≠ KERN_SUCCESS then
    .error s!"task_for_pid failed: {kr} (need sudo + code signing with entitlements)"
  else
    .ok { task }

-- The buffer holds `size` bytes and is cut to the length the kernel reports.
def readMemory (kernel : Kernel arch) (self : MachTask) (addr : UInt64) (size : Nat) :
    Except String (List UInt8) :=
  let (kr, data) := kernel.machVmReadOverwrite self.task addr size
  if kr ≠ KERN_SUCCESS then
    .error s!"mach_vm_read failed at 0x{lowerHex addr}: {kr}"
  else
    .ok (data.take size)

def getThreads (kernel : Kernel arch) (self : MachTask) : Except String (List MachPort) :=
  let (kr, threads) := kernel.taskThreads self.task
  if kr ≠ KERN_SUCCESS then .error s!"task_threads failed: {kr}" else .ok threads

def getThreadState (kernel : Kernel arch) (thread : MachPort) :
    Except String (ThreadState arch) :=
  let (kr, state) := kernel.threadGetState thread
  if kr ≠ KERN_SUCCESS then .error s!"thread_get_state failed: {kr}" else .ok state

end MachTask

end Tdb.Tracer
