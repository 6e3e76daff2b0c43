import Tdb.TraceLoop

namespace Tdb.Tracer

open Tdb.Library

namespace Signal

def name : Signal → String
  | SIGHUP => "SIGHUP" | SIGINT => "SIGINT" | SIGQUIT => "SIGQUIT" | SIGILL => "SIGILL"
  | SIGTRAP => "SIGTRAP" | SIGABRT => "SIGABRT" | SIGEMT => "SIGEMT" | SIGFPE => "SIGFPE"
  | SIGKILL => "SIGKILL" | SIGBUS => "SIGBUS" | SIGSEGV => "SIGSEGV" | SIGSYS => "SIGSYS"
  | SIGPIPE => "SIGPIPE" | SIGALRM => "SIGALRM" | SIGTERM => "SIGTERM" | SIGURG => "SIGURG"
  | SIGSTOP => "SIGSTOP" | SIGTSTP => "SIGTSTP" | SIGCONT => "SIGCONT" | SIGCHLD => "SIGCHLD"
  | SIGTTIN => "SIGTTIN" | SIGTTOU => "SIGTTOU" | SIGIO => "SIGIO" | SIGXCPU => "SIGXCPU"
  | SIGXFSZ => "SIGXFSZ" | SIGVTALRM => "SIGVTALRM" | SIGPROF => "SIGPROF"
  | SIGWINCH => "SIGWINCH" | SIGINFO => "SIGINFO" | SIGUSR1 => "SIGUSR1" | SIGUSR2 => "SIGUSR2"

end Signal

-- As the debug format prints it.
def WaitStatus.debug : WaitStatus → String
  | .exited pid code => s!"Exited(Pid({pid}), {code})"
  | .signaled pid sig coreDump => s!"Signaled(Pid({pid}), {sig.name}, {coreDump})"
  | .stopped pid sig => s!"Stopped(Pid({pid}), {sig.name})"
  | .continued pid => s!"Continued(Pid({pid}))"
  | .stillAlive => "StillAlive"

end Tdb.Tracer

namespace Tdb.Launcher

open Tdb.Library Tdb.Storage Tdb.Tracer Tdb.TraceLoop

structure ProcessLauncher where
  pid : Int32
deriving DecidableEq, Repr

-- A launch or an attach: what it returns, with the calls it made.
abbrev Launched := Calling SystemCall (Except String ProcessLauncher)

-- `CString::new`
def cString (s : String) : Except String (List UInt8) :=
  let bytes := Bincode.utf8 s
  match bytes.findIdx? fun b => b == 0 with
  | some i => .error s!"nul byte found in provided data at position: {i}"
  | none => .ok bytes

section Launch

variable (waitpid : Int32 → Except String WaitStatus)

-- The parent's side of the fork. The child asks to be traced and never comes back from here.
def launch (fork : Except String Int32) (program : String) (args : List String) : Launched := do
  match cString program with
  | .error e => return .error s!"Invalid program name: {e}"
  | .ok _ =>
      match args.mapM cString with
      | .error e => return .error s!"Invalid argument: {e}"
      | .ok _ =>
          match ← Calling.call .fork fork with
          | .error e => return .error s!"fork failed: {e}"
          | .ok child =>
              match ← Calling.call (.wait child) (waitpid child) with
              | .ok (.stopped _ _) => return .ok { pid := child }
              | .ok (.exited _ code) =>
                  return .error s!"Child exited immediately with code {code}"
              | .ok status => return .error s!"Unexpected wait status after fork: {status.debug}"
              | .error e => return .error s!"waitpid failed: {e}"

def attach (ptraceAttach : Int32 → Except String Unit) (pid : Int32) : Launched := do
  match ← Calling.call (.attach pid) (ptraceAttach pid) with
  | .error e => return .error s!"ptrace(PT_ATTACH) failed: {e} (need sudo?)"
  | .ok () =>
      match ← Calling.call (.wait pid) (waitpid pid) with
      | .ok (.stopped _ _) => return .ok { pid }
      | .ok status => return .error s!"Unexpected wait status after attach: {status.debug}"
      | .error e => return .error s!"waitpid failed: {e}"

end Launch

-- What the system answers to a tracing command.
structure System (arch : Arch) where
  fork : Except String Int32
  ptraceAttach : Int32 → Except String Unit
  waitpid : Int32 → Except String WaitStatus
  taskForPid : Int32 → Int32 × MachPort
  buildCapstone : Except String Unit
  setHandler : Except String Unit
  write : String → List UInt8 → Except String Unit
  iterations : List (Iteration arch)

section Commands

variable {arch : Arch}

-- The loop after a launch or an attach. `none` when the iterations given do not end it.
def traceFrom (sys : System arch) (launched : Launched) (pid : Int32) (output : String) :
    Option Ending :=
  (traceLoop sys.taskForPid sys.buildCapstone sys.setHandler sys.write pid output
    sys.iterations).map fun ending => do
      let _ ← launched
      ending

def runAndTrace (sys : System arch) (program : String) (args : List String) (output : String) :
    Option Ending :=
  let launched := launch sys.waitpid sys.fork program args
  match launched.result with
  | .error e => some do
      let _ ← launched
      return .error { message := s!"Failed to launch program: {repr e}" }
  | .ok launcher => traceFrom sys launched launcher.pid output

def attachAndTrace (sys : System arch) (pid : Int32) (output : String) : Option Ending :=
  let launched := attach sys.waitpid sys.ptraceAttach pid
  match launched.result with
  | .error e => some do
      let _ ← launched
      return .error { message := s!"Failed to attach (need sudo?): {repr e}" }
  | .ok _ => traceFrom sys launched pid output

-- The two commands that trace.
inductive Command where
  | run (program : String) (args : List String)
  | trace (pid : Int32)
deriving DecidableEq, Repr

namespace Command

def launched (sys : System arch) : Command → Launched
  | run program args => launch sys.waitpid sys.fork program args
  | trace pid => attach sys.waitpid sys.ptraceAttach pid

def session (sys : System arch) (output : String) : Command → Option Ending
  | run program args => runAndTrace sys program args output
  | trace pid => attachAndTrace sys pid output

end Command

end Commands

end Tdb.Launcher
