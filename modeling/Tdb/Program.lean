import Tdb.Launcher
import Tdb.Library.Disk
import Tdb.Library.Numeral
import Tdb.Tui.Session

namespace Tdb.Program

open Tdb.Library Tdb.Storage Tdb.Stats Tdb.Tracer Tdb.TraceLoop Tdb.Launcher

section Arguments

inductive Command where
  | run (program : String) (args : List String) (output : String)
  | trace (pid : Int32) (output : String)
  | view (traceFile : String) (port : UInt16)
  | tui (traceFile : String)
  | stats (traceFile : String)
deriving DecidableEq, Repr

-- What `main` finds in its arguments. A refusal is written to stderr, and the exit code is 1.
inductive Invocation where
  | command (c : Command)
  | refused (lines : List String)
  | panicked (panic : Panic)
deriving DecidableEq, Repr

def printUsage (prog : String) : List String :=
  ["TDB - Timeless Debugger for macOS\n",
    s!"Usage: {prog} <command> [args]\n",
    "Commands:",
    "  run <program> [args...] <output.tdb>  Run and trace a program",
    "  trace <pid> <output.tdb>              Attach to running process",
    "  view <trace.tdb> [port]               View trace in browser",
    "  tui <trace.tdb>                       View trace in terminal",
    "  stats <trace.tdb>                     Show trace statistics"]

-- `str::parse` for a pid and for a port.
def parsePid (text : String) : Option Int32 :=
  (Numeral.readSigned (2 ^ 31) text).map Int32.ofInt

def parsePort (text : String) : Option UInt16 :=
  (Numeral.readUnsigned (2 ^ 16) text).map UInt16.ofNat

def runArgs (prog : String) : List String → Invocation
  | program :: arg :: more =>
      .command (.run program (arg :: more).dropLast ((arg :: more).getLast (List.cons_ne_nil _ _)))
  | _ =>
      .refused [s!"Usage: {prog} run <program> [args...] <output.tdb>",
        s!"Example: {prog} run python3 script.py trace.tdb"]

def traceArgs (prog : String) : List String → Invocation
  | pid :: output :: _ =>
      match parsePid pid with
      | some pid => .command (.trace pid output)
      | none => .panicked { message := "Invalid PID" }
  | _ => .refused [s!"Usage: {prog} trace <pid> <output.tdb>"]

-- A port that cannot be read is no error.
def viewArgs (prog : String) : List String → Invocation
  | traceFile :: more => .command (.view traceFile ((more.head?.bind parsePort).getD 8080))
  | [] => .refused [s!"Usage: {prog} view <trace.tdb> [port]"]

def tuiArgs (prog : String) : List String → Invocation
  | traceFile :: _ => .command (.tui traceFile)
  | [] => .refused [s!"Usage: {prog} tui <trace.tdb>"]

def statsArgs (prog : String) : List String → Invocation
  | traceFile :: _ => .command (.stats traceFile)
  | [] => .refused [s!"Usage: {prog} stats <trace.tdb>"]

-- `main`, up to the command it runs. The usage names `args[0]`, which is not there in an empty
-- list.
def parseArgs : List String → Invocation
  | [] => .panicked { message := "index out of bounds: the len is 0 but the index is 0" }
  | [prog] => .refused (printUsage prog)
  | prog :: "run" :: rest => runArgs prog rest
  | prog :: "trace" :: rest => traceArgs prog rest
  | prog :: "view" :: rest => viewArgs prog rest
  | prog :: "tui" :: rest => tuiArgs prog rest
  | prog :: "stats" :: rest => statsArgs prog rest
  | prog :: command :: _ => .refused (s!"Unknown command: {command}" :: printUsage prog)

-- The arguments that stand for a command.
def Command.words : Command → List String
  | run program args output => "run" :: program :: args ++ [output]
  | trace pid output => ["trace", pid.toInt.repr, output]
  | view traceFile port => ["view", traceFile, port.toNat.repr]
  | tui traceFile => ["tui", traceFile]
  | stats traceFile => ["stats", traceFile]

end Arguments

section Machine

-- What a start of the program meets: the answers of the system, how a write of the trace file
-- ends, the order of the hash maps, and the terminal with its user.
structure Machine where
  arch : Arch
  system : System arch
  outcome : WriteOutcome
  order : HashOrder
  build : Tui.Build
  platform : Tui.Platform
  terminal : Tui.TerminalAnswers
  turns : List Tui.Turn

def Machine.writing (m : Machine) : System m.arch :=
  { m.system with write := fun _ _ => m.outcome.result }

-- What can be read under each path.
abbrev Files := String → Option (List UInt8)

-- `std::fs::read`
def readFile (files : Files) (path : String) : Except String (List UInt8) :=
  match files path with
  | some data => .ok data
  | none => .error "No such file or directory (os error 2)"

def loadFile (files : Files) (path : String) : Except String TraceDb :=
  TraceDb.load (readFile files path) path

-- What comes of a command. The viewer in the browser is served until it is stopped.
inductive Report where
  | traced (ending : Ending)
  | serving (db : TraceDb) (stats : TraceStats) (port : UInt16)
  | closed (ended : Tui.Ended)
  | printed (stats : TraceStats)
  | panicked (panic : Panic)

def viewTrace (order : HashOrder) (files : Files) (traceFile : String) (port : UInt16) : Report :=
  match loadFile files traceFile with
  | .error e => .panicked { message := s!"Failed to load trace: {repr e}" }
  | .ok db => .serving db (TraceStats.analyze order db) port

def showStats (order : HashOrder) (files : Files) (traceFile : String) : Report :=
  match loadFile files traceFile with
  | .error e => .panicked { message := s!"Failed to load trace: {repr e}" }
  | .ok db => .printed (TraceStats.analyze order db)

-- The tracing commands with the file they are to write.
def Command.tracing : Command → Option (Launcher.Command × String)
  | .run program args output => some (.run program args, output)
  | .trace pid output => some (.trace pid, output)
  | .view _ _ | .tui _ | .stats _ => none

-- `none` for a tracing command or a session in the terminal that has not come to its end.
def report (m : Machine) (files : Files) : Command → Option Report
  | .run program args output =>
      ((Launcher.Command.run program args).session m.writing output).map .traced
  | .trace pid output => ((Launcher.Command.trace pid).session m.writing output).map .traced
  | .view traceFile port => some (viewTrace m.order files traceFile port)
  | .tui traceFile =>
      (Tui.run m.build m.platform m.order (readFile files traceFile) traceFile m.terminal
        m.turns).map .closed
  | .stats traceFile => some (showStats m.order files traceFile)

-- The files that a command writes. Only a trace writes one.
def written (m : Machine) (c : Command) : List FileWrite :=
  match c.tracing with
  | some (t, output) => (t.session m.writing output).elim [] fun ending => writes ending.calls
  | none => []

-- One start of the program.
structure Start where
  args : List String
  machine : Machine

-- The attempt of a start to write a file, where `names` says which file a path stands for.
def Start.saving {φ : Type} (names : String → φ) (s : Start) : Option (Saving φ UInt8) :=
  match parseArgs s.args with
  | .command c =>
      (written s.machine c).head?.map fun file =>
        { name := names file.path, content := file.data, outcome := s.machine.outcome }
  | _ => none

end Machine

end Tdb.Program
