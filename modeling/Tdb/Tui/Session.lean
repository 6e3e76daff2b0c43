import Tdb.Tui.Detail

namespace Tdb.Tui

open Tdb.Library Tdb.Storage Tdb.Stats

section Loop

inductive KeyEventKind where
  | press | repeated | release
deriving DecidableEq, Repr

structure KeyEvent where
  code : KeyCode
  kind : KeyEventKind
deriving DecidableEq, Repr

-- What `event::read` returns; the other events are resizes, the mouse, focus and pastes.
inductive Input where
  | key (event : KeyEvent)
  | other
deriving DecidableEq, Repr

-- What one turn of the main loop meets. Drawing asks the terminal for its size before the
-- widgets are drawn, and writes the frame out behind them.
structure Turn where
  hasRoom : Bool
  autoresize : Except String Unit
  flush : Except String Unit
  poll : Except String Bool
  read : Except String Input

inductive Exit where
  | quit
  | failed (message : String)
  | panicked (panic : Panic)
deriving DecidableEq, Repr

variable (build : Build) (platform : Platform)

-- The widgets that can panic: the timeline, then the detail panel.
def ui (app : App) (hasRoom : Bool) : Except Panic App :=
  match draw app hasRoom with
  | .error panic => .error panic
  | .ok app =>
      match renderDetail build platform app with
      | .error panic => .error panic
      | .ok _ => .ok app

def checkQuit (app : App) : Flow App Exit :=
  if app.shouldQuit then .stop app .quit else .next app

-- The body of `main_loop`. A key that is not being pressed goes straight to the next turn.
def turn (app : App) (t : Turn) : Flow App Exit :=
  match t.autoresize with
  | .error e => .stop app (.failed e)
  | .ok () =>
      match ui build platform app t.hasRoom with
      | .error panic => .stop app (.panicked panic)
      | .ok app =>
          match t.flush with
          | .error e => .stop app (.failed e)
          | .ok () =>
              match t.poll with
              | .error e => .stop app (.failed e)
              | .ok false => checkQuit app
              | .ok true =>
                  match t.read with
                  | .error e => .stop app (.failed e)
                  | .ok .other => checkQuit app
                  | .ok (.key event) =>
                      if event.kind ≠ .press then
                        .next app
                      else
                        match handleKey platform app event.code with
                        | .error panic => .stop app (.panicked panic)
                        | .ok app => checkQuit app

end Loop

section Run

-- The two settings of the terminal that a session changes.
structure Terminal where
  raw : Bool := false
  alternate : Bool := false
deriving DecidableEq, Repr

-- What a session asks of the terminal before and after the main loop.
inductive TerminalCall where
  | enableRawMode | enterAlternateScreen | newTerminal | disableRawMode | leaveAlternateScreen
deriving DecidableEq, Repr

-- A call that fails changes nothing.
def Terminal.after (t : Terminal) : TerminalCall × Except String Unit → Terminal
  | (.enableRawMode, .ok ()) => { t with raw := true }
  | (.disableRawMode, .ok ()) => { t with raw := false }
  | (.enterAlternateScreen, .ok ()) => { t with alternate := true }
  | (.leaveAlternateScreen, .ok ()) => { t with alternate := false }
  | _ => t

structure TerminalAnswers where
  enableRawMode : Except String Unit
  enterAlternateScreen : Except String Unit
  newTerminal : Except String Unit
  disableRawMode : Except String Unit
  leaveAlternateScreen : Except String Unit

def TerminalAnswers.to (answers : TerminalAnswers) : TerminalCall → Except String Unit
  | .enableRawMode => answers.enableRawMode
  | .enterAlternateScreen => answers.enterAlternateScreen
  | .newTerminal => answers.newTerminal
  | .disableRawMode => answers.disableRawMode
  | .leaveAlternateScreen => answers.leaveAlternateScreen

-- Calls of the terminal with what they are answered.
abbrev Asking (α : Type) := Calling (TerminalCall × Except String Unit) α

-- A session that has come to its end: with a result or a panic.
abbrev Ended := Asking (Except Panic (Except String Unit))

def Ended.terminal (ended : Ended) : Terminal :=
  ended.calls.foldl Terminal.after {}

def ask (answers : TerminalAnswers) (call : TerminalCall) : Asking (Except String Unit) :=
  Calling.call (call, answers.to call) (answers.to call)

-- Up to the main loop. Each call is made only if the one before it has worked.
def enter (answers : TerminalAnswers) : Asking (Except String Unit) := do
  match ← ask answers .enableRawMode with
  | .error e => return .error e
  | .ok () =>
      match ← ask answers .enterAlternateScreen with
      | .error e => return .error e
      | .ok () => ask answers .newTerminal

def restore (answers : TerminalAnswers) (result : Except String Unit) : Ended := do
  match ← ask answers .disableRawMode with
  | .error e => return .ok (.error e)
  | .ok () =>
      match ← ask answers .leaveAlternateScreen with
      | .error e => return .ok (.error e)
      | .ok () => return .ok result

-- From the end of the main loop on. A panic passes the calls by.
def leave (answers : TerminalAnswers) (exit : Exit) : Ended :=
  match exit with
  | .panicked panic => return .error panic
  | .quit => restore answers (.ok ())
  | .failed e => restore answers (.error e)

variable (build : Build) (platform : Platform)

-- A session over the trace that `app` holds. `none` when the turns given do not end the main loop.
def browse (answers : TerminalAnswers) (app : App) (turns : List Turn) : Option Ended :=
  match (enter answers).result with
  | .error e => some do
      let _ ← enter answers
      return .ok (.error e)
  | .ok () =>
      match loop (turn build platform) app turns with
      | .next _ => none
      | .stop _ exit => some do
          let _ ← enter answers
          leave answers exit

def run (order : HashOrder) (data : Except String (List UInt8)) (traceFile : String)
    (answers : TerminalAnswers) (turns : List Turn) : Option Ended :=
  match TraceDb.load data traceFile with
  | .error e => some (return .ok (.error s!"Failed to load trace: {e}"))
  | .ok db =>
      if db.count = 0 then
        some (return .ok (.error "Trace file is empty"))
      else
        browse build platform answers (App.new platform order db traceFile) turns

end Run

end Tdb.Tui
