import Tdb.Library.Case
import Tdb.Library.Json
import Tdb.Library.Run
import Tdb.Stats

namespace Tdb.Tui

open Tdb.Library Tdb.Storage Tdb.Stats

-- `serde_json::Number`; a float is its bits.
inductive Number where
  | posInt (n : UInt64)
  | negInt (n : Int64)
  | float (bits : UInt64)
deriving DecidableEq, Repr

abbrev Value := Json Number

namespace Value

def get (v : Value) (key : String) : Option Value :=
  match v with
  | .obj fields => fields.lookup key
  | _ => none

def asObject (v : Value) : Option (List (String × Value)) :=
  match v with
  | .obj fields => some fields
  | _ => none

def asU64 (v : Value) : Option UInt64 :=
  match v with
  | .num (.posInt n) => some n
  | _ => none

end Value

-- What the viewer takes from outside: `serde_json::from_str` and the Unicode tables.
structure Platform where
  fromStr : String → Except String Value
  tables : CaseTables

inductive Mode where
  | normal
  | search (query : String)
  | help
deriving DecidableEq, Repr

inductive KeyCode where
  | char (c : Char)
  | backspace | enter | left | right | up | down | home | endKey | pageUp | pageDown | esc
  | other
deriving DecidableEq, Repr

-- What `find_next` and `find_prev` look for.
inductive What where
  | call | ret | mem
deriving DecidableEq, Repr

structure ListState where
  selected : Option Nat
deriving DecidableEq, Repr

structure App where
  trace : List TraceEntry
  current : Nat
  listState : ListState
  prevRegs : Option (List (String × Value))
  mode : Mode
  stats : TraceStats
  arch : String
  baseSp : Option UInt64
  shouldQuit : Bool
  filteredIndices : List Nat
  traceFile : String

def outOfBounds (len i : Nat) : Panic :=
  { message := s!"index out of bounds: the len is {len} but the index is {i}" }

-- `entries[i]`
def index (entries : List TraceEntry) (i : Nat) : Except Panic TraceEntry :=
  match entries[i]? with
  | some entry => .ok entry
  | none => .error (outOfBounds entries.length i)

-- The casts between usize and i64, and i64 arithmetic as release builds have it.
def asI64 (n : Nat) : Int := Int.bmod n (2 ^ 64)

def asUsize (n : Int) : Nat := (n % 2 ^ 64).toNat

def wrapI64 (n : Int) : Int := Int.bmod n (2 ^ 64)

def matchesFilter (entry : TraceEntry) : What → Bool
  | .call => Text.contains entry.insnText "CALL"
  | .ret => Text.contains entry.insnText "RETURN"
  | .mem => !entry.memChanges.isEmpty

namespace App

variable (platform : Platform)

-- `serde_json::from_str(..).unwrap_or_default()`
def parseOrNull (regs : String) : Value :=
  match platform.fromStr regs with
  | .ok v => v
  | .error _ => .null

def new (order : HashOrder) (db : TraceDb) (traceFile : String) : App :=
  let trace := db.getAll
  let first := trace.head?.map fun e => parseOrNull platform e.regs
  { trace
    current := 0
    listState := { selected := if trace.isEmpty then none else some 0 }
    prevRegs := none
    mode := .normal
    stats := TraceStats.analyze order db
    arch := match first with
      | some regs => if (regs.get "rax").isSome then "x86_64" else "arm64"
      | none => "unknown"
    baseSp := first.bind fun regs =>
      ((regs.get "sp").or (regs.get "rsp")).bind Value.asU64
    shouldQuit := false
    filteredIndices := List.range trace.length
    traceFile }

-- The registers that the diff highlighting compares with after a move.
def savedRegs (app : App) : Except Panic (Option (List (String × Value))) :=
  if app.current < app.trace.length then
    match index app.trace app.current with
    | .error panic => .error panic
    | .ok entry =>
        match platform.fromStr entry.regs with
        | .ok regs =>
            match regs.asObject with
            | some obj => .ok (some obj)
            | none => .ok app.prevRegs
        | .error _ => .ok app.prevRegs
  else
    .ok app.prevRegs

-- The list follows when the entry is one of those listed.
def syncList (app : App) (idx : Nat) : App :=
  match app.filteredIndices.findIdx? fun i => i == idx with
  | some pos => { app with listState := { selected := some pos } }
  | none => app

def select (app : App) (idx : Nat) : Except Panic App :=
  if idx ≥ app.trace.length then
    .ok app
  else
    match app.savedRegs platform with
    | .error panic => .error panic
    | .ok prevRegs => .ok ({ app with prevRegs, current := idx }.syncList idx)

-- On an empty trace the upper bound is -1, which the cast makes the largest usize.
def stepTarget (app : App) (delta : Int) : Nat :=
  asUsize (min (max (wrapI64 (asI64 app.current + delta)) 0)
    (wrapI64 (asI64 app.trace.length - 1)))

def step (app : App) (delta : Int) : Except Panic App :=
  app.select platform (app.stepTarget delta)

-- The body of the search loops, over the indices they run through.
def firstMatch (app : App) (what : What) : List Nat → Except Panic (Option Nat)
  | [] => .ok none
  | i :: rest =>
      match index app.trace i with
      | .error panic => .error panic
      | .ok entry => if matchesFilter entry what then .ok (some i) else firstMatch app what rest

def selectFirst (app : App) (what : What) (indices : List Nat) : Except Panic App :=
  match app.firstMatch what indices with
  | .error panic => .error panic
  | .ok (some i) => app.select platform i
  | .ok none => .ok app

def findNext (app : App) (what : What) : Except Panic App :=
  let start := app.current + 1
  app.selectFirst platform what (List.range' start (app.trace.length - start))

def findPrev (app : App) (what : What) : Except Panic App :=
  if app.current = 0 then
    .ok app
  else
    app.selectFirst platform what (List.range app.current).reverse

-- The indices of the entries whose text contains the query, letter case apart.
def matching (trace : List TraceEntry) (query : String) : List Nat :=
  let q := platform.tables.toLowercase query
  if q.isEmpty then
    List.range trace.length
  else
    (trace.zipIdx.filter fun (e, _) => Text.contains (platform.tables.toLowercase e.insnText) q).map
      Prod.snd

def applySearch (app : App) (query : String) : Except Panic App :=
  let app := { app with filteredIndices := matching platform app.trace query }
  match app.filteredIndices.head? with
  | some first => app.select platform first
  | none => .ok app

end App

section Keys

variable (platform : Platform)

def handleNormalKey (app : App) : KeyCode → Except Panic App
  | .char 'q' | .esc => .ok { app with shouldQuit := true }
  | .char 'h' | .left => app.step platform (-1)
  | .char 'l' | .right => app.step platform 1
  | .char 'j' | .down => app.step platform 1
  | .char 'k' | .up => app.step platform (-1)
  | .char 'g' | .home => app.select platform 0
  | .char 'G' | .endKey => app.select platform (app.trace.length - 1)
  | .char 'c' => app.findNext platform .call
  | .char 'C' => app.findPrev platform .call
  | .char 'r' => app.findNext platform .ret
  | .char 'R' => app.findPrev platform .ret
  | .char 'm' => app.findNext platform .mem
  | .char 'M' => app.findPrev platform .mem
  | .char '/' => .ok { app with mode := .search "" }
  | .char '?' => .ok { app with mode := .help }
  | .pageDown => app.step platform 50
  | .pageUp => app.step platform (-50)
  | _ => .ok app

-- Typing and erasing change the query and search for it at once.
def handleSearchKey (app : App) : KeyCode → Except Panic App
  | .esc => .ok { app with filteredIndices := List.range app.trace.length, mode := .normal }
  | .enter => .ok { app with mode := .normal }
  | .char c =>
      match app.mode with
      | .search q => { app with mode := .search (q.push c) }.applySearch platform (q.push c)
      | _ => .ok app
  | .backspace =>
      match app.mode with
      | .search q =>
          let query := String.ofList q.toList.dropLast
          { app with mode := .search query }.applySearch platform query
      | _ => .ok app
  | _ => .ok app

def handleKey (app : App) (code : KeyCode) : Except Panic App :=
  match app.mode with
  | .normal => handleNormalKey platform app code
  | .search _ => handleSearchKey platform app code
  | .help => .ok { app with mode := .normal }

end Keys

section Rendering

inductive RowStyle where
  | current | call | ret | mem | plain
deriving DecidableEq, Repr

structure TimelineRow where
  marker : String
  step : Nat
  pc : UInt64
  insn : String
  style : RowStyle
deriving DecidableEq, Repr

def midCharacter (text : String) (n : Nat) : Panic :=
  { message := Text.midCharacter text n }

-- `&insn[..20]` panics when a character straddles byte 20.
def insnShort (insn : String) : Except Panic String :=
  let maxInsn := 22
  if insn.utf8ByteSize > maxInsn then
    match Text.slicePrefix insn.toList (maxInsn - 2) with
    | some kept => .ok (String.ofList kept ++ "..")
    | none => .error (midCharacter insn (maxInsn - 2))
  else
    .ok insn

def timelineRow (app : App) (i : Nat) : Except Panic TimelineRow :=
  match index app.trace i with
  | .error panic => .error panic
  | .ok e =>
      let isCall := Text.contains e.insnText "CALL"
      let isRet := Text.contains e.insnText "RETURN"
      let hasMem := !e.memChanges.isEmpty
      match insnShort e.insnText with
      | .error panic => .error panic
      | .ok insn =>
          .ok
            { marker := if isCall then ">" else if isRet then "<" else if hasMem then "*" else " "
              step := e.step
              pc := e.pc
              insn
              style :=
                if i = app.current then .current
                else if isCall then .call
                else if isRet then .ret
                else if hasMem then .mem
                else .plain }

inductive Color where
  | blue | red | magenta | yellow | cyan | darkGray
deriving DecidableEq, Repr

-- The label of the detail panel, and its colour.
def insnType (entry : TraceEntry) : String × Color :=
  if Text.contains entry.insnText "CALL" then
    ("CALL", .blue)
  else if Text.contains entry.insnText "RETURN" then
    ("RETURN", .red)
  else
    let m := Text.firstWord entry.insnText
    if Text.startsWith m "b" || Text.startsWith m "j" then
      ("BRANCH", .magenta)
    else if Text.contains m "str" || Text.contains m "st" || m == "push" then
      ("STORE", .yellow)
    else if Text.contains m "ldr" || Text.contains m "ld" || m == "pop" then
      ("LOAD", .cyan)
    else
      ("", .darkGray)

-- What drawing a list of `len` rows does to its state: a selection past the end moves to the
-- last row, an empty list has none.
def ListState.clamp (state : ListState) (len : Nat) : ListState :=
  if len = 0 then
    { selected := none }
  else
    match state.selected with
    | some pos => { selected := some (if pos ≥ len then len - 1 else pos) }
    | none => state

-- The list draws its selected row in bold over the style of the row, and puts a symbol before it.
structure Timeline where
  title : String
  rows : List TimelineRow
  highlighted : Option Nat
  highlightSymbol : String
deriving DecidableEq, Repr

def renderTimeline (app : App) : Except Panic Timeline :=
  match app.filteredIndices.mapM (timelineRow app) with
  | .error panic => .error panic
  | .ok rows =>
      let shown := app.filteredIndices.length
      let total := if shown ≠ app.trace.length then s!"/{app.trace.length}" else ""
      .ok
        { title := s!" Timeline ({shown}{total}) "
          rows
          highlighted := (app.listState.clamp shown).selected
          highlightSymbol := "> " }

-- `hasRoom`: the terminal leaves a row for the list.
def draw (app : App) (hasRoom : Bool) : Except Panic App :=
  match renderTimeline app with
  | .error panic => .error panic
  | .ok _ =>
      .ok
        { app with
          listState :=
            if hasRoom then app.listState.clamp app.filteredIndices.length else app.listState }

end Rendering

inductive Event where
  | draw (hasRoom : Bool)
  | key (code : KeyCode)
deriving DecidableEq, Repr

-- What the main loop does between two tests of `should_quit`. A panic ends the program.
def handle (platform : Platform) (app : App) (event : Event) : Flow App Panic :=
  let after := match event with
    | .draw hasRoom => draw app hasRoom
    | .key code => handleKey platform app code
  match after with
  | .ok app' => .next app'
  | .error panic => .stop app panic

end Tdb.Tui
