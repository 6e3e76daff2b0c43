import Tdb.Library.Run
import Tdb.Server
import Tdb.Web.Value

namespace Tdb.Web

open Tdb.Library Tdb.Storage Tdb.Server

-- The entries of the response as the script holds them: the 64-bit numbers have become doubles.
structure Change where
  addr : Double
  oldVal : UInt8
  newVal : UInt8
deriving DecidableEq

structure Entry where
  step : Double
  pc : Double
  insnBytes : List UInt8
  insnText : String
  regs : String
  memChanges : List Change
deriving DecidableEq

namespace Entry

def ofTrace (e : TraceEntry) : Entry where
  step := .ofNat e.step
  pc := .ofNat e.pc.toNat
  insnBytes := e.insnBytes
  insnText := e.insnText
  regs := e.regs
  memChanges := e.memChanges.map fun c =>
    { addr := .ofNat c.addr.toNat, oldVal := c.oldVal, newVal := c.newVal }

def isCall (e : Entry) : Bool := Text.contains e.insnText "CALL"

def isRet (e : Entry) : Bool := Text.contains e.insnText "RETURN"

def hasMem (e : Entry) : Bool := !e.memChanges.isEmpty

end Entry

section Layout

-- A distance on the page.
structure Pixels where
  value : ℚ
  isDouble : IsBinary64 value
  nonneg : 0 ≤ value

def Pixels.toDouble (p : Pixels) : Double := .finite ⟨p.value, p.isDouble⟩

-- What the page answers: how far the list is scrolled, how high it is, and where it comes to
-- rest when the script scrolls it.
structure Layout where
  scrollTop : Pixels
  clientHeight : Pixels
  landing : Pixels

def itemH : Nat := 28

def buffer : Nat := 15

def startFi (scrollTop : Pixels) : Nat :=
  match scrollTop.toDouble.divNat itemH with
  | .finite q => (⌊q.val⌋ - buffer).toNat
  | _ => 0

def endFi (len : Nat) (scrollTop clientHeight : Pixels) : Nat :=
  match (scrollTop.toDouble.add clientHeight.toDouble).divNat itemH with
  | .finite q => min len (⌈q.val⌉ + buffer).toNat
  | _ => len

end Layout

section Page

structure RowContent where
  call : Bool
  ret : Bool
  mem : Bool
  step : Double
  addr : String
  insn : String
deriving DecidableEq

-- A `.step` element of the timeline.
structure Row where
  fi : Nat
  top : Nat
  i : Nat
  content : RowContent
  active : Bool
deriving DecidableEq

structure Register where
  name : String
  text : String
  changed : Bool
deriving DecidableEq, Repr

structure MemRow where
  addr : String
  oldVal : String
  newVal : String
  char : Char
deriving DecidableEq, Repr

structure Detail where
  step : Double := .ofNat 0
  pc : String := "PC: 0x0000000000000000"
  insn : String := "..."
  bytes : String := "00 00 00 00"
  type : String := "-"
  sp : String := "0x0"
  delta : Double := .ofNat 0
  registers : List Register := []
  memory : List MemRow := []

-- The numbers of steps, calls and memory changes at the top of the page.
structure Header where
  steps : Nat := 0
  calls : Nat := 0
  mem : Nat := 0
deriving DecidableEq, Repr

structure Viewer where
  trace : List Entry := []
  filteredIndices : List Nat := []
  curr : Nat := 0
  arch : String := "unknown"
  prevRegs : Option Value := none
  baseSP : Option Value := none
  callCnt : Nat := 0
  memCnt : Nat := 0
  header : Header := {}
  searchInput : String := ""
  helpVisible : Bool := false
  listening : Bool := false
  rows : List Row := []
  tlCount : Nat := 0
  detail : Detail := {}

-- The page right after a call of `renderVisible`, with what the call had measured.
structure Render where
  viewer : Viewer
  scrollTop : Pixels
  clientHeight : Pixels

-- What an event leaves, and the calls of `renderVisible` on the way. A handler that throws
-- leaves what it had done.
structure Handled where
  viewer : Viewer
  renders : List Render := []

end Page

section Timeline

variable (browser : Browser)

def rowContent (e : Entry) : RowContent where
  call := e.isCall
  ret := e.isRet
  mem := e.hasMem
  step := e.step
  addr := "0x" ++ padStart (numberToString16 browser e.pc) 12
  insn := e.insnText

namespace Viewer

-- The row of place `fi` in the filter, unless it points outside the trace.
def makeRow (v : Viewer) (fi : Nat) : Option Row :=
  match v.filteredIndices[fi]? with
  | none => none
  | some i =>
      match v.trace[i]? with
      | none => none
      | some e =>
          some
            { fi, top := fi * itemH, i, content := rowContent browser e, active := i == v.curr }

def renderVisible (v : Viewer) (scrollTop clientHeight : Pixels) : Viewer :=
  let start := startFi scrollTop
  let finish := endFi v.filteredIndices.length scrollTop clientHeight
  let kept := v.rows.filter fun row => start ≤ row.fi && row.fi < finish
  let missing := (List.range' start (finish - start)).filter fun fi =>
    !kept.any fun row => row.fi == fi
  { v with
    rows := kept ++ missing.filterMap (v.makeRow browser)
    tlCount := v.filteredIndices.length }

def rendered (v : Viewer) (scrollTop clientHeight : Pixels) : Render where
  viewer := v.renderVisible browser scrollTop clientHeight
  scrollTop
  clientHeight

def initVirtualScroll (v : Viewer) (layout : Layout) : Render :=
  { v with listening := true }.rendered browser layout.scrollTop layout.clientHeight

def outOfView (layout : Layout) (targetTop : Nat) : Bool :=
  let bottom := (layout.scrollTop.toDouble.add layout.clientHeight.toDouble).sub (.ofNat itemH)
  (Double.ofNat targetTop).lt layout.scrollTop.toDouble || bottom.lt (.ofNat targetTop)

-- Nothing happens when the filter hides the current entry.
def scrollToActive (v : Viewer) (layout : Layout) : Handled :=
  match v.filteredIndices.findIdx? fun i => i == v.curr with
  | none => { viewer := v }
  | some fi =>
      let scrollTop := if outOfView layout (fi * itemH) then layout.landing else layout.scrollTop
      let render := v.rendered browser scrollTop layout.clientHeight
      { viewer :=
          { render.viewer with
            rows := render.viewer.rows.map fun row => { row with active := row.i == v.curr } }
        renders := [render] }

end Viewer

end Timeline

section Detail

inductive Thrown where
  | syntaxError | typeError
deriving DecidableEq, Repr

variable (browser : Browser)

-- An unset register is no change, a name that every object answers to is one.
def regChanged (prevRegs : Option Value) (name : String) (v : Value) : Bool :=
  match prevRegs with
  | none => false
  | some regs =>
      regs.truthy &&
        match regs.entries.lookup name with
        | some old => !old.same v
        | none => Value.inherited.contains name

def registerOf (prevRegs : Option Value) (entry : String × Value) : Option Register :=
  match toString16 browser entry.2 with
  | none => none
  | some text =>
      some
        { name := entry.1
          text := "0x" ++ padStart (toUpperCase browser text) 16
          changed := regChanged prevRegs entry.1 entry.2 }

def hexByte (b : UInt8) : String :=
  padStart (String.ofList (Nat.toDigits 16 b.toNat)) 2

def memRow (c : Change) : MemRow where
  addr := "0x" ++ padStart (toUpperCase browser (numberToString16 browser c.addr)) 16
  oldVal := "0x" ++ hexByte c.oldVal
  newVal := "0x" ++ hexByte c.newVal
  char := if 0x20 ≤ c.newVal && c.newVal ≤ 0x7e then Char.ofNat c.newVal.toNat else '.'

def insnType (e : Entry) : String :=
  if e.isCall then "call"
  else if e.isRet then "return"
  else if Text.contains e.insnText "bl " || Text.contains e.insnText "blr" then "branch-link"
  else if Text.contains e.insnText "ret" then "return"
  else if Text.startsWith e.insnText "j" || Text.startsWith e.insnText "b" then "branch"
  else "-"

namespace Viewer

def baseFor (v : Viewer) (sp : Option Value) : Option Value :=
  if v.baseSP.any Value.truthy then v.baseSP else sp

-- Fills the panels for an entry, as far as they come when something throws.
def showDetail (v : Viewer) (e : Entry) : Flow Viewer Thrown :=
  match parseJson e.regs with
  | none => .stop v .syntaxError
  | some .null => .stop v .typeError
  | some regs =>
      let sp := regs.member (if v.arch = "x86_64" then "rsp" else "sp")
      let v := { v with baseSP := v.baseFor sp }
      match minus browser sp v.baseSP with
      | none => .stop v .typeError
      | some delta =>
          let v :=
            { v with
              detail :=
                { v.detail with
                  step := e.step
                  pc := "PC: 0x" ++ padStart (toUpperCase browser (numberToString16 browser e.pc)) 16
                  insn := e.insnText
                  bytes := " ".intercalate (e.insnBytes.map fun b => toUpperCase browser (hexByte b))
                  type := insnType e } }
          match sp.bind (toString16 browser) with
          | none => .stop v .typeError
          | some text =>
              let v :=
                { v with detail := { v.detail with sp := "0x" ++ toUpperCase browser text, delta } }
              match regs.entries.mapM (registerOf browser v.prevRegs) with
              | none => .stop v .typeError
              | some registers =>
                  .next
                    { v with
                      prevRegs := some regs
                      detail :=
                        { v.detail with registers, memory := e.memChanges.map (memRow browser) } }

-- `show`
def showStep (v : Viewer) (layout : Layout) (idx : Int) : Handled :=
  if idx < 0 ∨ idx ≥ v.trace.length then
    { viewer := v }
  else
    match v.trace[idx.toNat]? with
    | none => { viewer := v }
    | some e =>
        match { v with curr := idx.toNat }.showDetail browser e with
        | .stop v _ => { viewer := v }
        | .next v => v.scrollToActive browser layout

end Viewer

end Detail

section Navigation

inductive FindType where
  | call | ret | mem
deriving DecidableEq, Repr

def Entry.isOf (e : Entry) : FindType → Bool
  | .call => e.isCall
  | .ret => e.isRet
  | .mem => e.hasMem

variable (browser : Browser)

namespace Viewer

def stepBy (v : Viewer) (layout : Layout) (d : Int) : Handled :=
  v.showStep browser layout (v.curr + d)

def jumpTo (v : Viewer) (layout : Layout) (i : Int) : Handled :=
  v.showStep browser layout (max 0 (min (v.trace.length - 1) i))

-- `s` is what `parseInt` makes of the step box.
def goToStep (v : Viewer) (layout : Layout) (s : Double) : Handled :=
  match v.trace.findIdx? fun e => e.step.same s with
  | some i => v.showStep browser layout i
  | none => { viewer := v }

def showFirst (v : Viewer) (layout : Layout) (type : FindType) (indices : List Nat) : Handled :=
  match indices.find? fun i => v.trace[i]?.any fun e => e.isOf type with
  | some i => v.showStep browser layout i
  | none => { viewer := v }

def findNext (v : Viewer) (layout : Layout) (type : FindType) : Handled :=
  v.showFirst browser layout type (List.range' (v.curr + 1) (v.trace.length - (v.curr + 1)))

def findPrev (v : Viewer) (layout : Layout) (type : FindType) : Handled :=
  v.showFirst browser layout type (List.range v.curr).reverse

def matching (trace : List Entry) (q : String) : List Nat :=
  if q = "" then
    List.range trace.length
  else
    (trace.zipIdx.filter fun (e, _) =>
      Text.contains (browser.tables.toLowercase e.insnText) q).map Prod.snd

def applyFilter (v : Viewer) (layout : Layout) : Handled :=
  let filteredIndices := matching browser v.trace (browser.tables.toLowercase v.searchInput)
  let render := { v with filteredIndices, rows := [] }.rendered browser layout.scrollTop
    layout.clientHeight
  { viewer := render.viewer, renders := [render] }

def toggleHelp (v : Viewer) : Viewer :=
  { v with helpVisible := !v.helpVisible }

end Viewer

end Navigation

section Load

variable (browser : Browser)

def archOf (regs : Value) : String :=
  if (regs.member "rax").isSome then "x86_64" else "arm64"

-- The counters and the filter of a new trace.
def opened (trace : List Entry) (total : Nat) (regs : Value) : Viewer :=
  let callCnt := trace.countP fun e => e.isCall || e.isRet
  let memCnt := (trace.map fun e => e.memChanges.length).sum
  { trace
    arch := archOf regs
    callCnt
    memCnt
    header := { steps := total, calls := callCnt, mem := memCnt }
    filteredIndices := List.range trace.length }

-- What stops the loading is reported in the status line and leaves the page as it is by then.
def load (layout : Layout) (db : TraceDb) : Handled :=
  match getTrace db {} with
  | .error _ => { viewer := {} }
  | .ok response =>
      let trace := response.entries.map Entry.ofTrace
      match trace with
      | [] => { viewer := { trace } }
      | first :: _ =>
          match parseJson first.regs with
          | none | some .null => { viewer := { trace } }
          | some regs =>
              let render := (opened trace response.total regs).initVirtualScroll browser layout
              let shown := render.viewer.showStep browser layout 0
              { shown with renders := render :: shown.renders }

-- What `exportTrace` writes.
structure Export where
  architecture : String
  totalSteps : Nat
  calls : Nat
  memoryChanges : Nat
  trace : List Entry

def Viewer.exportTrace (v : Viewer) : Export where
  architecture := v.arch
  totalSteps := v.trace.length
  calls := v.callCnt
  memoryChanges := v.memCnt
  trace := v.trace

end Load

section Events

inductive Key where
  | char (c : Char)
  | arrowLeft | arrowRight | home | endKey | pageUp | pageDown | escape
  | other
deriving DecidableEq, Repr

-- The element that has the keyboard: one of the two inputs, or none of them.
inductive Target where
  | page | searchInput | jumpInput
deriving DecidableEq, Repr

variable (browser : Browser)

-- In an input, Escape empties it and filters again by what the search box then holds.
def Viewer.keydown (v : Viewer) (layout : Layout) (target : Target) (key : Key) : Handled :=
  if v.helpVisible then
    if key = .escape ∨ key = .char '?' then { viewer := v.toggleHelp } else { viewer := v }
  else
    match target with
    | .searchInput =>
        if key = .escape then { v with searchInput := "" }.applyFilter browser layout
        else { viewer := v }
    | .jumpInput => if key = .escape then v.applyFilter browser layout else { viewer := v }
    | .page =>
        match key with
        | .arrowLeft | .char 'h' => v.stepBy browser layout (-1)
        | .arrowRight | .char 'l' => v.stepBy browser layout 1
        | .home | .char 'g' => v.jumpTo browser layout 0
        | .endKey | .char 'G' => v.jumpTo browser layout (v.trace.length - 1)
        | .pageUp => v.stepBy browser layout (-50)
        | .pageDown => v.stepBy browser layout 50
        | .char 'c' => v.findNext browser layout .call
        | .char 'C' => v.findPrev browser layout .call
        | .char 'r' => v.findNext browser layout .ret
        | .char 'R' => v.findPrev browser layout .ret
        | .char 'm' => v.findNext browser layout .mem
        | .char 'M' => v.findPrev browser layout .mem
        | .char '?' => { viewer := v.toggleHelp }
        | _ => { viewer := v }

inductive Action where
  | scroll
  | search (text : String)
  | clickRow (k : Nat)
  | step (d : Int)
  | jump (i : Int)
  | jumpToLast
  | go (s : Double)
  | find (type : FindType)
  | help
  | key (target : Target) (key : Key)
deriving DecidableEq

-- Something that happens on the page, with what the page answers while it is handled.
structure Event where
  action : Action
  layout : Layout

def handle (v : Viewer) (event : Event) : Handled :=
  let layout := event.layout
  match event.action with
  | .scroll =>
      if v.listening then
        let render := v.rendered browser layout.scrollTop layout.clientHeight
        { viewer := render.viewer, renders := [render] }
      else
        { viewer := v }
  | .search text => { v with searchInput := text }.applyFilter browser layout
  | .clickRow k =>
      match v.rows[k]? with
      | some row => v.showStep browser layout row.i
      | none => { viewer := v }
  | .step d => v.stepBy browser layout d
  | .jump i => v.jumpTo browser layout i
  | .jumpToLast => v.jumpTo browser layout (v.trace.length - 1)
  | .go s => v.goToStep browser layout s
  | .find type => v.findNext browser layout type
  | .help => { viewer := v.toggleHelp }
  | .key target key => v.keydown browser layout target key

def next (v : Viewer) (event : Event) : Viewer :=
  (handle browser v event).viewer

end Events

end Tdb.Web
