import Tdb.Tui.Detail
import Tdb.Tui.Registers

namespace Tdb.Tui

open Tdb.Library Tdb.Storage Tdb.Stats

-- A line of the memory panel: a remark, or a changed byte with its address, its two values and
-- the character that it stands for.
inductive MemoryLine where
  | remark (text : String)
  | change (addr oldVal newVal shown : String)
deriving DecidableEq, Repr

structure Memory where
  title : String
  lines : List MemoryLine
deriving DecidableEq, Repr

def hexByte (b : UInt8) : String :=
  String.ofList (Hex.fixed 2 b.toNat)

def memoryLine (c : MemChange) : MemoryLine :=
  let ch := if 0x20 ≤ c.newVal ∧ c.newVal ≤ 0x7E then Char.ofUInt8 c.newVal else '.'
  .change (" 0x" ++ String.ofList (Hex.padded 12 c.addr.toNat) ++ " ") (hexByte c.oldVal)
    (hexByte c.newVal) s!" '{ch}'"

def renderMemory (app : App) : Memory :=
  match app.trace[app.current]? with
  | some entry =>
      { title := s!" Memory ({entry.memChanges.length}) "
        lines :=
          if entry.memChanges.isEmpty then [.remark "  no changes"]
          else entry.memChanges.map memoryLine }
  | none => { title := " Memory (0) ", lines := [.remark "  no data"] }

structure Header where
  traceFile : String
  steps : String
  arch : String
  position : String
  percent : String
  calls : String
  mem : String
deriving DecidableEq, Repr

-- The lines that the panels get of the current entry itself, and of nothing around it. The
-- terminal shows as many of them as fit, from the first one on.
structure Screen where
  pc : String
  insn : String
  bytes : String
  step : String
  registers : List (String × String)
  memory : Memory
deriving DecidableEq, Repr

-- `none` when there is no entry to show.
def screen (build : Build) (platform : Platform) (keys : KeyOrder) (app : App) :
    Except Panic (Option Screen) :=
  match renderDetail build platform app with
  | .error panic => .error panic
  | .ok none => .ok none
  | .ok (some detail) =>
      .ok (some
        { pc := detail.pc
          insn := detail.insn
          bytes := detail.bytes
          step := detail.step
          registers := (renderRegisters platform keys app).lines.map fun l => (l.name, l.text)
          memory := renderMemory app })

end Tdb.Tui
