import Tdb.Tui.Theorems
import Tdb.Web.Lemmas

namespace Tdb

open Tdb.Library Tdb.Storage Tdb.Stats Tdb.Tui Tdb.Web

-- The keys that both viewers bind to navigation.
inductive NavKey where
  | h | left | l | right | g | home | bigG | endKey | pageUp | pageDown
  | c | bigC | r | bigR | m | bigM
deriving DecidableEq, Repr

namespace NavKey

def code : NavKey → KeyCode
  | h => .char 'h'
  | left => .left
  | l => .char 'l'
  | right => .right
  | g => .char 'g'
  | home => .home
  | bigG => .char 'G'
  | endKey => .endKey
  | pageUp => .pageUp
  | pageDown => .pageDown
  | c => .char 'c'
  | bigC => .char 'C'
  | r => .char 'r'
  | bigR => .char 'R'
  | m => .char 'm'
  | bigM => .char 'M'

def key : NavKey → Key
  | h => .char 'h'
  | left => .arrowLeft
  | l => .char 'l'
  | right => .arrowRight
  | g => .char 'g'
  | home => .home
  | bigG => .char 'G'
  | endKey => .endKey
  | pageUp => .pageUp
  | pageDown => .pageDown
  | c => .char 'c'
  | bigC => .char 'C'
  | r => .char 'r'
  | bigR => .char 'R'
  | m => .char 'm'
  | bigM => .char 'M'

end NavKey

-- The two viewers on one trace, with the same keys pressed in both.
structure Viewers where
  app : App
  viewer : Viewer

def Viewers.start (platform : Platform) (browser : Browser) (order : HashOrder) (layout : Layout)
    (traceFile : String) (db : TraceDb) : Viewers where
  app := App.new platform order db traceFile
  viewer := (load browser layout db).viewer

def press (platform : Platform) (browser : Browser) (s : Viewers) (input : NavKey × Layout) :
    Flow Viewers Panic :=
  let viewer := Web.next browser s.viewer ⟨.key .page input.1.key, input.2⟩
  match Tui.handle platform s.app (.key input.1.code) with
  | .next app => .next { app, viewer }
  | .stop app panic => .stop { app, viewer } panic

section Moves

-- What a navigation key asks for.
inductive Move where
  | shift (d : Int)
  | first
  | last
  | next (what : What)
  | prev (what : What)
deriving DecidableEq, Repr

def NavKey.move : NavKey → Move
  | h | left => .shift (-1)
  | l | right => .shift 1
  | g | home => .first
  | bigG | endKey => .last
  | pageUp => .shift (-50)
  | pageDown => .shift 50
  | c => .next .call
  | bigC => .prev .call
  | r => .next .ret
  | bigR => .prev .ret
  | m => .next .mem
  | bigM => .prev .mem

def found (entries : List TraceEntry) (current : Nat) (what : What) (indices : List Nat) : Nat :=
  (indices.find? fun i => entries[i]?.any fun e => matchesFilter e what).getD current

-- Where a move goes, when `moved d` is where moving by `d` goes.
def Move.target (moved : Int → Nat) (entries : List TraceEntry) (current : Nat) : Move → Nat
  | .shift d => moved d
  | .first => 0
  | .last => entries.length - 1
  | .next what =>
      found entries current what (List.range' (current + 1) (entries.length - (current + 1)))
  | .prev what => found entries current what (List.range current).reverse

end Moves

section Tui

open App

variable {app : App} {platform : Platform}

-- A navigation key puts the cursor somewhere and leaves the trace and the mode alone.
structure Placed (app : App) (place : Nat) (app' : App) : Prop where
  trace_eq : app'.trace = app.trace
  mode_eq : app'.mode = app.mode
  current_eq : app'.current = place

theorem select_placed (platform : Platform) {idx : Nat} (h : idx < app.trace.length) :
    ∃ app', app.select platform idx = .ok app' ∧ Placed app idx app' := by
  obtain ⟨regs, hsel⟩ := select_of_lt platform h
  exact ⟨_, hsel, by simp, by simp, by simp⟩

end Tui

section Web

open Viewer

variable {v : Viewer} {entries : List TraceEntry}

def findTypeOf : What → FindType
  | .call => .call
  | .ret => .ret
  | .mem => .mem

-- The two scripts look for the same things in an entry.
theorem isOf_ofTrace (e : TraceEntry) (what : What) :
    (Entry.ofTrace e).isOf (findTypeOf what) = matchesFilter e what := by
  cases what with
  | call => rfl
  | ret => rfl
  | mem =>
      unfold Entry.isOf findTypeOf Entry.hasMem Entry.ofTrace matchesFilter
      simp

structure Shown (v : Viewer) (place : Nat) (v' : Viewer) : Prop where
  trace_eq : v'.trace = v.trace
  helpVisible_eq : v'.helpVisible = v.helpVisible
  curr_eq : v'.curr = place

theorem showStep_shown (browser : Browser) (layout : Layout) {i : Nat} (hi : i < v.trace.length) :
    Shown v i (v.showStep browser layout i).viewer := by
  have hselected := showStep_selected browser v layout i
  refine ⟨hselected.trace_eq, hselected.helpVisible_eq, ?_⟩
  rw [hselected.curr_eq, if_pos (by omega), Int.toNat_natCast]

end Web

section Agreement

variable {platform : Platform} {browser : Browser}

end Agreement

end Tdb
