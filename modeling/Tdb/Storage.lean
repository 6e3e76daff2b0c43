import Tdb.Library.OrderedMap

namespace Tdb.Storage

open Std Tdb.Library

structure MemChange where
  addr : UInt64
  oldVal : UInt8
  newVal : UInt8
deriving DecidableEq, Repr

-- `step` counts the entries one process holds in memory, so it is a Nat here;
-- the file format below is where its 64 bits matter.
structure TraceEntry where
  step : Nat
  pc : UInt64
  insnBytes : List UInt8
  insnText : String
  regs : String
  memChanges : List MemChange
deriving DecidableEq, Repr

structure TraceDb where
  entries : ExtTreeMap Nat TraceEntry
  path : String

namespace TraceDb

def new (path : String) : Except String TraceDb :=
  .ok { entries := ∅, path }

def insert (db : TraceDb) (entry : TraceEntry) : Except String TraceDb :=
  .ok { db with entries := db.entries.insert entry.step entry }

def get (db : TraceDb) (step : Nat) : Option TraceEntry :=
  db.entries[step]?

-- `BTreeMap::range` panics when the bounds are inverted.
def getRange (db : TraceDb) (start finish : Nat) : Except Panic (List TraceEntry) :=
  match OrderedMap.range db.entries start finish with
  | .error panic => .error panic
  | .ok pairs => .ok (pairs.map Prod.snd)

def getAll (db : TraceDb) : List TraceEntry :=
  db.entries.toList.map Prod.snd

def count (db : TraceDb) : Nat :=
  db.entries.size

-- The store after `new` and a history of inserts.
def ofInserts (path : String) (history : List TraceEntry) : TraceDb :=
  { entries := history.foldl (fun entries e => entries.insert e.step e) ∅, path }

end TraceDb

end Tdb.Storage
