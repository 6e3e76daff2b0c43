import Tdb.Stats

namespace Tdb.Server

open Tdb.Library Tdb.Storage Tdb.Stats

-- The query string of GET /api/trace; the source calls the second bound `end`.
structure RangeQuery where
  start : Option Nat := none
  finish : Option Nat := none

structure TraceResponse where
  entries : List TraceEntry
  total : Nat
deriving DecidableEq, Repr

structure CountResponse where
  count : Nat
deriving DecidableEq, Repr

inductive StatusCode where
  | notFound
deriving DecidableEq, Repr

def getTrace (db : TraceDb) (range : RangeQuery) : Except Panic TraceResponse :=
  let total := db.count
  match range.start, range.finish with
  | some start, some finish =>
      match db.getRange start finish with
      | .error panic => .error panic
      | .ok entries => .ok { entries, total }
  | _, _ => .ok { entries := db.getAll, total }

def getStep (db : TraceDb) (step : Nat) : Except StatusCode TraceEntry :=
  match db.get step with
  | some entry => .ok entry
  | none => .error .notFound

def getCount (db : TraceDb) : CountResponse :=
  { count := db.count }

def getStats (order : HashOrder) (db : TraceDb) : TraceStats :=
  TraceStats.analyze order db

end Tdb.Server
