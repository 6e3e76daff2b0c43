import Tdb.Library.Text
import Tdb.Storage

namespace Tdb.Stats

open Std Tdb.Library Tdb.Storage

structure TraceStats where
  totalSteps : Nat
  uniqueAddresses : Nat
  instructionCounts : List (String × Nat)
  mostExecutedAddress : Option (UInt64 × Nat)
  callCount : Nat
  retCount : Nat
  jumpCount : Nat
  memChangeCount : Nat
deriving DecidableEq, Repr

def isBranchMnemonic (m : String) : Bool :=
  Text.startsWith m "j" ||
  (m == "b" || m == "br" || Text.startsWith m "b.") ||
  (m == "cbz" || m == "cbnz" || m == "tbz" || m == "tbnz")

def mnemonicOf (entry : TraceEntry) : String :=
  Text.firstWord entry.insnText

-- The order a HashMap iterates in is not fixed: some rearrangement of its pairs.
structure HashOrder where
  addrs : List (UInt64 × Nat) → List (UInt64 × Nat)
  insns : List (String × Nat) → List (String × Nat)
  addrs_perm : ∀ pairs, (addrs pairs).Perm pairs
  insns_perm : ∀ pairs, (insns pairs).Perm pairs

def HashOrder.inKeyOrder : HashOrder where
  addrs := id
  insns := id
  addrs_perm := List.Perm.refl
  insns_perm := List.Perm.refl

section Counts

variable {κ : Type} [Ord κ] [TransOrd κ]

-- `*counts.entry(key).or_insert(0) += 1`
def bump (counts : ExtTreeMap κ Nat) (key : κ) : ExtTreeMap κ Nat :=
  counts.insert key (counts.getD key 0 + 1)

-- `Iterator::max_by_key` on the count: the last of the largest.
def maxByCount (pairs : List (κ × Nat)) : Option (κ × Nat) :=
  pairs.foldl (fun best pair =>
    match best with
    | none => some pair
    | some b => if b.2 ≤ pair.2 then some pair else some b) none

-- The stable `sort_by(|a, b| b.1.cmp(&a.1))`.
def sortByCount (pairs : List (κ × Nat)) : List (κ × Nat) :=
  pairs.insertionSort fun a b => b.2 ≤ a.2

end Counts

structure Tally where
  addrCounts : ExtTreeMap UInt64 Nat := ∅
  insnCounts : ExtTreeMap String Nat := ∅
  callCount : Nat := 0
  retCount : Nat := 0
  jumpCount : Nat := 0
  memChangeCount : Nat := 0

def Tally.add (tally : Tally) (entry : TraceEntry) : Tally where
  addrCounts := bump tally.addrCounts entry.pc
  insnCounts := bump tally.insnCounts (mnemonicOf entry)
  callCount := if Text.contains entry.insnText "CALL" then tally.callCount + 1 else tally.callCount
  retCount := if Text.contains entry.insnText "RETURN" then tally.retCount + 1 else tally.retCount
  jumpCount :=
    if isBranchMnemonic (mnemonicOf entry) then tally.jumpCount + 1 else tally.jumpCount
  memChangeCount := tally.memChangeCount + entry.memChanges.length

def TraceStats.analyze (order : HashOrder) (db : TraceDb) : TraceStats :=
  let entries := db.getAll
  let tally := entries.foldl Tally.add {}
  { totalSteps := entries.length
    uniqueAddresses := tally.addrCounts.size
    instructionCounts := (sortByCount (order.insns tally.insnCounts.toList)).take 20
    mostExecutedAddress := maxByCount (order.addrs tally.addrCounts.toList)
    callCount := tally.callCount
    retCount := tally.retCount
    jumpCount := tally.jumpCount
    memChangeCount := tally.memChangeCount }

end Tdb.Stats
