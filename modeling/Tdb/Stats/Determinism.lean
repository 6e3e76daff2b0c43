import Mathlib.Data.List.Dedup
import Tdb.Library.Ranking
import Tdb.Stats.Lemmas

namespace Tdb.Stats

open Std Tdb.Library Tdb.Storage

section Counting

variable {κ : Type} [Ord κ] [TransOrd κ] [LawfulEqOrd κ] [DecidableEq κ]

theorem getElem?_bump (counts : ExtTreeMap κ Nat) (key k : κ) :
    (bump counts key)[k]? = if key = k then some (counts[k]?.getD 0 + 1) else counts[k]? := by
  unfold bump
  rw [OrderedMap.getElem?_insert_eq]
  split
  · rename_i h
    subst h
    rw [ExtTreeMap.getD_eq_getD_getElem?]
  · rfl

theorem getElem?_foldl_bump (keys : List κ) (k : κ) :
    (keys.foldl bump ∅)[k]? = if k ∈ keys then some (keys.count k) else none := by
  induction keys using List.reverseRecOn with
  | nil => simp
  | append_singleton keys last ih =>
      rw [List.foldl_append, List.foldl_cons, List.foldl_nil, getElem?_bump, ih]
      by_cases hlast : last = k
      · subst hlast
        by_cases hmem : last ∈ keys
        · simp [hmem]
        · simp [hmem, List.count_eq_zero_of_not_mem hmem]
      · simp [hlast, Ne.symm hlast]

-- The pairs of a counting map: each key that occurred, with how often it did.
theorem toList_foldl_bump_perm (keys : List κ) :
    (keys.foldl bump ∅).toList.Perm (keys.dedup.map fun k => (k, keys.count k)) := by
  have hnodup : (keys.dedup.map fun k => (k, keys.count k)).Nodup :=
    keys.nodup_dedup.map fun a b h => (Prod.mk.inj h).1
  refine (List.perm_ext_iff_of_nodup (OrderedMap.toList_keysAscend _).nodup hnodup).mpr ?_
  rintro ⟨k, n⟩
  rw [ExtTreeMap.mem_toList_iff_getElem?_eq_some, getElem?_foldl_bump]
  by_cases hmem : k ∈ keys
  · simp [hmem, eq_comm]
  · simp [hmem]

end Counting

section Tally

variable (entries : List TraceEntry) (tally : Tally)

theorem foldl_add_addrCounts :
    (entries.foldl Tally.add tally).addrCounts =
      (entries.map TraceEntry.pc).foldl bump tally.addrCounts := by
  induction entries generalizing tally with
  | nil => rfl
  | cons e rest ih => exact ih (tally.add e)

theorem foldl_add_insnCounts :
    (entries.foldl Tally.add tally).insnCounts =
      (entries.map mnemonicOf).foldl bump tally.insnCounts := by
  induction entries generalizing tally with
  | nil => rfl
  | cons e rest ih => exact ih (tally.add e)

end Tally

-- The addresses and the mnemonics of a trace, once for every entry.
def addresses (db : TraceDb) : List UInt64 :=
  db.getAll.map TraceEntry.pc

def mnemonics (db : TraceDb) : List String :=
  db.getAll.map mnemonicOf

def addrPairs (db : TraceDb) : List (UInt64 × Nat) :=
  (db.getAll.foldl Tally.add {}).addrCounts.toList

def insnPairs (db : TraceDb) : List (String × Nat) :=
  (db.getAll.foldl Tally.add {}).insnCounts.toList

section Pairs

variable (db : TraceDb)

theorem addrPairs_perm :
    (addrPairs db).Perm ((addresses db).dedup.map fun a => (a, (addresses db).count a)) := by
  unfold addrPairs
  rw [foldl_add_addrCounts]
  exact toList_foldl_bump_perm (addresses db)

theorem insnPairs_perm :
    (insnPairs db).Perm ((mnemonics db).dedup.map fun m => (m, (mnemonics db).count m)) := by
  unfold insnPairs
  rw [foldl_add_insnCounts]
  exact toList_foldl_bump_perm (mnemonics db)

theorem mem_addrPairs_iff (a : UInt64) (n : Nat) :
    (a, n) ∈ addrPairs db ↔ a ∈ addresses db ∧ (addresses db).count a = n := by
  rw [(addrPairs_perm db).mem_iff]
  simp

theorem mem_insnPairs_iff (m : String) (n : Nat) :
    (m, n) ∈ insnPairs db ↔ m ∈ mnemonics db ∧ (mnemonics db).count m = n := by
  rw [(insnPairs_perm db).mem_iff]
  simp

theorem above_insnPairs (m : String) :
    Ranking.above Prod.snd (insnPairs db) (m, (mnemonics db).count m) =
      (mnemonics db).dedup.countP fun other =>
        (mnemonics db).count m < (mnemonics db).count other := by
  rw [Ranking.above_perm Prod.snd (insnPairs_perm db), Ranking.above, List.countP_map]
  rfl

theorem analyze_instructionCounts (order : HashOrder) :
    (TraceStats.analyze order db).instructionCounts =
      (Ranking.sort Prod.snd (order.insns (insnPairs db))).take 20 := rfl

theorem maxByCount_eq {κ : Type} (pairs : List (κ × Nat)) :
    maxByCount pairs = Ranking.maxBy Prod.snd pairs := by
  unfold maxByCount Ranking.maxBy
  congr 1
  funext best pair
  cases best <;> rfl

theorem analyze_mostExecutedAddress (order : HashOrder) :
    (TraceStats.analyze order db).mostExecutedAddress =
      Ranking.maxBy Prod.snd (order.addrs (addrPairs db)) :=
  maxByCount_eq _

-- All that the order of the maps has a say in.
theorem analyze_eq (order : HashOrder) :
    TraceStats.analyze order db =
      { TraceStats.analyze .inKeyOrder db with
        instructionCounts := (Ranking.sort Prod.snd (order.insns (insnPairs db))).take 20
        mostExecutedAddress := Ranking.maxBy Prod.snd (order.addrs (addrPairs db)) } := by
  rw [← analyze_mostExecutedAddress]
  rfl

end Pairs

-- No two addresses tie for the most executed one, and no two mnemonics tie for a place
-- among the twenty that are kept.
structure TiesSettled (db : TraceDb) : Prop where
  addresses : ∀ a ∈ addresses db, ∀ b ∈ addresses db,
    (∀ c, (addresses db).count c ≤ (addresses db).count a) →
      (addresses db).count a = (addresses db).count b → a = b
  mnemonics : ∀ m ∈ mnemonics db, ∀ m' ∈ mnemonics db,
    (mnemonics db).count m = (mnemonics db).count m' →
      ((mnemonics db).dedup.countP fun other =>
        (mnemonics db).count m < (mnemonics db).count other) < 20 → m = m'

section Orders

-- The iteration orders that bring one pair of a map to the end that decides a tie.
def HashOrder.backAddr (p : UInt64 × Nat) : HashOrder :=
  { HashOrder.inKeyOrder with addrs := Ranking.toBack p, addrs_perm := Ranking.toBack_perm p }

def HashOrder.frontInsn (p : String × Nat) : HashOrder :=
  { HashOrder.inKeyOrder with insns := Ranking.toFront p, insns_perm := Ranking.toFront_perm p }

variable {db : TraceDb}

theorem analyze_eq_of_tiesSettled (h : TiesSettled db) (order order' : HashOrder) :
    TraceStats.analyze order db = TraceStats.analyze order' db := by
  have hinsns : (Ranking.sort Prod.snd (order.insns (insnPairs db))).take 20 =
      (Ranking.sort Prod.snd (order'.insns (insnPairs db))).take 20 := by
    refine Ranking.take_sort_eq
      ((order.insns_perm (insnPairs db)).trans (order'.insns_perm (insnPairs db)).symm) ?_
    rintro ⟨m, n⟩ hm ⟨m', n'⟩ hm' (rfl : n = n') habove
    rw [Ranking.above_perm Prod.snd (order.insns_perm _)] at habove
    obtain ⟨hmem, rfl⟩ := (mem_insnPairs_iff db _ _).mp ((order.insns_perm _).mem_iff.mp hm)
    obtain ⟨hmem', hcount⟩ := (mem_insnPairs_iff db _ _).mp ((order.insns_perm _).mem_iff.mp hm')
    rw [above_insnPairs] at habove
    rw [h.mnemonics m hmem m' hmem' hcount.symm habove]
  have haddr : Ranking.maxBy Prod.snd (order.addrs (addrPairs db)) =
      Ranking.maxBy Prod.snd (order'.addrs (addrPairs db)) := by
    refine Ranking.maxBy_eq_of_perm Prod.snd
      ((order.addrs_perm (addrPairs db)).trans (order'.addrs_perm (addrPairs db)).symm) ?_
    rintro ⟨a, n⟩ ha ⟨b, n'⟩ hb hamax hbmax
    obtain rfl : n = n' := Nat.le_antisymm (hbmax _ ha) (hamax _ hb)
    obtain ⟨hmem, rfl⟩ := (mem_addrPairs_iff db _ _).mp ((order.addrs_perm _).mem_iff.mp ha)
    obtain ⟨hmem', hcount⟩ := (mem_addrPairs_iff db _ _).mp ((order.addrs_perm _).mem_iff.mp hb)
    have hmost : ∀ c, (addresses db).count c ≤ (addresses db).count a := by
      intro c
      by_cases hc : c ∈ addresses db
      · exact hamax (c, (addresses db).count c)
          ((order.addrs_perm _).mem_iff.mpr ((mem_addrPairs_iff db c _).mpr ⟨hc, rfl⟩))
      · rw [List.count_eq_zero_of_not_mem hc]
        exact Nat.zero_le _
    rw [h.addresses a hmem b hmem' hmost hcount.symm]
  rw [analyze_eq db order, analyze_eq db order', hinsns, haddr]

-- A stable sort by the count alone and an arg-max leave ties to the order of the maps.
theorem analyze_orders_agree_iff (db : TraceDb) :
    (∀ order order', TraceStats.analyze order db = TraceStats.analyze order' db) ↔
      TiesSettled db := by
  constructor
  · intro hsame
    constructor
    · intro a ha b hb hmost hcount
      have hpair := (mem_addrPairs_iff db a _).mpr ⟨ha, rfl⟩
      have hpair' := (mem_addrPairs_iff db b _).mpr ⟨hb, hcount.symm⟩
      have hmax : ∀ p ∈ addrPairs db, p.2 ≤ (addresses db).count a := by
        rintro ⟨c, n⟩ hp
        rw [← ((mem_addrPairs_iff db c n).mp hp).2]
        exact hmost c
      have hboth := congrArg TraceStats.mostExecutedAddress
        (hsame (.backAddr (a, (addresses db).count a)) (.backAddr (b, (addresses db).count a)))
      rw [analyze_mostExecutedAddress, analyze_mostExecutedAddress] at hboth
      simp only [HashOrder.backAddr, Ranking.maxBy_toBack Prod.snd hpair hmax,
        Ranking.maxBy_toBack Prod.snd hpair' hmax, Option.some.injEq, Prod.mk.injEq] at hboth
      exact hboth.1
    · intro m hm m' hm' hcount habove
      have hpair := (mem_insnPairs_iff db m _).mpr ⟨hm, rfl⟩
      have hpair' := (mem_insnPairs_iff db m' _).mpr ⟨hm', hcount.symm⟩
      rw [← above_insnPairs] at habove
      have hfirst := Ranking.getElem?_sort_toFront Prod.snd hpair
      have hfirst' := Ranking.getElem?_sort_toFront Prod.snd hpair'
      have hsamePlace : Ranking.above Prod.snd (insnPairs db) (m', (mnemonics db).count m) =
          Ranking.above Prod.snd (insnPairs db) (m, (mnemonics db).count m) :=
        Ranking.above_congr Prod.snd _ rfl
      rw [hsamePlace] at hfirst'
      have hboth := congrArg (fun stats => stats.instructionCounts[Ranking.above Prod.snd
          (insnPairs db) (m, (mnemonics db).count m)]?)
        (hsame (.frontInsn (m, (mnemonics db).count m)) (.frontInsn (m', (mnemonics db).count m)))
      simp only [analyze_instructionCounts, HashOrder.frontInsn, List.getElem?_take, habove,
        if_true, hfirst, hfirst', Option.some.injEq, Prod.mk.injEq] at hboth
      exact hboth.1
  · intro h order order'
    exact analyze_eq_of_tiesSettled h order order'

-- Two instructions that ran once each, at two addresses.
theorem analyze_tied_differs :
    ¬ ∀ (db : TraceDb) (order order' : HashOrder),
      TraceStats.analyze order db = TraceStats.analyze order' db := by
  intro h
  let db := TraceDb.ofInserts "trace.tdb"
    [⟨0, 0x1000, [0x1f, 0x20, 0x03, 0xd5], "nop", "\x7b\x7d", []⟩,
      ⟨1, 0x1004, [0xe0, 0x03, 0x01, 0xaa], "mov x0, x1", "\x7b\x7d", []⟩]
  have hmost := congrArg TraceStats.mostExecutedAddress
    (h db .inKeyOrder (.backAddr (0x1000, 1)))
  revert hmost
  decide +kernel

end Orders

end Tdb.Stats
