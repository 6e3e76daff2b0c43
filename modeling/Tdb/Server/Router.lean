import Tdb.Server
import Tdb.Storage.Refinement
import Tdb.Storage.SaveLoad

namespace Tdb.Server

open Tdb.Library Tdb.Storage Tdb.Stats

section Routes

-- A request as the framework hands it to the handler of its route: with the bounds of its query
-- and the number in its path taken out.
inductive Request where
  | index
  | trace (range : RangeQuery)
  | count
  | step (step : Nat)
  | stats

-- What a handler gives back, before it is written as a body.
inductive Response where
  | html
  | trace (response : TraceResponse)
  | count (response : CountResponse)
  | entry (entry : TraceEntry)
  | stats (stats : TraceStats)
  | status (code : StatusCode)

def createRouter (order : HashOrder) (db : TraceDb) : Request → Except Panic Response
  | .index => .ok .html
  | .trace range =>
      match getTrace db range with
      | .error panic => .error panic
      | .ok response => .ok (.trace response)
  | .count => .ok (.count (getCount db))
  | .step step =>
      match getStep db step with
      | .ok entry => .ok (.entry entry)
      | .error code => .ok (.status code)
  | .stats => .ok (.stats (getStats order db))

def pageQuery (page : Nat × Nat) : RangeQuery where
  start := some page.1
  finish := some page.2

theorem createRouter_step (order : HashOrder) (db : TraceDb) (s : Nat) :
    createRouter order db (.step s) = .ok (match db.get s with
      | some entry => .entry entry
      | none => .status .notFound) := by
  unfold createRouter getStep
  dsimp only
  cases db.get s <;> rfl

-- Only bounds that are the wrong way round are not answered.
theorem getTrace_panics_iff (db : TraceDb) (range : RangeQuery) :
    (∃ panic, getTrace db range = .error panic) ↔
      ∃ page, range = pageQuery page ∧ page.2 < page.1 := by
  obtain ⟨start, finish⟩ := range
  unfold getTrace pageQuery
  cases start with
  | none => simp
  | some start =>
      cases finish with
      | none => simp
      | some finish =>
          have hok := TraceDb.getRange_isOk_iff db start finish
          dsimp only
          cases hget : db.getRange start finish with
          | error panic =>
              rw [hget] at hok
              have hinverted : ¬start ≤ finish := fun hle => by simpa using hok.mpr hle
              exact iff_of_true ⟨panic, rfl⟩ ⟨(start, finish), rfl, Nat.lt_of_not_le hinverted⟩
          | ok entries =>
              rw [hget] at hok
              have hle := hok.mp ⟨entries, rfl⟩
              refine iff_of_false (by simp) ?_
              rintro ⟨page, hpage, hlt⟩
              cases hpage
              omega

theorem createRouter_panics_iff (order : HashOrder) (db : TraceDb) (request : Request) :
    (∃ panic, createRouter order db request = .error panic) ↔
      ∃ page, request = .trace (pageQuery page) ∧ page.2 < page.1 := by
  cases request with
  | trace range =>
      have htrace : (∃ panic, createRouter order db (.trace range) = .error panic) ↔
          ∃ panic, getTrace db range = .error panic := by
        unfold createRouter
        dsimp only
        cases getTrace db range <;> simp
      rw [htrace, getTrace_panics_iff]
      simp
  | step s =>
      rw [createRouter_step]
      simp
  | _ => exact iff_of_false (by simp [createRouter]) (by simp)

end Routes

section Pages

variable {db : TraceDb}

-- Consecutive pages of steps, by the last step of each.
def pagesFrom : Nat → List Nat → List (Nat × Nat)
  | _, [] => []
  | start, last :: rest => (start, last) :: pagesFrom (last + 1) rest

-- What the pages hold one after another is what a single page over all of them holds.
theorem getRange_pages {start : Nat} {lasts : List Nat} (hne : lasts ≠ [])
    (hascends : (start :: lasts.map Nat.succ).Pairwise (· < ·)) :
    ∃ parts, List.Forall₂ (fun page part => db.getRange page.1 page.2 = .ok part)
        (pagesFrom start lasts) parts ∧
      db.getRange start (lasts.getLast hne) = .ok parts.flatten := by
  induction lasts generalizing start with
  | nil => exact absurd rfl hne
  | cons last rest ih =>
      rw [List.map_cons, List.pairwise_cons] at hascends
      have hfirst : start ≤ last := Nat.lt_succ_iff.mp (hascends.1 _ (List.mem_cons_self ..))
      by_cases hrest : rest = []
      · subst hrest
        obtain ⟨part, hpart⟩ := (TraceDb.getRange_isOk_iff db start last).mpr hfirst
        exact ⟨[part], .cons hpart .nil, by simpa using hpart⟩
      · obtain ⟨parts, hparts, hwhole⟩ := ih hrest hascends.2
        rw [List.getLast_cons hrest]
        have hlater : last < rest.getLast hrest := by
          have hmem : (rest.getLast hrest).succ ∈ rest.map Nat.succ :=
            List.mem_map_of_mem (List.getLast_mem hrest)
          exact Nat.lt_of_succ_lt_succ ((List.pairwise_cons.mp hascends.2).1 _ hmem)
        obtain ⟨left, right, hleft, hright, hboth⟩ :=
          @TraceDb.getRange_append db _ _ _ hfirst hlater
        rw [hright, Except.ok.injEq] at hwhole
        refine ⟨left :: parts, .cons hleft hparts, ?_⟩
        rw [hboth, hwhole, List.flatten_cons]

theorem getRange_all (hkeys : db.KeysAreSteps) {finish : Nat}
    (hcover : ∀ e ∈ db.getAll, e.step ≤ finish) : db.getRange 0 finish = .ok db.getAll := by
  obtain ⟨found, hfound⟩ := (TraceDb.getRange_isOk_iff db 0 finish).mpr (Nat.zero_le _)
  have hdistinct : ∀ {a b : TraceEntry}, a.step < b.step → a ≠ b := by
    rintro a _ hlt rfl
    exact absurd hlt (lt_irrefl _)
  rw [hfound]
  congr 1
  refine List.Perm.eq_of_pairwise (fun a b _ _ hab hba => absurd (hab.trans hba) (lt_irrefl _))
    (hkeys.getRange_stepsAscend hfound) hkeys.getAll_stepsAscend ?_
  refine (List.perm_ext_iff_of_nodup ?_ ?_).mpr fun e => ?_
  · exact (hkeys.getRange_stepsAscend hfound).imp hdistinct
  · exact hkeys.getAll_stepsAscend.imp hdistinct
  · rw [hkeys.mem_getRange_iff hfound, hkeys.mem_getAll_iff]
    refine and_iff_left_of_imp fun he => ⟨Nat.zero_le _, hcover e ?_⟩
    exact (hkeys.mem_getAll_iff e).mpr he

end Pages

section Serves

-- What a client of the server can rely on: the size, each step by its number, and the whole trace
-- at once or in pages of any sizes. Of the map it is known that a range panics in which the start
-- is behind the end; whether it does in an empty map is left open.
structure Serves (order : HashOrder) (db : TraceDb) : Prop where
  whole : ∀ range : RangeQuery, range.start = none ∨ range.finish = none →
    createRouter order db (.trace range) =
      .ok (.trace { entries := db.getAll, total := db.getAll.length })
  count : createRouter order db .count = .ok (.count { count := db.getAll.length })
  step : ∀ s, createRouter order db (.step s) = .ok (match db.getAll.find? fun e => e.step = s with
    | some entry => .entry entry
    | none => .status .notFound)
  pages : ∀ lasts, (hne : lasts ≠ []) → lasts.Pairwise (· < ·) →
    (∀ e ∈ db.getAll, e.step ≤ lasts.getLast hne) →
      ∃ parts, List.Forall₂ (fun page part => createRouter order db (.trace (pageQuery page)) =
          .ok (.trace { entries := part, total := db.getAll.length }))
        (pagesFrom 0 lasts) parts ∧ parts.flatten = db.getAll
  panics_iff : db.getAll ≠ [] → ∀ request,
    (∃ panic, createRouter order db request = .error panic) ↔
      ∃ page, request = .trace (pageQuery page) ∧ page.2 < page.1

variable {order : HashOrder} {db : TraceDb}

theorem find?_getAll (hkeys : db.KeysAreSteps) (s : Nat) :
    (db.getAll.find? fun e => e.step = s) = db.get s := by
  refine Option.ext fun e => ?_
  rw [List.find?_eq_some_iff_append]
  constructor
  · rintro ⟨hs, before, after, hsplit, _⟩
    have hmem : e ∈ db.getAll := by
      rw [hsplit]
      simp
    rw [← of_decide_eq_true hs]
    exact (hkeys.mem_getAll_iff e).mp hmem
  · intro hget
    have hstep := hkeys s e hget
    subst hstep
    obtain ⟨before, after, hsplit⟩ := List.append_of_mem ((hkeys.mem_getAll_iff e).mpr hget)
    refine ⟨decide_eq_true rfl, before, after, hsplit, fun other hother => ?_⟩
    have hascends := hkeys.getAll_stepsAscend
    rw [hsplit, List.pairwise_append] at hascends
    have hlt := hascends.2.2 other hother e (List.mem_cons_self ..)
    simpa using hlt.ne

theorem createRouter_serves (order : HashOrder) (hkeys : db.KeysAreSteps) : Serves order db where
  whole range hopen := by
    obtain ⟨start, finish⟩ := range
    unfold createRouter getTrace
    rw [TraceDb.length_getAll]
    rcases hopen with rfl | rfl
    · rfl
    · cases start <;> rfl
  count := by
    rw [TraceDb.length_getAll]
    rfl
  step s := by
    rw [find?_getAll hkeys s]
    exact createRouter_step order db s
  pages lasts hne hascends hcover := by
    have hchain : (0 :: lasts.map Nat.succ).Pairwise (· < ·) := by
      rw [List.pairwise_cons, List.pairwise_map]
      refine ⟨fun n hn => ?_, hascends.imp Nat.succ_lt_succ⟩
      obtain ⟨last, _, rfl⟩ := List.mem_map.mp hn
      exact Nat.succ_pos last
    obtain ⟨parts, hparts, hwhole⟩ := @getRange_pages db _ _ hne hchain
    rw [getRange_all hkeys hcover, Except.ok.injEq] at hwhole
    refine ⟨parts, hparts.imp fun page part hpart => ?_, hwhole.symm⟩
    unfold createRouter getTrace pageQuery
    dsimp only
    rw [hpart, TraceDb.length_getAll]
  panics_iff _ := createRouter_panics_iff order db

theorem createRouter_serves_sampleDb : Serves .inKeyOrder TraceDb.sampleDb :=
  createRouter_serves .inKeyOrder (TraceDb.ofInserts_keysAreSteps _ _)

end Serves

end Tdb.Server
