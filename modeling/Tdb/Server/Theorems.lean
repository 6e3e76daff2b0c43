import Tdb.Server
import Tdb.Storage.Lemmas

namespace Tdb.Server

open Tdb.Library Tdb.Storage

-- What a range request asks for: the stored entries between the bounds, each once and in
-- ascending step order, with the size of the whole trace.
def AnswersRange (db : TraceDb) (start finish : Nat) (response : TraceResponse) : Prop :=
  response.entries.Pairwise (fun a b => a.step < b.step) ∧
  (∀ e, e ∈ response.entries ↔ db.get e.step = some e ∧ start ≤ e.step ∧ e.step ≤ finish) ∧
  response.total = db.getAll.length

theorem getTrace_eq_ok_iff (db : TraceDb) (start finish : Nat) (response : TraceResponse) :
    getTrace db { start := some start, finish := some finish } = .ok response ↔
      ∃ entries, db.getRange start finish = .ok entries ∧ { entries, total := db.count } = response := by
  simp only [getTrace]
  cases db.getRange start finish <;> simp

theorem getTrace_answers {db : TraceDb} (hdb : db.KeysAreSteps) {start finish : Nat}
    {response : TraceResponse}
    (h : getTrace db { start := some start, finish := some finish } = .ok response) :
    AnswersRange db start finish response := by
  obtain ⟨entries, hrange, rfl⟩ := (getTrace_eq_ok_iff db start finish response).mp h
  exact ⟨hdb.getRange_stepsAscend hrange, hdb.mem_getRange_iff hrange, db.length_getAll.symm⟩

-- Bounds that are the wrong way round reach the map unchecked, and the map panics.
theorem getTrace_answers_iff (path : String) (history : List TraceEntry) (start finish : Nat) :
    (∃ response,
      getTrace (TraceDb.ofInserts path history) { start := some start, finish := some finish } =
        .ok response ∧ AnswersRange (TraceDb.ofInserts path history) start finish response) ↔
      start ≤ finish := by
  rw [← TraceDb.getRange_isOk_iff (TraceDb.ofInserts path history)]
  constructor
  · rintro ⟨response, h, _⟩
    obtain ⟨entries, hrange, _⟩ := (getTrace_eq_ok_iff _ start finish response).mp h
    exact ⟨entries, hrange⟩
  · rintro ⟨entries, hrange⟩
    have h := (getTrace_eq_ok_iff _ start finish _).mpr ⟨entries, hrange, rfl⟩
    exact ⟨_, h, getTrace_answers (TraceDb.ofInserts_keysAreSteps path history) h⟩

-- A request for /api/trace?start=7&end=3 on a trace of one entry.
theorem getTrace_inverted_panics :
    ¬ ∀ (path : String) (history : List TraceEntry) (start finish : Nat), ∃ response,
      getTrace (TraceDb.ofInserts path history) { start := some start, finish := some finish } =
        .ok response ∧ AnswersRange (TraceDb.ofInserts path history) start finish response := by
  intro h
  let nop : TraceEntry := ⟨0, 0x1000, [0x90], "nop", "\x7b\x7d", []⟩
  obtain ⟨response, hok, _⟩ := h "trace.tdb" [nop] 7 3
  have hpanic : getTrace (TraceDb.ofInserts "trace.tdb" [nop]) { start := some 7, finish := some 3 } =
      .error ⟨"range start is greater than range end in BTreeMap"⟩ := rfl
  rw [hpanic] at hok
  cases hok

end Tdb.Server
