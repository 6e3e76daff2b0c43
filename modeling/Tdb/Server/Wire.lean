import Tdb.Library.JsonText
import Tdb.Server.Theorems

namespace Tdb.Server

open Tdb.Library Tdb.Storage Tdb.Stats

-- The bodies of the answers: every structure is written with its fields in their order.
section Formats

def memChangeJson (c : MemChange) : Json Nat :=
  .obj [("addr", .num c.addr.toNat), ("old_val", .num c.oldVal.toNat),
    ("new_val", .num c.newVal.toNat)]

def memChange : Json.Format MemChange where
  toJson := memChangeJson
  wellNamed c := ⟨by simp, trivial, trivial, trivial, trivial⟩
  injective c d h := by
    obtain ⟨addr, oldVal, newVal⟩ := c
    obtain ⟨addr', oldVal', newVal'⟩ := d
    simpa [memChangeJson, UInt64.toNat_inj, UInt8.toNat_inj] using h

def byte : Json.Format UInt8 :=
  Json.Format.nat.via UInt8.toNat fun _ _ h => UInt8.toNat_inj.mp h

def address : Json.Format UInt64 :=
  Json.Format.nat.via UInt64.toNat fun _ _ h => UInt64.toNat_inj.mp h

def traceEntryJson (e : TraceEntry) : Json Nat :=
  .obj [("step", .num e.step), ("pc", address.toJson e.pc),
    ("insn_bytes", byte.list.toJson e.insnBytes), ("insn_text", .str e.insnText),
    ("regs", .str e.regs), ("mem_changes", memChange.list.toJson e.memChanges)]

def traceEntry : Json.Format TraceEntry where
  toJson := traceEntryJson
  wellNamed e := ⟨by simp, trivial, trivial, byte.list.wellNamed e.insnBytes, trivial, trivial,
    memChange.list.wellNamed e.memChanges, trivial⟩
  injective e e' h := by
    obtain ⟨step, pc, insnBytes, insnText, regs, memChanges⟩ := e
    obtain ⟨step', pc', insnBytes', insnText', regs', memChanges'⟩ := e'
    simpa [traceEntryJson, address.injective.eq_iff, byte.list.injective.eq_iff,
      memChange.list.injective.eq_iff] using h

def traceResponseJson (r : TraceResponse) : Json Nat :=
  .obj [("entries", traceEntry.list.toJson r.entries), ("total", .num r.total)]

def traceResponse : Json.Format TraceResponse where
  toJson := traceResponseJson
  wellNamed r := ⟨by simp, traceEntry.list.wellNamed r.entries, trivial, trivial⟩
  injective r r' h := by
    obtain ⟨entries, total⟩ := r
    obtain ⟨entries', total'⟩ := r'
    simpa [traceResponseJson, traceEntry.list.injective.eq_iff] using h

end Formats

-- How the derived structure of an answer is written is left to serde_json. Its text is some JSON
-- text of an object that has the fields under their names, the numbers whole.
def WritesJson (write : TraceResponse → String) : Prop :=
  ∀ r, Json.Padded (Json.Denotes Json.digits (traceResponseJson r)) (write r).toList

-- The compact text.
theorem text_writesJson : WritesJson traceResponse.text :=
  fun r => Json.Padded.of_core (traceResponse.denotes_text r)

theorem WritesJson.parse {write : TraceResponse → String} (h : WritesJson write) {ν : Type}
    (number : Decimal → ν) (r : TraceResponse) :
    Json.parse number (write r) = some ((traceResponseJson r).map (Json.whole number)) :=
  Json.parse_of_denotes (Json.wholeNumbers_digits number) _ (traceResponse.wellNamed r) (h r)

theorem WritesJson.injective {write : TraceResponse → String} (h : WritesJson write) :
    Function.Injective write := by
  intro r r' hsame
  have hread := h.parse Decimal.mantissa r
  have hread' := h.parse Decimal.mantissa r'
  have hwhole : ∀ n, Json.whole Decimal.mantissa n = n := fun _ => rfl
  rw [Json.map_eq_self hwhole] at hread hread'
  rw [hsame, hread', Option.some.injEq] at hread
  exact traceResponse.injective hread.symm

-- What GET /api/trace answers without a range.
def wholeTrace (db : TraceDb) : TraceResponse where
  entries := db.getAll
  total := db.count

theorem getTrace_whole (db : TraceDb) : getTrace db {} = .ok (wholeTrace db) := rfl

theorem wholeTrace_eq_iff (db db' : TraceDb) :
    wholeTrace db = wholeTrace db' ↔ db.getAll = db'.getAll := by
  unfold wholeTrace
  rw [TraceResponse.mk.injEq, ← TraceDb.length_getAll, ← TraceDb.length_getAll]
  constructor
  · rintro ⟨hall, _⟩
    exact hall
  · intro hall
    exact ⟨hall, by rw [hall]⟩

end Tdb.Server
