import Tdb.Server.Wire
import Tdb.Web.Panels

namespace Tdb.Web

open Tdb.Library Tdb.Storage Tdb.Server

section Objects

-- The objects of the script that the typed values stand for.
def Change.value (c : Change) : Value :=
  .obj [("addr", .num c.addr), ("old_val", .num (.ofNat c.oldVal.toNat)),
    ("new_val", .num (.ofNat c.newVal.toNat))]

def Entry.value (e : Entry) : Value :=
  .obj [("step", .num e.step), ("pc", .num e.pc),
    ("insn_bytes", .arr (e.insnBytes.map fun b => .num (.ofNat b.toNat))),
    ("insn_text", .str e.insnText), ("regs", .str e.regs),
    ("mem_changes", .arr (e.memChanges.map Change.value))]

-- The body of an answer, as `res.json()` gives it to the script.
def responseValue (entries : List Entry) (total : Double) : Value :=
  .obj [("entries", .arr (entries.map Entry.value)), ("total", .num total)]

theorem ofNat_inj_of_fits {m n : Nat} (hm : m < 2 ^ 64) (hn : n < 2 ^ 64) (hfitm : FitsDouble m)
    (hfitn : FitsDouble n) (h : Double.ofNat m = .ofNat n) : m = n := by
  obtain ⟨r, _, hround, hiff⟩ := Double.ofNat_eq_finite hm.le (by norm_num)
  have hsame : (Double.ofNat m).same (.ofNat n) = true := by
    rw [← h, hround]
    simp [Double.same]
  exact ((ofNat_same_iff hm hn hfitm hfitn).mp hsame).symm

theorem ofNat_byte_inj {b c : UInt8} (h : Double.ofNat b.toNat = .ofNat c.toNat) : b = c := by
  have hb := b.toNat_lt
  have hc := c.toNat_lt
  have hfits (d : UInt8) : FitsDouble d.toNat := ⟨d.toNat, 0, by have := d.toNat_lt; omega, by simp⟩
  exact UInt8.toNat_inj.mp (ofNat_inj_of_fits (by omega) (by omega) (hfits b) (hfits c) h)

theorem Change.value_injective : Function.Injective Change.value := by
  rintro ⟨addr, oldVal, newVal⟩ ⟨addr', oldVal', newVal'⟩ h
  simp only [Change.value, Json.obj.injEq, List.cons.injEq, Prod.mk.injEq, Json.num.injEq, true_and,
    and_true] at h
  obtain ⟨rfl, hold, hnew⟩ := h
  rw [ofNat_byte_inj hold, ofNat_byte_inj hnew]

theorem Entry.value_injective : Function.Injective Entry.value := by
  rintro ⟨step, pc, insnBytes, insnText, regs, memChanges⟩
    ⟨step', pc', insnBytes', insnText', regs', memChanges'⟩ h
  simp only [Entry.value, Json.obj.injEq, List.cons.injEq, Prod.mk.injEq, Json.num.injEq,
    Json.arr.injEq, Json.str.injEq, true_and, and_true] at h
  obtain ⟨rfl, rfl, hbytes, rfl, rfl, hchanges⟩ := h
  have hbyte : Function.Injective fun b : UInt8 => Json.num (Double.ofNat b.toNat) :=
    fun b c hbc => ofNat_byte_inj (Json.num.inj hbc)
  rw [List.map_injective_iff.mpr hbyte hbytes,
    List.map_injective_iff.mpr Change.value_injective hchanges]

theorem responseValue_inj {entries entries' : List Entry} {total total' : Double} :
    responseValue entries total = responseValue entries' total' ↔
      entries = entries' ∧ total = total' := by
  simp [responseValue, (List.map_injective_iff.mpr Entry.value_injective).eq_iff]

end Objects

section Reading

theorem whole_decimal : Json.whole decimal = Double.ofNat :=
  funext decimal_natural

theorem map_traceEntryJson (e : TraceEntry) :
    (traceEntryJson e).map Double.ofNat = (Entry.ofTrace e).value := by
  have hbytes : (byte.list.toJson e.insnBytes).map Double.ofNat =
      .arr (e.insnBytes.map fun b => .num (.ofNat b.toNat)) := by
    simp only [Json.Format.list, Json.map, Json.mapItems_eq, List.map_map]
    rfl
  have hchanges : (memChange.list.toJson e.memChanges).map Double.ofNat =
      .arr ((Entry.ofTrace e).memChanges.map Change.value) := by
    simp only [Json.Format.list, Json.map, Json.mapItems_eq, List.map_map, Entry.ofTrace]
    rfl
  simp only [traceEntryJson, Json.map, Json.mapFields, hbytes, hchanges]
  rfl

theorem map_traceResponseJson (r : TraceResponse) : (traceResponseJson r).map Double.ofNat =
    responseValue (r.entries.map Entry.ofTrace) (.ofNat r.total) := by
  have hentries : (traceEntry.list.toJson r.entries).map Double.ofNat =
      .arr ((r.entries.map Entry.ofTrace).map Entry.value) := by
    simp only [Json.Format.list, Json.map, Json.mapItems_eq, List.map_map]
    congr 1
    exact List.map_congr_left fun e _ => map_traceEntryJson e
  simp only [traceResponseJson, Json.map, Json.mapFields, hentries]
  rfl

theorem map_eq_of_map_eq {α β γ : Type} {P : α → Prop} {f : α → β} {g : α → γ}
    (hfg : ∀ a b, P a → P b → f a = f b → g a = g b) {left right : List α}
    (hleft : ∀ a ∈ left, P a) (hright : ∀ a ∈ right, P a) (h : left.map f = right.map f) :
    left.map g = right.map g := by
  induction left generalizing right with
  | nil =>
      rw [List.map_nil, eq_comm, List.map_eq_nil_iff] at h
      rw [h]
  | cons a as ih =>
      cases right with
      | nil => cases h
      | cons b bs =>
          obtain ⟨ha, has⟩ := List.forall_mem_cons.mp hleft
          obtain ⟨hb, hbs⟩ := List.forall_mem_cons.mp hright
          rw [List.map_cons, List.map_cons, List.cons.injEq] at h
          rw [List.map_cons, List.map_cons, hfg a b ha hb h.1, ih has hbs h.2]

theorem eq_of_map_eq {α β : Type} {P : α → Prop} {f : α → β}
    (hf : ∀ a b, P a → P b → f a = f b → a = b) {left right : List α} (hleft : ∀ a ∈ left, P a)
    (hright : ∀ a ∈ right, P a) (h : left.map f = right.map f) : left = right := by
  simpa using map_eq_of_map_eq (g := id) hf hleft hright h

-- All numbers of an entry have at most 53 significant bits.
def NumbersFit (e : TraceEntry) : Prop :=
  e.step < 2 ^ 64 ∧ FitsDouble e.step ∧ FitsDouble e.pc.toNat ∧
    ∀ c ∈ e.memChanges, FitsDouble c.addr.toNat

theorem ofTrace_inj {e e' : TraceEntry} (hfits : NumbersFit e) (hfits' : NumbersFit e')
    (h : Entry.ofTrace e = Entry.ofTrace e') : e = e' := by
  obtain ⟨hlt, hstep, hpc, haddrs⟩ := hfits
  obtain ⟨hlt', hstep', hpc', haddrs'⟩ := hfits'
  simp only [Entry.ofTrace, Entry.mk.injEq] at h
  obtain ⟨hsteps, hpcs, hbytes, htext, hregs, hchanges⟩ := h
  have hsteps := ofNat_inj_of_fits hlt hlt' hstep hstep' hsteps
  have hpcs := ofNat_inj_of_fits e.pc.toNat_lt e'.pc.toNat_lt hpc hpc' hpcs
  have hmem : e.memChanges = e'.memChanges := by
    refine eq_of_map_eq (P := fun c => FitsDouble c.addr.toNat) ?_ haddrs haddrs' hchanges
    intro c d hc hd hcd
    simp only [Change.mk.injEq] at hcd
    have haddr := ofNat_inj_of_fits c.addr.toNat_lt d.addr.toNat_lt hc hd hcd.1
    cases c
    cases d
    simp_all [UInt64.toNat_inj]
  cases e
  cases e'
  simp_all [UInt64.toNat_inj]

section Body

variable {write : TraceResponse → String} (hwrite : WritesJson write)
include hwrite

-- The script gets the objects of exactly the entries that were sent, in their order, whatever
-- characters their texts hold.
theorem parseJson_wholeTrace (db : TraceDb) : parseJson (write (wholeTrace db)) =
    some (responseValue (db.getAll.map Entry.ofTrace) (.ofNat db.getAll.length)) := by
  unfold parseJson
  rw [hwrite.parse, whole_decimal, map_traceResponseJson, TraceDb.length_getAll]
  rfl

theorem parseJson_wholeTrace_eq_iff (db db' : TraceDb) :
    parseJson (write (wholeTrace db)) = parseJson (write (wholeTrace db')) ↔
      db.getAll.map Entry.ofTrace = db'.getAll.map Entry.ofTrace := by
  rw [parseJson_wholeTrace hwrite, parseJson_wholeTrace hwrite, Option.some.injEq,
    responseValue_inj]
  refine and_iff_left_of_imp fun hentries => ?_
  have hlength := congrArg List.length hentries
  rw [List.length_map, List.length_map] at hlength
  rw [hlength]

end Body

-- What is sent of a trace and what the script reads of it. The text loses nothing; the script
-- loses what is lost in rounding its numbers, and so nothing of a trace of small enough ones.
structure Arrives (write : TraceResponse → String) (db db' : TraceDb) : Prop where
  answered : getTrace db {} = .ok (wholeTrace db)
  read : parseJson (write (wholeTrace db)) =
    some (responseValue (db.getAll.map Entry.ofTrace) (.ofNat db.getAll.length))
  sent_iff : write (wholeTrace db) = write (wholeTrace db') ↔ db.getAll = db'.getAll
  read_iff : parseJson (write (wholeTrace db)) = parseJson (write (wholeTrace db')) ↔
    db.getAll.map Entry.ofTrace = db'.getAll.map Entry.ofTrace
  read_fits : (∀ e ∈ db.getAll, NumbersFit e) → (∀ e ∈ db'.getAll, NumbersFit e) →
    (parseJson (write (wholeTrace db)) = parseJson (write (wholeTrace db')) ↔
      db.getAll = db'.getAll)

theorem wholeTrace_arrives {write : TraceResponse → String} (hwrite : WritesJson write)
    (db db' : TraceDb) : Arrives write db db' where
  answered := getTrace_whole db
  read := parseJson_wholeTrace hwrite db
  sent_iff := by rw [hwrite.injective.eq_iff, wholeTrace_eq_iff]
  read_iff := parseJson_wholeTrace_eq_iff hwrite db db'
  read_fits hfits hfits' := by
    rw [parseJson_wholeTrace_eq_iff hwrite]
    refine ⟨fun h => eq_of_map_eq (fun _ _ => ofTrace_inj) hfits hfits' h, fun h => ?_⟩
    rw [h]

theorem wholeTrace_arrives_sampleDb :
    Arrives traceResponse.text sampleDb (TraceDb.ofInserts "blank.tdb" []) :=
  wholeTrace_arrives text_writesJson sampleDb _

end Reading

end Tdb.Web
