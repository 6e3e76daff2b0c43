import Tdb.Library.JsonPretty
import Tdb.Web.Header
import Tdb.Web.Highlight
import Tdb.Web.Wire

namespace Tdb.Web

open Tdb.Library Tdb.Storage Tdb.Server Viewer

section Text

-- What the browser writes for fractions and for numbers of more than 21 digits.
variable (otherToString : ℚ → String)

-- JSON has no word for what is not finite.
def jsonNumber : Double → List Char
  | .finite q => (numberToString otherToString (.finite q)).toList
  | _ => "null".toList

def Export.value (x : Export) : Value :=
  .obj [("architecture", .str x.architecture), ("total_steps", .num (.ofNat x.totalSteps)),
    ("calls", .num (.ofNat x.calls)), ("memory_changes", .num (.ofNat x.memoryChanges)),
    ("trace", .arr (x.trace.map Entry.value))]

-- `JSON.stringify(data, null, 2)`
def Export.text (x : Export) : String :=
  String.ofList (Json.pretty (jsonNumber otherToString) 2 0 x.value)

theorem numberToString_ofNat {n : Nat} (h : n < 2 ^ 64) :
    ∃ k, numberToString otherToString (.ofNat n) = String.ofList (Nat.toDigits 10 k) ∧
      Double.ofNat k = .ofNat n := by
  obtain ⟨r, hr, hround, _⟩ := Double.ofNat_eq_finite h.le (by norm_num)
  have hle : (r : ℚ) ≤ (2 ^ 64 : ℕ) := Double.ofNat_le hround h.le
  have hlt : r < 10 ^ 21 := (by exact_mod_cast hle : r ≤ 2 ^ 64).trans_lt (by norm_num)
  refine ⟨Double.shortest r, ?_, ?_⟩
  · rw [hround]
    unfold numberToString
    dsimp only
    rw [if_pos ⟨Rat.den_natCast r, by rwa [Rat.num_natCast, Int.natAbs_natCast]⟩,
      if_neg (not_lt.mpr (Nat.cast_nonneg r)), String.empty_append, Rat.num_natCast,
      Int.natAbs_natCast]
  · rw [Double.ofNat_shortest, hround]
    exact Double.round_of_isBinary64 hr

theorem jsonNumber_ofNat {n : Nat} (h : n < 2 ^ 64) :
    ∃ k, jsonNumber otherToString (.ofNat n) = Nat.toDigits 10 k ∧ Double.ofNat k = .ofNat n := by
  obtain ⟨k, htext, hread⟩ := numberToString_ofNat otherToString h
  refine ⟨k, ?_, hread⟩
  obtain ⟨r, hr, hround, _⟩ := Double.ofNat_eq_finite h.le (by norm_num)
  rw [hround] at htext ⊢
  unfold jsonNumber
  dsimp only
  rw [htext, String.toList_ofList]

-- Up to 53 bits the digits are those of the number itself.
theorem jsonNumber_ofNat_of_lt {n : Nat} (h : n < 2 ^ 53) :
    jsonNumber otherToString (.ofNat n) = Nat.toDigits 10 n := by
  obtain ⟨k, htext, hread⟩ := jsonNumber_ofNat otherToString (h.trans (by norm_num))
  rw [htext, (Double.ofNat_eq_iff_of_lt h).mp hread]

end Text

section Objects

-- The object of an exported trace, with its numbers as they were recorded.
def exportJson (architecture : String) (calls changes : Nat) (entries : List TraceEntry) :
    Json Nat :=
  .obj [("architecture", .str architecture), ("total_steps", .num entries.length),
    ("calls", .num calls), ("memory_changes", .num changes),
    ("trace", traceEntry.list.toJson entries)]

theorem exportJson_wellNamed (architecture : String) (calls changes : Nat)
    (entries : List TraceEntry) : (exportJson architecture calls changes entries).WellNamed :=
  ⟨by simp, trivial, trivial, trivial, trivial, traceEntry.list.wellNamed entries, trivial⟩

-- All numbers of a trace are below a bound: those of its entries, and how many there are of them
-- and of their memory changes.
structure NumbersBelow (bound : Nat) (entries : List TraceEntry) : Prop where
  length_lt : entries.length < bound
  changes_lt : (entries.map fun e => e.memChanges.length).sum < bound
  step_lt : ∀ e ∈ entries, e.step < bound
  pc_lt : ∀ e ∈ entries, e.pc.toNat < bound
  addr_lt : ∀ e ∈ entries, ∀ c ∈ e.memChanges, c.addr.toNat < bound

theorem exportJson_numbers {bound : Nat} (hbound : 256 ≤ bound) {entries : List TraceEntry}
    (h : NumbersBelow bound entries) (architecture : String) {calls changes : Nat}
    (hcalls : calls < bound) (hchanges : changes < bound) :
    (exportJson architecture calls changes entries).AllNumbers fun n => n < bound := by
  have hbyte (b : UInt8) : b.toNat < bound := b.toNat_lt.trans_le hbound
  refine ⟨trivial, h.length_lt, hcalls, hchanges, ?_, trivial⟩
  refine (Json.allNumbersItems_iff _).mpr fun v hv => ?_
  obtain ⟨e, he, rfl⟩ := List.mem_map.mp hv
  refine ⟨h.step_lt e he, h.pc_lt e he, ?_, trivial, trivial, ?_, trivial⟩
  · refine (Json.allNumbersItems_iff _).mpr fun v hv => ?_
    obtain ⟨b, _, rfl⟩ := List.mem_map.mp hv
    exact hbyte b
  · refine (Json.allNumbersItems_iff _).mpr fun v hv => ?_
    obtain ⟨c, hc, rfl⟩ := List.mem_map.mp hv
    exact ⟨h.addr_lt e he c hc, hbyte c.oldVal, hbyte c.newVal, trivial⟩

theorem map_exportJson (architecture : String) (calls changes : Nat) (entries : List TraceEntry) :
    (exportJson architecture calls changes entries).map Double.ofNat =
      Export.value ⟨architecture, entries.length, calls, changes, entries.map Entry.ofTrace⟩ := by
  have hentries : (traceEntry.list.toJson entries).map Double.ofNat =
      .arr ((entries.map Entry.ofTrace).map Entry.value) := by
    simp only [Json.Format.list, Json.map, Json.mapItems_eq, List.map_map]
    congr 1
    exact List.map_congr_left fun e _ => map_traceEntryJson e
  simp only [exportJson, Json.map, Json.mapFields, hentries]
  rfl

variable {otherToString : ℚ → String} {architecture : String} {calls changes : Nat}
  {entries : List TraceEntry}

theorem text_toList :
    (Export.text otherToString
      ⟨architecture, entries.length, calls, changes, entries.map Entry.ofTrace⟩).toList =
        Json.pretty (jsonNumber otherToString ∘ Double.ofNat) 2 0
          (exportJson architecture calls changes entries) := by
  unfold Export.text
  rw [String.toList_ofList, ← map_exportJson, Json.pretty_map]

-- JSON.parse gives the exported object back, whatever its texts hold.
theorem parseJson_text (h : NumbersBelow (2 ^ 64) entries) (hcalls : calls < 2 ^ 64)
    (hchanges : changes < 2 ^ 64) :
    parseJson (Export.text otherToString
      ⟨architecture, entries.length, calls, changes, entries.map Entry.ofTrace⟩) =
        some (Export.value
          ⟨architecture, entries.length, calls, changes, entries.map Entry.ofTrace⟩) := by
  have hnumbers := (exportJson_numbers (by norm_num) h architecture hcalls hchanges).mono
    (Q := Json.WritesWhole (jsonNumber otherToString ∘ Double.ofNat) decimal Double.ofNat)
    fun n hn => by
      obtain ⟨k, htext, hread⟩ := jsonNumber_ofNat otherToString hn
      exact ⟨k, htext, by rw [whole_decimal, hread]⟩
  unfold parseJson
  rw [Json.parse_pretty 2 _ (exportJson_wellNamed ..) hnumbers text_toList, map_exportJson]

-- Below 2 ^ 53 every number stands in the text as it was recorded.
theorem parse_text_exact (h : NumbersBelow (2 ^ 53) entries) (hcalls : calls < 2 ^ 53)
    (hchanges : changes < 2 ^ 53) :
    Json.parse id (Export.text otherToString
      ⟨architecture, entries.length, calls, changes, entries.map Entry.ofTrace⟩) =
        some ((exportJson architecture calls changes entries).map (Json.whole id)) := by
  have hnumbers := (exportJson_numbers (by norm_num) h architecture hcalls hchanges).mono
    (Q := Json.WritesWhole (jsonNumber otherToString ∘ Double.ofNat) id (Json.whole id))
    fun n hn => ⟨n, jsonNumber_ofNat_of_lt otherToString hn, rfl⟩
  rw [Json.parse_pretty 2 _ (exportJson_wellNamed ..) hnumbers text_toList]

end Objects

section Loaded

-- What is exported of a page with a trace on it.
def exportOf (trace : List Entry) : Export :=
  match trace with
  | [] => ({ trace } : Viewer).exportTrace
  | first :: _ =>
      match parseJson first.regs with
      | none | some .null => ({ trace } : Viewer).exportTrace
      | some regs => (opened trace trace.length regs).exportTrace

theorem exportOf_eq (entries : List TraceEntry) :
    ∃ architecture calls changes, calls ≤ entries.length ∧
      changes ≤ (entries.map fun e => e.memChanges.length).sum ∧
        exportOf (entries.map Entry.ofTrace) =
          ⟨architecture, entries.length, calls, changes, entries.map Entry.ofTrace⟩ := by
  have hplain : ({ trace := entries.map Entry.ofTrace } : Viewer).exportTrace =
      ⟨"unknown", entries.length, 0, 0, entries.map Entry.ofTrace⟩ := by
    unfold Viewer.exportTrace
    rw [List.length_map]
  unfold exportOf
  cases hmap : entries.map Entry.ofTrace with
  | nil =>
      rw [hmap] at hplain
      exact ⟨_, _, _, Nat.zero_le _, Nat.zero_le _, hplain⟩
  | cons first rest =>
      rw [hmap] at hplain
      dsimp only
      cases parseJson first.regs with
      | none => exact ⟨_, _, _, Nat.zero_le _, Nat.zero_le _, hplain⟩
      | some regs =>
          have hopened : (opened (first :: rest) (first :: rest).length regs).exportTrace =
              ⟨archOf regs, entries.length,
                (entries.map Entry.ofTrace).countP fun e => e.isCall || e.isRet,
                ((entries.map Entry.ofTrace).map fun e => e.memChanges.length).sum,
                first :: rest⟩ := by
            unfold opened Viewer.exportTrace
            dsimp only
            rw [← hmap, List.length_map]
          have hcalls : ((entries.map Entry.ofTrace).countP fun e => e.isCall || e.isRet) ≤
              entries.length := by
            rw [← List.length_map (f := Entry.ofTrace)]
            exact List.countP_le_length
          cases regs with
          | null => exact ⟨_, _, _, Nat.zero_le _, Nat.zero_le _, hplain⟩
          | _ => exact ⟨_, _, _, hcalls, (sum_ofTrace entries).le, hopened⟩

theorem showStep_exportTrace (browser : Browser) (v : Viewer) (layout : Layout) (idx : Int) :
    (v.showStep browser layout idx).viewer.exportTrace = v.exportTrace := by
  obtain ⟨htrace, _, hcounters, _⟩ := showStep_selected browser v layout idx
  simp only [counters, Prod.mk.injEq] at hcounters
  unfold Viewer.exportTrace
  rw [htrace, hcounters.1, hcounters.2.1, showStep_arch]

theorem Effect.exportTrace {browser : Browser} {v : Viewer} {layout : Layout} {handled : Handled}
    (h : Effect browser v layout handled) : handled.viewer.exportTrace = v.exportTrace := by
  cases h with
  | shown idx => exact showStep_exportTrace browser v layout idx
  | _ => rfl

theorem load_exportTrace (browser : Browser) (layout : Layout) (db : TraceDb) :
    (load browser layout db).viewer.exportTrace = exportOf (db.getAll.map Entry.ofTrace) := by
  by_cases hreadable : Readable db
  · obtain ⟨first, rest, regs, hall, hparse, hne⟩ := hreadable
    rw [load_of_readable browser layout db hall hparse hne]
    dsimp only
    rw [showStep_exportTrace]
    unfold exportOf loadedRender
    rw [hall, List.map_cons]
    have hregs : (Entry.ofTrace first).regs = first.regs := rfl
    dsimp only
    rw [hregs, hparse]
    cases regs with
    | null => exact absurd rfl hne
    | _ => rfl
  · rw [load_of_not_readable browser layout db hreadable]
    unfold exportOf
    cases hall : db.getAll with
    | nil => rfl
    | cons first rest =>
        have hregs : ∀ regs, parseJson first.regs = some regs → regs = .null := by
          intro regs hparse
          by_contra hne
          exact hreadable ⟨first, rest, regs, hall, hparse, hne⟩
        rw [List.map_cons]
        dsimp only [Entry.ofTrace]
        cases hparse : parseJson first.regs with
        | none => rfl
        | some regs => rw [hregs regs hparse]

theorem run_exportTrace (browser : Browser) (layout : Layout) (db : TraceDb)
    (events : List Event) :
    (run (next browser) (load browser layout db).viewer events).exportTrace =
      exportOf (db.getAll.map Entry.ofTrace) :=
  run_invariant (next browser) events (load_exportTrace browser layout db) fun v event hv =>
    (handle_effect browser v event).exportTrace.trans hv

end Loaded

section Sessions

variable {otherToString : ℚ → String}

-- What can be read of an exported trace: by the script's own language the entries that the page
-- has, and by a reader of whole numbers the recorded ones, where they are small enough.
structure Exports (otherToString : ℚ → String) (entries : List TraceEntry) (x : Export) : Prop where
  total_eq : x.totalSteps = entries.length
  trace_eq : x.trace = entries.map Entry.ofTrace
  read : parseJson (x.text otherToString) = some x.value
  exact : NumbersBelow (2 ^ 53) entries → Json.parse id (x.text otherToString) =
    some ((exportJson x.architecture x.calls x.memoryChanges entries).map (Json.whole id))

theorem exportOf_exports {entries : List TraceEntry} (h : NumbersBelow (2 ^ 64) entries) :
    Exports otherToString entries (exportOf (entries.map Entry.ofTrace)) := by
  obtain ⟨architecture, calls, changes, hcalls, hchanges, hexport⟩ := exportOf_eq entries
  rw [hexport]
  refine ⟨rfl, rfl, ?_, fun hsmall => ?_⟩
  · exact parseJson_text h (hcalls.trans_lt h.length_lt) (hchanges.trans_lt h.changes_lt)
  · exact parse_text_exact hsmall (hcalls.trans_lt hsmall.length_lt)
      (hchanges.trans_lt hsmall.changes_lt)

theorem Export.trace_eq_of_value_eq {x x' : Export} (h : x.value = x'.value) :
    x.trace = x'.trace := by
  simp only [Export.value, Json.obj.injEq, List.cons.injEq, Prod.mk.injEq, Json.arr.injEq] at h
  exact List.map_injective_iff.mpr Entry.value_injective h.2.2.2.2.1.2

theorem NumbersBelow.fit {entries : List TraceEntry} (h : NumbersBelow (2 ^ 53) entries) :
    ∀ e ∈ entries, NumbersFit e := by
  have hfits {n : Nat} (hn : n < 2 ^ 53) : FitsDouble n := ⟨n, 0, hn, by simp⟩
  intro e he
  exact ⟨(h.step_lt e he).trans (by norm_num), hfits (h.step_lt e he), hfits (h.pc_lt e he),
    fun c hc => hfits (h.addr_lt e he c hc)⟩

-- The export of a page, also next to that of another: it does not depend on what was done on the
-- page, it can be read back, and two of them say the same only of traces that were read alike.
structure ExportsTell (otherToString : ℚ → String) (db db' : TraceDb) (v v' : Viewer) : Prop where
  exports : Exports otherToString db.getAll v.exportTrace
  text_iff : v.exportTrace.text otherToString = v'.exportTrace.text otherToString ↔
    db.getAll.map Entry.ofTrace = db'.getAll.map Entry.ofTrace
  text_exact : NumbersBelow (2 ^ 53) db.getAll → NumbersBelow (2 ^ 53) db'.getAll →
    (v.exportTrace.text otherToString = v'.exportTrace.text otherToString ↔
      db.getAll = db'.getAll)

theorem load_run_exportsTell {browser browser' : Browser} {db db' : TraceDb}
    (hdb : NumbersBelow (2 ^ 64) db.getAll) (hdb' : NumbersBelow (2 ^ 64) db'.getAll)
    (otherToString : ℚ → String) (layout layout' : Layout) (events events' : List Event) :
    ExportsTell otherToString db db' (run (next browser) (load browser layout db).viewer events)
      (run (next browser') (load browser' layout' db').viewer events') := by
  have hexports : Exports otherToString db.getAll _ := exportOf_exports hdb
  have hexports' : Exports otherToString db'.getAll _ := exportOf_exports hdb'
  have hiff : (exportOf (db.getAll.map Entry.ofTrace)).text otherToString =
      (exportOf (db'.getAll.map Entry.ofTrace)).text otherToString ↔
        db.getAll.map Entry.ofTrace = db'.getAll.map Entry.ofTrace := by
    refine ⟨fun h => ?_, fun h => by rw [h]⟩
    have hread := hexports.read
    rw [h, hexports'.read] at hread
    have htraces := Export.trace_eq_of_value_eq (Option.some.inj hread)
    rwa [hexports.trace_eq, hexports'.trace_eq, eq_comm] at htraces
  constructor
  · rwa [run_exportTrace]
  · rwa [run_exportTrace, run_exportTrace]
  · intro hsmall hsmall'
    rw [run_exportTrace, run_exportTrace, hiff]
    refine ⟨eq_of_map_eq (fun _ _ => ofTrace_inj) hsmall.fit hsmall'.fit, fun h => ?_⟩
    rw [h]

theorem load_run_exportsTell_sample :
    let events : List Event := [⟨.search "ret", sampleLayout⟩, ⟨.key .page .pageDown, sampleLayout⟩]
    ExportsTell (fun _ => "0.8") sampleDb sampleDb
      (run (next sampleBrowser) (load sampleBrowser sampleLayout sampleDb).viewer events)
      (run (next sampleBrowser) (load sampleBrowser sampleLayout sampleDb).viewer []) := by
  have hsample : NumbersBelow (2 ^ 64) sampleDb.getAll := by
    constructor <;> decide +kernel
  exact load_run_exportsTell hsample hsample _ _ _ _ _

end Sessions

end Tdb.Web
