import Tdb.Launcher.Release
import Tdb.Program
import Tdb.Storage.SaveLoad
import Tdb.TraceLoop.Recorded
import Tdb.Tui.Session.Theorems

namespace Tdb.Program

open Std Tdb.Library Tdb.Storage Tdb.Stats Tdb.Tracer Tdb.TraceLoop Tdb.Launcher

section Arguments

theorem parsePid_repr (pid : Int32) : parsePid pid.toInt.repr = some pid := by
  have hlow := pid.le_toInt
  have hhigh := pid.toInt_lt
  unfold parsePid
  rw [Numeral.readSigned_repr, if_pos (by omega), Option.map_some, Int32.ofInt_toInt]

theorem parsePort_repr (port : UInt16) : parsePort port.toNat.repr = some port := by
  have hlt := port.toNat_lt
  unfold parsePort
  rw [Numeral.readUnsigned_repr, if_pos hlt, Option.map_some, UInt16.ofNat_toNat]

theorem runArgs_append (prog program : String) (args : List String) (output : String) :
    runArgs prog (program :: (args ++ [output])) = .command (.run program args output) := by
  cases args with
  | nil => rfl
  | cons arg more =>
      change Invocation.command (.run program ((arg :: more) ++ [output]).dropLast
        (((arg :: more) ++ [output]).getLast _)) = _
      rw [List.dropLast_concat, List.getLast_append_singleton]

theorem runArgs_eq_iff {prog : String} {rest args : List String} {program output : String} :
    runArgs prog rest = .command (.run program args output) ↔
      rest = program :: (args ++ [output]) := by
  constructor
  · intro h
    unfold runArgs at h
    split at h
    · rename_i program' arg more
      simp only [Invocation.command.injEq, Command.run.injEq] at h
      obtain ⟨rfl, rfl, rfl⟩ := h
      rw [List.dropLast_append_getLast]
    · cases h
  · rintro rfl
    exact runArgs_append prog program args output

-- Every command is reached by its words, and a program is only ever run with the arguments that
-- stand between its name and the output file.
theorem parseArgs_words (prog : String) (c : Command) :
    parseArgs (prog :: c.words) = .command c ∧
      ∀ args program pargs output, parseArgs args = .command (.run program pargs output) ↔
        ∃ prog, args = prog :: (Command.run program pargs output).words := by
  constructor
  · cases c with
    | run program args output => exact runArgs_append prog program args output
    | trace pid output =>
        change traceArgs prog [pid.toInt.repr, output] = _
        simp only [traceArgs, parsePid_repr]
    | view traceFile port =>
        change viewArgs prog [traceFile, port.toNat.repr] = _
        simp only [viewArgs, List.head?_cons, Option.bind_some, parsePort_repr, Option.getD_some]
    | tui traceFile => rfl
    | stats traceFile => rfl
  · intro args program pargs output
    constructor
    · intro h
      unfold parseArgs at h
      split at h
      case h_3 prog rest => exact ⟨prog, by rw [runArgs_eq_iff.mp h]; rfl⟩
      case h_4 prog rest =>
        unfold traceArgs at h
        split at h
        · split at h <;> cases h
        · cases h
      case h_5 prog rest =>
        unfold viewArgs at h
        split at h <;> cases h
      case h_6 prog rest =>
        unfold tuiArgs at h
        split at h <;> cases h
      case h_7 prog rest =>
        unfold statsArgs at h
        split at h <;> cases h
      all_goals cases h
    · rintro ⟨prog, rfl⟩
      exact runArgs_append prog program pargs output

end Arguments

section Files

-- The trace file of a store: no file that is cut short is one.
def traceFile : CutProof TraceDb (ExtTreeMap Nat TraceEntry) UInt8 where
  encode := TraceDb.serialize
  decode data :=
    match Bincode.records.decode data with
    | .error _ => none
    | .ok (pairs, _) => some (ExtTreeMap.ofList pairs compare)
  view := TraceDb.entries
  Valid := TraceDb.Representable
  decode_encode db hdb := by
    have hfits := (Bincode.records_fits db.entries.toList).mpr hdb
    unfold TraceDb.serialize
    rw [Bincode.records.decode_encode_self hfits]
    exact congrArg some (OrderedMap.ofList_toList db.entries)
  decode_cut db hdb cut hcut hshort := by
    have hfits := (Bincode.records_fits db.entries.toList).mpr hdb
    obtain ⟨lost, hlost⟩ := hcut
    have hne : lost ≠ [] := by
      rintro rfl
      exact hshort (by simpa using hlost)
    obtain ⟨e, he⟩ := Bincode.records.decode_strict_prefix hfits hlost hne
    rw [he]
  encode_ne_nil db := by
    have hcount : (Bincode.count.encode db.entries.toList.length).length = 8 :=
      Codec.encodeLE_length 8 _
    intro hnil
    have hempty := (List.append_eq_nil_iff.mp hnil).1
    rw [hempty] at hcount
    cases hcount

theorem load_ok_iff_decode (data : List UInt8) (path : String) (db : TraceDb) :
    TraceDb.load (.ok data) path = .ok db ↔
      traceFile.decode data = some db.entries ∧ db.path = path := by
  obtain ⟨entries, path'⟩ := db
  unfold TraceDb.load traceFile
  dsimp only
  cases Bincode.records.decode data with
  | error e => simp
  | ok result => simp [eq_comm]

theorem loadFile_eq_ok_iff (files : Files) (path : String) (db : TraceDb) :
    loadFile files path = .ok db ↔
      (files path).bind traceFile.decode = some db.entries ∧ db.path = path := by
  unfold loadFile readFile
  cases files path with
  | none => simp [TraceDb.load]
  | some data => exact load_ok_iff_decode data path db

end Files

section Starts

-- Paths stand for files of the disk, and several of them may stand for one file.
variable {φ : Type} [DecidableEq φ] (names : String → φ) (starts : Nat → Start)

-- What can be read before the `k`-th start, when no other program writes to the disk.
def filesBefore (k : Nat) : Files :=
  fun path => Saving.diskAt (fun i => (starts i).saving names) k (names path)

-- A start that was to trace a process: it gets hold of it, sees it end or is stopped, and has
-- the instructions that its calls have seen in the store.
def Traced (s : Start) (db : TraceDb) : Prop :=
  ∃ c t launcher start, parseArgs s.args = .command c ∧ c.tracing = some (t, db.path) ∧
    (t.launched s.machine.writing).result = .ok launcher ∧
    Prepared s.machine.writing db.path launcher.pid start ∧
    (∃ st exit, loop iterate { tracer := start } s.machine.system.iterations = .stop st exit ∧
      ∀ panic, exit ≠ .panicked panic) ∧
    db = (loop iterate { tracer := start } s.machine.system.iterations).state.tracer.db ∧
    Holds start s.machine.system.iterations db

-- An attempt to write the store of such a start to the file of its path.
structure Saves (s : Start) (saving : Saving φ UInt8) (db : TraceDb) : Prop where
  traced : Traced s db
  name_eq : saving.name = names db.path
  content_eq : saving.content = db.serialize

-- The last start to touch the file of a path has written all of its store. This is the store as
-- it is loaded from there.
def LastSaved (k : Nat) (path : String) (db : TraceDb) : Prop :=
  ∃ j saving saved, Saving.LastTouch (fun i => (starts i).saving names) (names path) k j saving ∧
    saving.outcome = .done ∧ Saves names (starts j) saving saved ∧ db = { saved with path }

-- The stores that the starts record can be represented.
def AllRepresentable : Prop :=
  ∀ i db, Traced (starts i) db → db.Representable

variable {names starts}

omit [DecidableEq φ] in
theorem saving_traced {s : Start} {saving : Saving φ UInt8} (h : s.saving names = some saving) :
    ∃ db, Saves names s saving db := by
  unfold Start.saving at h
  split at h
  · rename_i c hargs
    obtain ⟨file, hfile, rfl⟩ := Option.map_eq_some_iff.mp h
    have hmem := List.mem_of_head? hfile
    unfold written at hmem
    split at hmem
    · rename_i t output htracing
      cases hsession : t.session s.machine.writing output with
      | none =>
          rw [hsession] at hmem
          exact absurd hmem List.not_mem_nil
      | some session =>
          rw [hsession] at hmem
          obtain ⟨launcher, ending, hlaunched, hloop, hwrites⟩ := mem_writes_session hsession hmem
          obtain ⟨start, db, hnew, hhandler, hstop, rfl, rfl, hdb, hholds⟩ :=
            traceLoop_saves hloop hwrites
          exact ⟨db, ⟨c, t, launcher, start, hargs, htracing, hlaunched, ⟨hnew, hhandler⟩, hstop,
            hdb, hholds⟩, rfl, rfl⟩
    · exact absurd hmem List.not_mem_nil
  · cases h

theorem loadFile_filesBefore_iff (hfits : AllRepresentable starts) (k : Nat) (path : String)
    (db : TraceDb) :
    loadFile (filesBefore names starts k) path = .ok db ↔ LastSaved names starts k path db := by
  rw [loadFile_eq_ok_iff]
  unfold filesBefore LastSaved
  rw [CutProof.read_eq_some_iff fun i saving hsaving => ?_]
  · constructor
    · rintro ⟨⟨j, saving, htouch, hdone, other, hother, hcontent, hentries⟩, rfl⟩
      obtain ⟨saved, hsaves⟩ := saving_traced htouch.saved
      refine ⟨j, saving, saved, htouch, hdone, hsaves, ?_⟩
      have hsame : saved.entries = other.entries :=
        traceFile.view_eq_of_encode_eq (hfits j saved hsaves.traced) hother
          (hsaves.content_eq.symm.trans hcontent)
      obtain ⟨entries, path⟩ := db
      change entries = other.entries at hentries
      rw [hentries, ← hsame]
    · rintro ⟨j, saving, saved, htouch, hdone, hsaves, rfl⟩
      exact ⟨⟨j, saving, htouch, hdone, saved, hfits j saved hsaves.traced, hsaves.content_eq,
        rfl⟩, rfl⟩
  · obtain ⟨saved, hsaves⟩ := saving_traced hsaving
    exact ⟨saved, hfits i saved hsaves.traced, hsaves.content_eq⟩

end Starts

section Viewers

variable {φ : Type} [DecidableEq φ]

-- A trace is recorded, and then its file is written anew, under another spelling of its path,
-- until the disk is full.
def sampleMachine : Machine where
  arch := .aarch64
  system := sampleSystem
  outcome := .done
  order := .inKeyOrder
  build := .release
  platform := Tui.samplePlatform
  terminal := Tui.willing
  turns := []

def fileOf (path : String) : String :=
  if path = "./out.tdb" then "out.tdb" else path

def rerun : Nat → Start
  | 0 => { args := ["tdb", "run", "ls", "-l", "out.tdb"], machine := sampleMachine }
  | _ + 1 =>
      { args := ["tdb", "trace", "42", "./out.tdb"]
        machine := { sampleMachine with outcome := .cut 40 "No space left on device" } }

-- The tracer of the loop, whichever of the two commands has come to it.
def sampleTracer (output : String) : Tracer :=
  Tracer.fresh ⟨7⟩ 42 { entries := ∅, path := output }

theorem rerun_fits : AllRepresentable rerun := by
  have hfits : ∀ output : String, output = "out.tdb" ∨ output = "./out.tdb" →
      (loop iterate { tracer := sampleTracer output }
        sampleSystem.iterations).state.tracer.db.Representable := by
    rintro output (rfl | rfl) <;> decide +kernel
  rintro i db ⟨c, t, launcher, start, hargs, htracing, hlaunched, ⟨hnew, _⟩, _, hdb, _⟩
  match i with
  | 0 =>
      obtain rfl : Command.run "ls" ["-l"] "out.tdb" = c := Invocation.command.inj hargs
      obtain ⟨rfl, hpath⟩ := Prod.mk.inj (Option.some.inj htracing)
      obtain rfl : (⟨42⟩ : ProcessLauncher) = launcher := Except.ok.inj hlaunched
      rw [← hpath] at hnew
      obtain rfl : sampleTracer "out.tdb" = start := Except.ok.inj hnew
      rw [hdb]
      exact hfits _ (.inl rfl)
  | _ + 1 =>
      obtain rfl : Command.trace 42 "./out.tdb" = c := Invocation.command.inj hargs
      obtain ⟨rfl, hpath⟩ := Prod.mk.inj (Option.some.inj htracing)
      obtain rfl : (⟨42⟩ : ProcessLauncher) = launcher := Except.ok.inj hlaunched
      rw [← hpath] at hnew
      obtain rfl : sampleTracer "./out.tdb" = start := Except.ok.inj hnew
      rw [hdb]
      exact hfits _ (.inr rfl)

end Viewers

section Panics

variable {φ : Type} [DecidableEq φ]

-- The disassembler has plain texts in all of the starts.
def AllAscii (starts : Nat → Start) : Prop :=
  ∀ i, ∀ it ∈ (starts i).machine.system.iterations, CapstoneAscii it.env

theorem Traced.drawable {s : Start} {db : TraceDb} (h : Traced s db)
    (hascii : ∀ it ∈ s.machine.system.iterations, CapstoneAscii it.env) (platform : Tui.Platform)
    (order : HashOrder) (path : String) :
    Tui.Drawable .release platform (Tui.App.new platform order { db with path } path) := by
  obtain ⟨_, _, _, start, _, _, _, _, _, _, hholds⟩ := h
  refine ⟨fun e he => ?_, fun e _ => ?_⟩
  · have hplain := hholds.isAscii hascii he
    rw [Tui.insnShort_eq, Text.truncated_ok_iff]
    exact fun hlong => hplain.endsAt (by omega)
  · unfold Tui.stackDelta
    split
    · exact ⟨_, Tui.subI64_release _ _⟩
    · exact ⟨0, rfl⟩

-- A release build does not panic over what was recorded, whatever is done in the terminal.
theorem report_tui_ends {starts : Nat → Start} (hfits : AllRepresentable starts)
    (hascii : AllAscii starts) (names : String → φ) {k : Nat} {m : Machine}
    (hrelease : m.build = .release) {path : String} {ended : Tui.Ended}
    (hreport : report m (filesBefore names starts k) (.tui path) = some (.closed ended)) :
    ∃ result, ended.result = .ok result := by
  obtain ⟨ended', hrun, hclosed⟩ := Option.map_eq_some_iff.mp hreport
  cases hclosed
  rw [hrelease] at hrun
  refine Tui.run_result (fun db hload => ?_) hrun
  obtain ⟨j, saving, saved, htouch, _, hsaves, rfl⟩ :=
    (loadFile_filesBefore_iff hfits k path db).mp hload
  exact Tui.neverPanics_of_drawable m.order { saved with path } path
    (hsaves.traced.drawable (hascii j) m.platform m.order path)

theorem rerun_ascii : AllAscii rerun := by
  intro i it hit code addr insns hdisasm insn hinsn
  have hplain : it.env.disasmAll code addr =
      .ok [⟨[0x1f, 0x20, 0x03, 0xd5], some "nop", none⟩] := by
    cases i <;> rcases List.mem_pair.mp hit with rfl | rfl <;> rfl
  rw [hplain] at hdisasm
  cases hdisasm
  rw [List.mem_singleton.mp hinsn]
  decide

def browsing : Machine :=
  { sampleMachine with turns := [Tui.rightTurn, Tui.quitTurn] }

theorem report_tui_ends_rerun :
    ∃ ended, report browsing (filesBefore fileOf rerun 1) (.tui "out.tdb") =
        some (.closed ended) ∧
      ∃ result, ended.result = .ok result := by
  have hended : (Tui.run browsing.build browsing.platform browsing.order
      (readFile (filesBefore fileOf rerun 1) "out.tdb") "out.tdb" browsing.terminal
      browsing.turns).isSome := by decide +kernel
  obtain ⟨ended, hrun⟩ := Option.isSome_iff_exists.mp hended
  have hreport : report browsing (filesBefore fileOf rerun 1) (.tui "out.tdb") =
      some (.closed ended) := by
    unfold report
    dsimp only
    rw [hrun, Option.map_some]
  exact ⟨ended, hreport, report_tui_ends rerun_fits rerun_ascii fileOf rfl hreport⟩

end Panics

end Tdb.Program
