import Tdb.Library.Hex
import Tdb.Library.SignedWord
import Tdb.Storage.SaveLoad
import Tdb.Tui.Theorems

namespace Tdb.Tui

open Tdb.Library Tdb.Storage Tdb.Stats App

section Rendering

-- What the two kinds of builds do where i64 arithmetic leaves its range.
inductive Build where
  | debug | release
deriving DecidableEq, Repr

def subI64 (build : Build) (a b : Int) : Except Panic Int :=
  if -2 ^ 63 ≤ a - b ∧ a - b < 2 ^ 63 then
    .ok (a - b)
  else
    match build with
    | .debug => .error { message := "attempt to subtract with overflow" }
    | .release => .ok (wrapI64 (a - b))

def stackPointer (regs : Value) : Option UInt64 :=
  ((regs.get "sp").or (regs.get "rsp")).bind Value.asU64

def stackDelta (build : Build) (baseSp : Option UInt64) (sp : UInt64) : Except Panic Int :=
  match baseSp with
  | some base => subI64 build (asI64 sp.toNat) (asI64 base.toNat)
  | none => .ok 0

inductive DeltaColor where
  | red | green | darkGray
deriving DecidableEq, Repr

def deltaColor (delta : Int) : DeltaColor :=
  if delta < 0 then .red else if delta > 0 then .green else .darkGray

structure Detail where
  pc : String
  insn : String
  bytes : String
  step : String
  position : String
  sp : String
  delta : Int
  deltaText : String
  deltaColor : DeltaColor
  insnType : String × Color
deriving DecidableEq, Repr

def detailOf (app : App) (entry : TraceEntry) (sp : UInt64) (delta : Int) : Detail where
  pc := "0x" ++ String.ofList (Hex.fixed 16 entry.pc.toNat)
  insn := s!"  {entry.insnText}"
  bytes := " ".intercalate (entry.insnBytes.map fun b => String.ofList (Hex.fixed 2 b.toNat))
  step := s!"{entry.step}"
  position := s!"  ({app.current + 1}/{app.trace.length})"
  sp := "0x" ++ String.ofList (Hex.padded 0 sp.toNat)
  delta
  deltaText := "  (" ++ (if delta ≥ 0 then "+" else "") ++ toString delta ++ ")"
  deltaColor := deltaColor delta
  insnType := insnType entry

@[simp] theorem detailOf_delta (app : App) (entry : TraceEntry) (sp : UInt64) (delta : Int) :
    (detailOf app entry sp delta).delta = delta := rfl

-- `none` when there is no entry to show.
def renderDetail (build : Build) (platform : Platform) (app : App) :
    Except Panic (Option Detail) :=
  match app.trace[app.current]? with
  | none => .ok none
  | some entry =>
      let sp := (stackPointer (parseOrNull platform entry.regs)).getD 0
      match stackDelta build app.baseSp sp with
      | .error panic => .error panic
      | .ok delta => .ok (some (detailOf app entry sp delta))

end Rendering

section Delta

variable {platform : Platform} {app : App} {e : TraceEntry} {sp base : UInt64}

-- The registers are an object with this stack pointer, under either of its names.
def StackPointerIs (platform : Platform) (e : TraceEntry) (sp : UInt64) : Prop :=
  ∃ fields, platform.fromStr e.regs = .ok (.obj fields) ∧
    (fields.lookup "sp" = some (.num (.posInt sp)) ∨
      fields.lookup "sp" = none ∧ fields.lookup "rsp" = some (.num (.posInt sp)))

theorem StackPointerIs.stackPointer_eq (h : StackPointerIs platform e sp) :
    stackPointer (parseOrNull platform e.regs) = some sp := by
  obtain ⟨fields, hparse, hsp⟩ := h
  unfold stackPointer parseOrNull
  rw [hparse]
  dsimp only [Value.get]
  rcases hsp with hsp | ⟨hnone, hrsp⟩
  · rw [hsp]
    rfl
  · rw [hnone, hrsp]
    rfl

theorem StackPointerIs.unique {sp' : UInt64} (h : StackPointerIs platform e sp)
    (h' : StackPointerIs platform e sp') : sp = sp' :=
  Option.some.inj (h.stackPointer_eq.symm.trans h'.stackPointer_eq)

def DeltaShown (build : Build) (platform : Platform) (app : App) (delta : Int) : Prop :=
  ∃ detail, renderDetail build platform app = .ok (some detail) ∧ detail.delta = delta

theorem deltaShown_iff (he : app.trace[app.current]? = some e) (hsp : StackPointerIs platform e sp)
    (hbase : app.baseSp = some base) (build : Build) (delta : Int) :
    DeltaShown build platform app delta ↔
      subI64 build (asI64 sp.toNat) (asI64 base.toNat) = .ok delta := by
  have hdelta : stackDelta build app.baseSp
      ((stackPointer (parseOrNull platform e.regs)).getD 0) =
        subI64 build (asI64 sp.toNat) (asI64 base.toNat) := by
    rw [hsp.stackPointer_eq, hbase, Option.getD_some]
    rfl
  unfold DeltaShown renderDetail
  rw [he]
  dsimp only
  rw [hdelta]
  cases subI64 build (asI64 sp.toNat) (asI64 base.toNat) with
  | error panic => simp
  | ok d => simp

theorem inRange_iff (x : Int) : -2 ^ 63 ≤ x ∧ x < 2 ^ 63 ↔ SignedWord.Holds (2 ^ 64) x := by
  unfold SignedWord.Holds
  omega

theorem subI64_release (a b : Int) : subI64 .release a b = .ok (wrapI64 (a - b)) := by
  unfold subI64
  split
  · rename_i hrange
    rw [inRange_iff, ← SignedWord.bmod_eq_self_iff (by decide)] at hrange
    rw [wrapI64, hrange]
  · rfl

theorem subI64_debug_iff (a b delta : Int) : subI64 .debug a b = .ok delta ↔
    (-2 ^ 63 ≤ a - b ∧ a - b < 2 ^ 63) ∧ a - b = delta := by
  unfold subI64
  split
  · rename_i hrange
    rw [Except.ok.injEq]
    exact (and_iff_right hrange).symm
  · rename_i hout
    exact iff_of_false (by simp) fun h => hout h.1

section Words

variable {a b : Nat}

theorem subI64_release_iff (a b : Nat) :
    subI64 .release (asI64 a) (asI64 b) = .ok (a - b : Int) ↔
      -2 ^ 63 ≤ (a - b : Int) ∧ (a - b : Int) < 2 ^ 63 := by
  rw [subI64_release, Except.ok.injEq, inRange_iff]
  exact SignedWord.wrapped_sub_eq_iff (by decide) a b

theorem subI64_debug_words_iff (ha : a < 2 ^ 64) (hb : b < 2 ^ 64) :
    subI64 .debug (asI64 a) (asI64 b) = .ok (a - b : Int) ↔ (a < 2 ^ 63 ↔ b < 2 ^ 63) := by
  have hhalf : ∀ n : Nat, 2 * n < 2 ^ 64 ↔ n < 2 ^ 63 := fun n => by omega
  rw [subI64_debug_iff, inRange_iff, ← hhalf a, ← hhalf b]
  exact SignedWord.checked_sub_eq_iff ha hb

theorem subI64_iff (ha : a < 2 ^ 64) (hb : b < 2 ^ 64) :
    (∀ build, subI64 build (asI64 a) (asI64 b) = .ok (a - b : Int)) ↔
      (a < 2 ^ 63 ↔ b < 2 ^ 63) := by
  rw [← subI64_debug_words_iff ha hb]
  constructor
  · intro h
    exact h .debug
  · intro h build
    cases build with
    | debug => exact h
    | release =>
        rw [subI64_debug_words_iff ha hb] at h
        exact (subI64_release_iff a b).mpr (by omega)

theorem asI64_eq_iff (ha : a < 2 ^ 64) : asI64 a = a ↔ a < 2 ^ 63 :=
  (SignedWord.bmod_natCast_eq_iff ha).trans (by omega)

end Words

end Delta

section Session

variable {platform : Platform} {order : HashOrder} {db : TraceDb} {traceFile : String}

def AllHaveStackPointers (platform : Platform) (entries : List TraceEntry) : Prop :=
  ∀ e ∈ entries, ∃ sp, StackPointerIs platform e sp

-- The panel shows how far the stack pointer is from the first one, and the two casts and the
-- subtraction that lead there stay in the range of an i64.
structure DeltaExact (platform : Platform) (app : App) (sp base : UInt64) : Prop where
  shown : ∀ build, DeltaShown build platform app (sp.toNat - base.toNat)
  casts : asI64 sp.toNat = sp.toNat ∧ asI64 base.toNat = base.toNat
  subtraction : -2 ^ 63 ≤ asI64 sp.toNat - asI64 base.toNat ∧
    asI64 sp.toNat - asI64 base.toNat < 2 ^ 63

theorem visited_baseSp (events : List Event) :
    ∀ p ∈ visited (handle platform) (App.new platform order db traceFile) events,
      p.1.baseSp = (App.new platform order db traceFile).baseSp := by
  intro p hp
  have hkept := @visited_invariant _ _ _ (handle platform)
    (fun app => app.WellIndexed ∧ app.baseSp = (App.new platform order db traceFile).baseSp) _ _
    ⟨new_wellIndexed order db traceFile, rfl⟩ (fun p _ h =>
      have hhandles := handle_handles platform h.1 p.2
      ⟨hhandles.wellIndexed h.1, hhandles.baseSp_eq.trans h.2⟩) p hp
  exact hkept.2

theorem new_baseSp {first : TraceEntry} {base : UInt64} (hfirst : db.getAll[0]? = some first)
    (hbase : StackPointerIs platform first base) :
    (App.new platform order db traceFile).baseSp = some base := by
  have hhead : db.getAll.head? = some first := by rw [List.head?_eq_getElem?, hfirst]
  unfold App.new
  dsimp only
  rw [hhead]
  exact hbase.stackPointer_eq

theorem deltaExact_iff {app : App} {e : TraceEntry} {sp base : UInt64}
    (he : app.trace[app.current]? = some e) (hsp : StackPointerIs platform e sp)
    (hbase : app.baseSp = some base) :
    DeltaExact platform app sp base ↔ sp.toNat < 2 ^ 63 ∧ base.toNat < 2 ^ 63 := by
  constructor
  · intro h
    exact ⟨(asI64_eq_iff sp.toNat_lt).mp h.casts.1, (asI64_eq_iff base.toNat_lt).mp h.casts.2⟩
  · rintro ⟨hlow, hlow'⟩
    have hcast := (asI64_eq_iff sp.toNat_lt).mpr hlow
    have hcast' := (asI64_eq_iff base.toNat_lt).mpr hlow'
    refine ⟨fun build => ?_, ⟨hcast, hcast'⟩, by omega⟩
    rw [deltaShown_iff he hsp hbase]
    exact (subI64_iff sp.toNat_lt base.toNat_lt).mpr (iff_of_true hlow hlow') build

-- Two entries whose stack pointers are 2 ^ 63 apart, and a platform that reads them.
def farPlatform : Platform where
  fromStr text :=
    if text = "\x7b\"sp\":0\x7d" then .ok (.obj [("sp", .num (.posInt 0))])
    else if text = "\x7b\"sp\":9223372036854775808\x7d" then
      .ok (.obj [("sp", .num (.posInt 9223372036854775808))])
    else .error "expected value at line 1 column 1"
  tables := .ascii

def lowEntry : TraceEntry :=
  ⟨0, 0x1000, [0x1f, 0x00, 0x00, 0x91], "mov sp, x0", "\x7b\"sp\":0\x7d", []⟩

def highEntry : TraceEntry :=
  ⟨1, 0x1004, [0x1f, 0x20, 0x03, 0xd5], "nop", "\x7b\"sp\":9223372036854775808\x7d", []⟩

def farStack : TraceDb := TraceDb.ofInserts "trace.tdb" [lowEntry, highEntry]

theorem farStack_getAll : farStack.getAll = [lowEntry, highEntry] := by decide +kernel

theorem lowEntry_stackPointerIs : StackPointerIs farPlatform lowEntry 0 := ⟨_, rfl, .inl rfl⟩

theorem highEntry_stackPointerIs :
    StackPointerIs farPlatform highEntry 9223372036854775808 := ⟨_, rfl, .inl rfl⟩

theorem farStack_allHaveStackPointers : AllHaveStackPointers farPlatform farStack.getAll := by
  rw [farStack_getAll]
  intro e he
  rcases List.mem_pair.mp he with rfl | rfl
  · exact ⟨_, lowEntry_stackPointerIs⟩
  · exact ⟨_, highEntry_stackPointerIs⟩

-- The delta is exact in all respects for stack pointers in the lower half. What is shown is right
-- wherever both are in one half, and in release builds wherever the right one fits.
theorem new_loop_stackDelta_iff (platform : Platform) (order : HashOrder) {db : TraceDb}
    (traceFile : String) (hsps : AllHaveStackPointers platform db.getAll) (events : List Event) :
    ∀ p ∈ visited (handle platform) (App.new platform order db traceFile) events,
      ∀ e, db.getAll[p.1.current]? = some e →
        ∃ first sp base, db.getAll[0]? = some first ∧ StackPointerIs platform e sp ∧
          StackPointerIs platform first base ∧
          (DeltaExact platform p.1 sp base ↔ sp.toNat < 2 ^ 63 ∧ base.toNat < 2 ^ 63) ∧
          ((∀ build, DeltaShown build platform p.1 (sp.toNat - base.toNat)) ↔
            (sp.toNat < 2 ^ 63 ↔ base.toNat < 2 ^ 63)) ∧
          (DeltaShown .release platform p.1 (sp.toNat - base.toNat) ↔
            -2 ^ 63 ≤ (sp.toNat - base.toNat : Int) ∧ (sp.toNat - base.toNat : Int) < 2 ^ 63) := by
  intro p hp e he
  obtain ⟨first, hfirst⟩ : ∃ first, db.getAll[0]? = some first := by
    have hlt := (List.getElem?_eq_some_iff.mp he).1
    exact ⟨_, List.getElem?_eq_getElem (by omega)⟩
  obtain ⟨sp, hsp⟩ := hsps e (List.mem_of_getElem? he)
  obtain ⟨base, hbase⟩ := hsps first (List.mem_of_getElem? hfirst)
  have htrace := (visited_wellIndexed order db traceFile events p hp).2
  have hkept := (visited_baseSp events p hp).trans (new_baseSp hfirst hbase)
  rw [← htrace] at he
  refine ⟨first, sp, base, hfirst, hsp, hbase, deltaExact_iff he hsp hkept, ?_, ?_⟩
  · simp only [deltaShown_iff he hsp hkept]
    exact subI64_iff sp.toNat_lt base.toNat_lt
  · rw [deltaShown_iff he hsp hkept]
    exact subI64_release_iff sp.toNat base.toNat

theorem new_loop_stackDelta_iff_farStack :
    let app := App.new farPlatform .inKeyOrder farStack "trace.tdb"
    ∀ p ∈ visited (handle farPlatform) app [.key (.char 'l'), .draw true],
      ∀ e, farStack.getAll[p.1.current]? = some e →
        ∃ first sp base, farStack.getAll[0]? = some first ∧ StackPointerIs farPlatform e sp ∧
          StackPointerIs farPlatform first base ∧
          (DeltaExact farPlatform p.1 sp base ↔ sp.toNat < 2 ^ 63 ∧ base.toNat < 2 ^ 63) ∧
          ((∀ build, DeltaShown build farPlatform p.1 (sp.toNat - base.toNat)) ↔
            (sp.toNat < 2 ^ 63 ↔ base.toNat < 2 ^ 63)) ∧
          (DeltaShown .release farPlatform p.1 (sp.toNat - base.toNat) ↔
            -2 ^ 63 ≤ (sp.toNat - base.toNat : Int) ∧ (sp.toNat - base.toNat : Int) < 2 ^ 63) :=
  new_loop_stackDelta_iff farPlatform .inKeyOrder "trace.tdb" farStack_allHaveStackPointers _

-- A stack pointer 2 ^ 63 above the first one is shown as that far below it.
theorem loop_farStack_wrongSign :
    ¬ ∀ (data : List UInt8) (db : TraceDb) (events : List Event),
      TraceDb.load (.ok data) "trace.tdb" = .ok db → AllHaveStackPointers farPlatform db.getAll →
        ∀ p ∈ visited (handle farPlatform) (App.new farPlatform .inKeyOrder db "trace.tdb") events,
          ∀ e, db.getAll[p.1.current]? = some e →
            ∃ first sp base, db.getAll[0]? = some first ∧ StackPointerIs farPlatform e sp ∧
              StackPointerIs farPlatform first base ∧ DeltaExact farPlatform p.1 sp base := by
  intro h
  have hload : TraceDb.load (.ok farStack.serialize) "trace.tdb" = .ok farStack :=
    TraceDb.load_saved farStack (by decide +kernel) "trace.tdb"
  obtain ⟨p, hp, hselected⟩ : ∃ p ∈ visited (handle farPlatform)
      (App.new farPlatform .inKeyOrder farStack "trace.tdb") [.key (.char 'l'), .draw true],
      farStack.getAll[p.1.current]? = some highEntry :=
    ⟨_, List.getLast_mem (List.cons_ne_nil _ _), by decide +kernel⟩
  obtain ⟨first, sp, base, hfirst, hsp, hbase, hexact⟩ :=
    h _ _ _ hload farStack_allHaveStackPointers p hp highEntry hselected
  have htrace := (visited_wellIndexed .inKeyOrder farStack "trace.tdb" _ p hp).2
  have hkept := (visited_baseSp _ p hp).trans (new_baseSp hfirst hbase)
  rw [farStack_getAll, List.getElem?_cons_zero, Option.some.injEq] at hfirst
  subst hfirst
  obtain rfl := hsp.unique highEntry_stackPointerIs
  obtain rfl := hbase.unique lowEntry_stackPointerIs
  have hshown := hexact.shown .release
  rw [← htrace] at hselected
  rw [deltaShown_iff hselected hsp hkept, subI64_release_iff] at hshown
  exact absurd hshown.2 (by decide)

end Session

end Tdb.Tui
