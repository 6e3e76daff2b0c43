import Tdb.Library.Hex
import Tdb.Library.Numeral
import Tdb.Tui.Theorems

namespace Tdb.Tui

open Tdb.Library Tdb.Storage Tdb.Stats App

section Rendering

-- `==` on numbers. None of them is NaN, and the two zeros are equal.
def Number.same : Number → Number → Bool
  | .posInt m, .posInt n => m == n
  | .negInt m, .negInt n => m == n
  | .float m, .float n => m == n || (m <<< 1 == 0 && n <<< 1 == 0)
  | _, _ => false

-- `==` on values. Both objects have their members in the order of the keys.
mutual

def Value.same : Value → Value → Bool
  | .null, .null => true
  | .bool b, .bool c => b == c
  | .num m, .num n => m.same n
  | .str s, .str t => s == t
  | .arr items, .arr others => sameItems items others
  | .obj fields, .obj others => sameFields fields others
  | _, _ => false
termination_by structural v => v

def sameItems : List Value → List Value → Bool
  | [], [] => true
  | v :: rest, w :: others => Value.same v w && sameItems rest others
  | _, _ => false
termination_by structural items => items

def sameFields : List (String × Value) → List (String × Value) → Bool
  | [], [] => true
  | field :: rest, other :: others => sameField field other && sameFields rest others
  | _, _ => false
termination_by structural fields => fields

def sameField : String × Value → String × Value → Bool
  | (name, v), (other, w) => name == other && Value.same v w
termination_by structural field => field

end

-- `str::parse::<u32>`
def parseU32 (text : List Char) : Option Nat :=
  Numeral.readUnsigned (2 ^ 32) (String.ofList text)

-- General registers come before special ones, and the flags after them.
def namedSortKey : String → Nat × Nat
  | "rax" => (0, 0)
  | "rbx" => (0, 1)
  | "rcx" => (0, 2)
  | "rdx" => (0, 3)
  | "rdi" => (0, 4)
  | "rsi" => (0, 5)
  | "rbp" => (0, 6)
  | "rsp" => (0, 7)
  | "rip" | "pc" => (1, 0)
  | "fp" => (1, 1)
  | "lr" => (1, 2)
  | "sp" => (1, 3)
  | "rflags" | "cpsr" => (2, 0)
  | _ => (1, 99)

def regSortKey (name : String) : Nat × Nat :=
  match name.toList with
  | 'x' :: rest | 'r' :: rest =>
      match parseU32 rest with
      | some n => (0, n)
      | none => namedSortKey name
  | _ => namedSortKey name

-- The order in which the map of the registers has its keys.
structure KeyOrder where
  keys : List String → List String
  keys_perm : ∀ names, (keys names).Perm names

structure RegisterLine where
  name : String
  label : String
  text : String
  changed : Bool
deriving DecidableEq, Repr

structure Registers where
  title : String
  lines : List RegisterLine
deriving DecidableEq, Repr

-- The members of the entry's registers, if they are an object.
def objectOf (platform : Platform) (e : TraceEntry) : Option (List (String × Value)) :=
  match platform.fromStr e.regs with
  | .ok v => v.asObject
  | .error _ => none

def currentRegs (platform : Platform) (app : App) : List (String × Value) :=
  match app.trace[app.current]? with
  | some e => (objectOf platform e).getD []
  | none => []

-- A register is highlighted when the registers of before have another value for it.
def regChanged (prevRegs : Option (List (String × Value))) (name : String) (val : Value) : Bool :=
  ((prevRegs.bind fun regs => regs.lookup name).map fun old => !old.same val).getD false

def registerLine (prevRegs : Option (List (String × Value))) (name : String) (val : Value) :
    RegisterLine where
  name
  label := " " ++ "".pushn ' ' (4 - name.length) ++ name ++ " "
  text := "0x" ++ String.ofList (Hex.fixed 16 (val.asU64.getD 0).toNat)
  changed := regChanged prevRegs name val

def sortedNames (order : KeyOrder) (regs : List (String × Value)) : List String :=
  (order.keys (regs.map Prod.fst)).insertionSort fun a b =>
    (regSortKey a).1 < (regSortKey b).1 ∨
      (regSortKey a).1 = (regSortKey b).1 ∧ (regSortKey a).2 ≤ (regSortKey b).2

def renderRegisters (platform : Platform) (order : KeyOrder) (app : App) : Registers :=
  let regs := currentRegs platform app
  { title := s!" Registers ({regs.length}) "
    lines := (sortedNames order regs).filterMap fun name =>
      (regs.lookup name).map fun val => registerLine app.prevRegs name val }

end Rendering

section Highlighted

variable {platform : Platform} {order : KeyOrder} {app : App}

-- The registers that are drawn in green.
def highlighted (platform : Platform) (order : KeyOrder) (app : App) : List String :=
  ((renderRegisters platform order app).lines.filter RegisterLine.changed).map RegisterLine.name

theorem regChanged_iff (prevRegs : Option (List (String × Value))) (name : String) (val : Value) :
    regChanged prevRegs name val = true ↔ ∃ old,
      (prevRegs.bind fun regs => regs.lookup name) = some old ∧ old.same val = false := by
  unfold regChanged
  cases prevRegs.bind fun regs => regs.lookup name with
  | none => simp
  | some old => simp

theorem mem_sortedNames_of_lookup {regs : List (String × Value)} {name : String} {val : Value}
    (h : regs.lookup name = some val) : name ∈ sortedNames order regs := by
  unfold sortedNames
  rw [List.mem_insertionSort, (order.keys_perm _).mem_iff]
  obtain ⟨before, after, rfl, _⟩ := List.lookup_eq_some_iff.mp h
  simp

theorem mem_highlighted_iff (name : String) :
    name ∈ highlighted platform order app ↔ ∃ old new,
      (app.prevRegs.bind fun regs => regs.lookup name) = some old ∧
        (currentRegs platform app).lookup name = some new ∧ old.same new = false := by
  unfold highlighted renderRegisters
  simp only [List.mem_map, List.mem_filter, List.mem_filterMap, Option.map_eq_some_iff]
  constructor
  · rintro ⟨line, ⟨⟨name', hname', new, hnew, rfl⟩, hchanged⟩, rfl⟩
    obtain ⟨old, hold, hdiffers⟩ := (regChanged_iff app.prevRegs name' new).mp hchanged
    exact ⟨old, new, hold, hnew, hdiffers⟩
  · rintro ⟨old, new, hold, hnew, hdiffers⟩
    refine ⟨registerLine app.prevRegs name new, ⟨⟨name, ?_, new, hnew, rfl⟩, ?_⟩, rfl⟩
    · exact mem_sortedNames_of_lookup hnew
    · exact (regChanged_iff app.prevRegs name new).mpr ⟨old, hold, hdiffers⟩

end Highlighted

section Asked

variable {platform : Platform} {app : App}

-- What becomes of the current entry and of the registers kept for the diff.
inductive Answers (platform : Platform) (app : App) : Option Nat → App → Prop where
  | ignored (place : Option Nat) (app' : App) (hout : ∀ idx ∈ place, app.trace.length ≤ idx)
      (hcurrent : app'.current = app.current) (hregs : app'.prevRegs = app.prevRegs) :
      Answers platform app place app'
  | selected (idx : Nat) (app' : App) (hidx : idx < app.trace.length)
      (hcurrent : app'.current = idx) (hregs : app.savedRegs platform = .ok app'.prevRegs) :
      Answers platform app (some idx) app'

theorem answers_none {app' : App} (hcurrent : app'.current = app.current)
    (hregs : app'.prevRegs = app.prevRegs) : Answers platform app none app' :=
  .ignored none app' (fun _ hidx => by cases hidx) hcurrent hregs

theorem select_answers (idx : Nat) :
    ∃ app', app.select platform idx = .ok app' ∧ Answers platform app (some idx) app' := by
  by_cases hidx : idx < app.trace.length
  · obtain ⟨regs, hregs⟩ := savedRegs_ok platform app
    refine ⟨app.moveTo idx regs, ?_, .selected idx _ hidx (moveTo_current ..) ?_⟩
    · unfold select
      rw [if_neg (by omega), hregs]
      rfl
    · rw [hregs, moveTo_prevRegs]
  · refine ⟨app, select_of_ge (by omega), .ignored _ _ ?_ rfl rfl⟩
    rintro _ ⟨rfl⟩
    omega

theorem handleKey_answers (platform : Platform) (hwf : app.WellIndexed) (code : KeyCode) :
    ∃ app', handleKey platform app code = .ok app' ∧
      Answers platform app (asked platform app code) app' := by
  rw [handleKey_eq platform code hwf]
  obtain ⟨mode, listed, quit, hprepared⟩ := prepared_eq platform app code
  rw [hprepared]
  cases asked platform app code with
  | none => exact ⟨_, rfl, answers_none rfl rfl⟩
  | some idx =>
      let prepared : App := { app with mode, filteredIndices := listed, shouldQuit := quit }
      obtain ⟨app', hselect, hanswers⟩ : ∃ app', prepared.select platform idx = .ok app' ∧
          Answers platform prepared (some idx) app' := select_answers idx
      refine ⟨app', hselect, ?_⟩
      cases hanswers with
      | ignored _ _ hout hcurrent hregs => exact .ignored _ _ hout hcurrent hregs
      | selected _ _ hidx hcurrent hregs => exact .selected _ _ hidx hcurrent hregs

end Asked

section Diff

variable {platform : Platform} {order : KeyOrder} {app : App}

-- As the tracer writes the registers.
def AllObjects (platform : Platform) (entries : List TraceEntry) : Prop :=
  ∀ e ∈ entries, (objectOf platform e).isSome = true

-- Whether a register is in both entries, with different values.
def Differs (platform : Platform) (e e' : TraceEntry) (name : String) : Prop :=
  ∃ old new, ((objectOf platform e).bind fun regs => regs.lookup name) = some old ∧
    ((objectOf platform e').bind fun regs => regs.lookup name) = some new ∧ old.same new = false

-- Where the current entry stays, so does what it is compared with.
def Undisturbed (platform : Platform) (order : KeyOrder) (app app' : App) : Prop :=
  app'.current = app.current →
    app'.prevRegs = app.prevRegs ∧
      highlighted platform order app' = highlighted platform order app

-- Behind a move stands what differs between its two ends.
def ShowsMove (platform : Platform) (order : KeyOrder) (app app' : App) : Prop :=
  app'.current ≠ app.current →
    ∃ e e', app.trace[app.current]? = some e ∧ app.trace[app'.current]? = some e' ∧
      ∀ name, name ∈ highlighted platform order app' ↔ Differs platform e e' name

-- Selecting the current entry again makes it what it is compared with. That is a change unless
-- it was so before.
def KeepsBase (platform : Platform) (app : App) (code : KeyCode) : Prop :=
  asked platform app code = some app.current →
    ∀ e, app.trace[app.current]? = some e → app.prevRegs = objectOf platform e

theorem savedRegs_of_isSome {e : TraceEntry} (he : app.trace[app.current]? = some e)
    (hobject : (objectOf platform e).isSome = true) :
    app.savedRegs platform = .ok (objectOf platform e) := by
  obtain ⟨hlt, rfl⟩ := List.getElem?_eq_some_iff.mp he
  unfold savedRegs
  rw [if_pos hlt, index_of_lt hlt]
  dsimp only
  unfold objectOf at hobject ⊢
  cases hparse : platform.fromStr app.trace[app.current].regs with
  | error message => simp [hparse] at hobject
  | ok v =>
      rw [hparse] at hobject
      obtain ⟨fields, hfields⟩ := Option.isSome_iff_exists.mp hobject
      simp only [hfields]

theorem highlighted_of_same {app' : App} (htrace : app'.trace = app.trace)
    (hcurrent : app'.current = app.current) (hregs : app'.prevRegs = app.prevRegs) :
    highlighted platform order app' = highlighted platform order app := by
  unfold highlighted renderRegisters currentRegs
  rw [htrace, hcurrent, hregs]

theorem lookup_currentRegs {e : TraceEntry} (he : app.trace[app.current]? = some e)
    (name : String) : (currentRegs platform app).lookup name =
      (objectOf platform e).bind fun regs => regs.lookup name := by
  unfold currentRegs
  rw [he]
  dsimp only
  cases objectOf platform e with
  | none => rfl
  | some regs => rfl

variable {app' : App} {code : KeyCode}

theorem Answers.undisturbed_iff (hobjects : AllObjects platform app.trace)
    (htrace : app'.trace = app.trace)
    (h : Answers platform app (asked platform app code) app') :
    Undisturbed platform order app app' ↔ KeepsBase platform app code := by
  generalize hplace : asked platform app code = place at h
  unfold Undisturbed KeepsBase
  rw [hplace]
  cases h with
  | ignored _ _ hout hcurrent hregs =>
      refine iff_of_true (fun _ => ⟨hregs, highlighted_of_same htrace hcurrent hregs⟩) ?_
      intro hstay e he
      have hlt := (List.getElem?_eq_some_iff.mp he).1
      have hge := hout app.current hstay
      omega
  | selected idx _ hidx hcurrent hregs =>
      rw [hcurrent, Option.some.injEq]
      refine imp_congr_right fun hstay => ?_
      subst hstay
      have he := List.getElem?_eq_getElem hidx
      have hobject := hobjects _ (List.getElem_mem hidx)
      rw [savedRegs_of_isSome he hobject, Except.ok.injEq] at hregs
      constructor
      · rintro ⟨hkept, _⟩ e he'
        rw [he, Option.some.injEq] at he'
        rw [← hkept, ← hregs, he']
      · intro hbase
        have hkept := hregs.symm.trans (hbase _ he).symm
        exact ⟨hkept, highlighted_of_same htrace hcurrent hkept⟩

theorem Answers.showsMove (hwf : app.WellIndexed) (hobjects : AllObjects platform app.trace)
    (htrace : app'.trace = app.trace) {place : Option Nat} (h : Answers platform app place app') :
    ShowsMove platform order app app' := by
  intro hmoved
  cases h with
  | ignored _ _ hout hcurrent hregs => exact absurd hcurrent hmoved
  | selected idx _ hidx hcurrent hregs =>
      have hfrom := hwf.current_lt (List.ne_nil_of_length_pos (by omega))
      obtain ⟨e, he⟩ : ∃ e, app.trace[app.current]? = some e := ⟨_, List.getElem?_eq_getElem hfrom⟩
      obtain ⟨e', he'⟩ : ∃ e', app.trace[app'.current]? = some e' := by
        rw [hcurrent]
        exact ⟨_, List.getElem?_eq_getElem hidx⟩
      refine ⟨e, e', he, he', fun name => ?_⟩
      rw [savedRegs_of_isSome he (hobjects e (List.mem_of_getElem? he)), Except.ok.injEq] at hregs
      rw [← htrace] at he'
      rw [mem_highlighted_iff, ← hregs, lookup_currentRegs he']
      rfl

end Diff

section Session

-- A platform that reads the registers of two entries.
def stackPlatform : Platform where
  fromStr text :=
    if text = "\x7b\"sp\":1\x7d" then .ok (.obj [("sp", .num (.posInt 1))])
    else if text = "\x7b\"sp\":2\x7d" then .ok (.obj [("sp", .num (.posInt 2))])
    else .error "expected value at line 1 column 1"
  tables := .ascii

def movedStack : TraceDb :=
  TraceDb.ofInserts "trace.tdb"
    [⟨0, 0x1000, [0xff, 0x43, 0x00, 0xd1], "sub sp, sp, #0x10", "\x7b\"sp\":1\x7d", []⟩,
      ⟨1, 0x1004, [0x1f, 0x20, 0x03, 0xd5], "nop", "\x7b\"sp\":2\x7d", []⟩]

def KeyOrder.asListed : KeyOrder where
  keys names := names
  keys_perm _ := .refl _

theorem movedStack_allObjects : AllObjects stackPlatform movedStack.getAll := by
  unfold AllObjects
  decide +kernel

-- The registers that are highlighted change under a current entry that stays only when a key
-- selects it again.
theorem new_loop_diffKept_iff (platform : Platform) (order : HashOrder) (keys : KeyOrder)
    {db : TraceDb} (traceFile : String) (hobjects : AllObjects platform db.getAll)
    (events : List Event) :
    ∀ p ∈ visited (handle platform) (App.new platform order db traceFile) events,
      ∀ code, p.2 = .key code →
        (Undisturbed platform keys p.1 (handle platform p.1 p.2).state ↔
          KeepsBase platform p.1 code) ∧
        ShowsMove platform keys p.1 (handle platform p.1 p.2).state := by
  intro p hp code hcode
  obtain ⟨hwf, htrace⟩ := visited_wellIndexed order db traceFile events p hp
  have hkept := (handle_handles platform hwf p.2).trace_eq
  rw [← htrace] at hobjects
  obtain ⟨app', hkey, hanswers⟩ := handleKey_answers platform hwf code
  rw [hcode, handle_key hkey] at hkept ⊢
  exact ⟨hanswers.undisturbed_iff hobjects hkept, hanswers.showsMove hwf hobjects hkept⟩

theorem new_loop_diffKept_iff_movedStack :
    let app := App.new stackPlatform .inKeyOrder movedStack "trace.tdb"
    ∀ p ∈ visited (handle stackPlatform) app [.key (.char 'l'), .key (.char 'l')],
      ∀ code, p.2 = .key code →
        (Undisturbed stackPlatform .asListed p.1 (handle stackPlatform p.1 p.2).state ↔
          KeepsBase stackPlatform p.1 code) ∧
        ShowsMove stackPlatform .asListed p.1 (handle stackPlatform p.1 p.2).state :=
  new_loop_diffKept_iff stackPlatform .inKeyOrder .asListed "trace.tdb" movedStack_allObjects _

-- Pressing `l` on the last of two entries takes the green from the register that the step
-- before has changed.
theorem loop_steppedAtEnd_disturbed :
    ¬ ∀ (db : TraceDb) (events : List Event), AllObjects stackPlatform db.getAll →
      ∀ p ∈ visited (handle stackPlatform) (App.new stackPlatform .inKeyOrder db "trace.tdb") events,
        ∀ code, p.2 = .key code →
          Undisturbed stackPlatform .asListed p.1 (handle stackPlatform p.1 p.2).state ∧
            ShowsMove stackPlatform .asListed p.1 (handle stackPlatform p.1 p.2).state := by
  intro h
  have hlast := h movedStack [.key (.char 'l'), .key (.char 'l')] movedStack_allObjects _
    (List.getLast_mem (List.cons_ne_nil _ _)) (.char 'l') (by decide +kernel)
  have hgreen := (hlast.1 (by decide +kernel)).2
  revert hgreen
  decide +kernel

end Session

end Tdb.Tui
