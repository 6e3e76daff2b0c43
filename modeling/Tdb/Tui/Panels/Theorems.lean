import Tdb.TraceLoop.Recorded
import Tdb.Tracer.Chain
import Tdb.Tracer.Registers
import Tdb.Tui.Panels

namespace Tdb.Tui

open Tdb.Library Tdb.Storage Tdb.Stats Tdb.Tracer Tdb.TraceLoop App

variable {arch : Arch}

section Order

-- The registers of a thread in the order in which the panel has them.
def panelNames : Arch → List String
  | .x86_64 => registerNames .x86_64
  | .aarch64 => ((List.range 29).map fun i => s!"x{i}") ++ ["pc", "fp", "lr", "sp", "cpsr"]

def KeyLE (a b : String) : Prop :=
  (regSortKey a).1 < (regSortKey b).1 ∨
    (regSortKey a).1 = (regSortKey b).1 ∧ (regSortKey a).2 ≤ (regSortKey b).2

instance : DecidableRel KeyLE := fun _ _ => inferInstanceAs (Decidable (_ ∨ _))

instance : Std.Total KeyLE where
  total a b := by
    unfold KeyLE
    omega

instance : IsTrans String KeyLE where
  trans a b c hab hbc := by
    unfold KeyLE at hab hbc ⊢
    omega

theorem panelNames_perm (arch : Arch) : (panelNames arch).Perm (registerNames arch) := by
  cases arch <;> decide +kernel

theorem panelNames_pairwise (arch : Arch) : (panelNames arch).Pairwise KeyLE := by
  cases arch <;> decide +kernel

-- No two registers have the same key.
theorem keyLE_antisymm (arch : Arch) : ∀ a ∈ registerNames arch, ∀ b ∈ registerNames arch,
    KeyLE a b → KeyLE b a → a = b := by
  cases arch <;> decide +kernel

-- The order of the map does not show.
theorem sortedNames_eq (keys : KeyOrder) {regs : List (String × Value)}
    (h : (regs.map Prod.fst).Perm (registerNames arch)) : sortedNames keys regs = panelNames arch := by
  have hkeys := (keys.keys_perm (regs.map Prod.fst)).trans h
  have hsorted : (sortedNames keys regs).Perm (registerNames arch) :=
    (List.perm_insertionSort _ _).trans hkeys
  refine List.Perm.eq_of_pairwise ?_ (List.pairwise_insertionSort KeyLE _)
    (panelNames_pairwise arch) (hsorted.trans (panelNames_perm arch).symm)
  intro a b ha hb
  exact keyLE_antisymm arch a (hsorted.mem_iff.mp ha) b ((panelNames_perm arch).mem_iff.mp hb)

end Order

section Registers

-- `serde_json` reads an object of natural numbers back that it has written.
def ReadsBack (platform : Platform) : Prop :=
  ∀ fields : List (String × Nat), (fields.map Prod.fst).Nodup →
    (∀ m ∈ fields, Json.PlainKey m.1 ∧ m.2 < 2 ^ 64) →
      platform.fromStr (jsonObject fields) = .ok (.obj ((sortedMembers fields).map fun m =>
        (m.1, .num (.posInt (UInt64.ofNat m.2)))))

variable (state : ThreadState arch)

def regsFields : List (String × Value) :=
  (sortedMembers state.registers).map fun m => (m.1, .num (.posInt (UInt64.ofNat m.2)))

def registerOf (name : String) : Nat :=
  (state.registers.lookup name).getD 0

theorem registerOf_eq_iff {name : String} (hname : name ∈ registerNames arch) (n : Nat) :
    registerOf state name = n ↔ (name, n) ∈ state.registers := by
  rw [← registers_names state] at hname
  obtain ⟨m, hm, rfl⟩ := List.mem_map.mp hname
  have hlookup := lookup_eq_some_iff_mem (registers_nodup state) m.1
  unfold registerOf
  rw [← hlookup, (hlookup m.2).mpr hm, Option.getD_some, Option.some.injEq]

theorem registerOf_mem {name : String} (hname : name ∈ registerNames arch) :
    (name, registerOf state name) ∈ state.registers :=
  (registerOf_eq_iff state hname _).mp rfl

theorem registerOf_lt {name : String} (hname : name ∈ registerNames arch) :
    registerOf state name < 2 ^ 64 :=
  registers_lt state _ (registerOf_mem state hname)

theorem regsFields_names : ((regsFields state).map Prod.fst).Perm (registerNames arch) := by
  have hnames : (regsFields state).map Prod.fst = (sortedMembers state.registers).map Prod.fst := by
    unfold regsFields
    rw [List.map_map]
    rfl
  rw [hnames, ← registers_names state]
  refine List.Perm.map Prod.fst ((List.perm_ext_iff_of_nodup ?_ ?_).mpr fun m =>
    mem_sortedMembers_iff (registers_nodup state) m)
  · exact (sortedMembers_nodup _).of_map _
  · exact (registers_nodup state).of_map _

theorem lookup_regsFields {name : String} (hname : name ∈ registerNames arch) :
    (regsFields state).lookup name =
      some (.num (.posInt (UInt64.ofNat (registerOf state name)))) := by
  have hnodup : ((regsFields state).map Prod.fst).Nodup :=
    (regsFields_names state).nodup_iff.mpr (registerNames_nodup arch)
  have hmem := (mem_sortedMembers_iff (registers_nodup state) _).mpr (registerOf_mem state hname)
  exact (lookup_eq_some_iff_mem hnodup _ _).mpr (List.mem_map.mpr ⟨_, hmem, rfl⟩)

variable {state} {platform : Platform} (hreads : ReadsBack platform)
include hreads

theorem fromStr_recorded {e : TraceEntry} (he : e.regs = state.regs) :
    platform.fromStr e.regs = .ok (.obj (regsFields state)) := by
  have hplain : ∀ m ∈ state.registers, Json.PlainKey m.1 ∧ m.2 < 2 ^ 64 := by
    intro m hm
    have hname : m.1 ∈ registerNames arch := registers_names state ▸ List.mem_map_of_mem hm
    exact ⟨registerNames_plain arch m.1 hname, registers_lt state m hm⟩
  rw [he, regs_eq, hreads _ (registers_nodup state) hplain]
  rfl

theorem objectOf_recorded {e : TraceEntry} (he : e.regs = state.regs) :
    objectOf platform e = some (regsFields state) := by
  unfold objectOf
  rw [fromStr_recorded hreads he]
  rfl

-- The panel has a line for every register, whatever the order of the map.
theorem renderRegisters_recorded (keys : KeyOrder) {app : App} {e : TraceEntry}
    (hcurrent : app.trace[app.current]? = some e) (he : e.regs = state.regs) :
    (renderRegisters platform keys app).lines = (panelNames arch).map fun name =>
      registerLine app.prevRegs name (.num (.posInt (UInt64.ofNat (registerOf state name)))) := by
  have hregs : currentRegs platform app = regsFields state := by
    unfold currentRegs
    rw [hcurrent]
    dsimp only
    rw [objectOf_recorded hreads he, Option.getD_some]
  unfold renderRegisters
  dsimp only
  rw [hregs, sortedNames_eq keys (regsFields_names state), ← List.filterMap_eq_map]
  refine List.filterMap_congr fun name hname => ?_
  rw [lookup_regsFields state ((panelNames_perm arch).mem_iff.mp hname)]
  rfl

end Registers

section Session

-- The panel of a thread: each register has a line, with all of its sixteen digits.
structure RegistersExact (state : ThreadState arch) (panel : Registers) : Prop where
  title : panel.title = s!" Registers ({(registerNames arch).length}) "
  names : panel.lines.map RegisterLine.name = panelNames arch
  texts : ∀ line ∈ panel.lines, ∃ digits, line.text = "0x" ++ String.ofList digits ∧
    digits.length = 16 ∧ (line.name, Hex.value digits) ∈ state.registers

def Changed (before after : ThreadState arch) (name : String) : Prop :=
  ∃ m n, (name, m) ∈ before.registers ∧ (name, n) ∈ after.registers ∧ m ≠ n

variable {platform : Platform} (hreads : ReadsBack platform)
include hreads

theorem registersExact_of_recorded {state : ThreadState arch} (keys : KeyOrder) {app : App}
    {e : TraceEntry} (hcurrent : app.trace[app.current]? = some e) (he : e.regs = state.regs) :
    RegistersExact state (renderRegisters platform keys app) := by
  have hlines := renderRegisters_recorded hreads keys hcurrent he
  refine ⟨?_, ?_, fun line hline => ?_⟩
  · have hregs : currentRegs platform app = regsFields state := by
      unfold currentRegs
      rw [hcurrent]
      dsimp only
      rw [objectOf_recorded hreads he, Option.getD_some]
    have hlength := (regsFields_names state).length_eq
    rw [List.length_map] at hlength
    unfold renderRegisters
    dsimp only
    rw [hregs, hlength]
  · rw [hlines, List.map_map]
    exact List.map_id _
  · rw [hlines] at hline
    obtain ⟨name, hname, rfl⟩ := List.mem_map.mp hline
    have hknown := (panelNames_perm arch).mem_iff.mp hname
    have hlt := registerOf_lt state hknown
    have htext : (UInt64.ofNat (registerOf state name)).toNat = registerOf state name :=
      UInt64.toNat_ofNat_of_lt' hlt
    refine ⟨Hex.fixed 16 (registerOf state name), ?_, Hex.length_fixed 16 _, ?_⟩
    · unfold registerLine
      change "0x" ++ String.ofList (Hex.fixed 16 (UInt64.ofNat (registerOf state name)).toNat) = _
      rw [htext]
    · rw [Hex.value_fixed (by decide) hlt]
      exact registerOf_mem state hknown

theorem differs_iff {before after : ThreadState arch} {e e' : TraceEntry}
    (he : e.regs = before.regs) (he' : e'.regs = after.regs) (name : String) :
    Differs platform e e' name ↔ Changed before after name := by
  unfold Differs Changed
  rw [objectOf_recorded hreads he, objectOf_recorded hreads he', Option.bind_some, Option.bind_some]
  by_cases hname : name ∈ registerNames arch
  · rw [lookup_regsFields before hname, lookup_regsFields after hname]
    have hlt := registerOf_lt before hname
    have hlt' := registerOf_lt after hname
    have hsame : ∀ m n : Nat, m < 2 ^ 64 → n < 2 ^ 64 →
        (Value.same (.num (.posInt (UInt64.ofNat m))) (.num (.posInt (UInt64.ofNat n))) = false ↔
          m ≠ n) := by
      intro m n hm hn
      change (UInt64.ofNat m == UInt64.ofNat n) = false ↔ _
      rw [beq_eq_false_iff_ne, Ne, ← UInt64.toNat_inj, UInt64.toNat_ofNat_of_lt' hm,
        UInt64.toNat_ofNat_of_lt' hn]
    constructor
    · rintro ⟨_, _, ⟨rfl⟩, ⟨rfl⟩, hdiffers⟩
      exact ⟨_, _, registerOf_mem before hname, registerOf_mem after hname,
        (hsame _ _ hlt hlt').mp hdiffers⟩
    · rintro ⟨m, n, hm, hn, hne⟩
      rw [← registerOf_eq_iff before hname] at hm
      rw [← registerOf_eq_iff after hname] at hn
      subst hm hn
      exact ⟨_, _, rfl, rfl, (hsame _ _ hlt hlt').mpr hne⟩
  · have hnone : ∀ state : ThreadState arch, ∀ n, (name, n) ∉ state.registers := fun state n hn =>
      hname (registers_names state ▸ List.mem_map_of_mem (f := Prod.fst) hn)
    constructor
    · rintro ⟨old, _, hold, _, _⟩
      have hmem := List.mem_map_of_mem (f := Prod.fst) (mem_of_lookup_eq_some hold)
      exact absurd ((regsFields_names before).mem_iff.mp hmem) hname
    · rintro ⟨m, _, hm, _, _⟩
      exact absurd hm (hnone before m)

-- After each event the lines of the panel are the registers that the call of the current entry has
-- seen, and after a move those in green are the ones that another value was seen in before it.
structure RegistersFollow (platform : Platform) (keys : KeyOrder) (states : List (Observation arch))
    (before after : App) (event : Event) : Prop where
  exact : ∀ o, states[after.current]? = some o →
    RegistersExact o.state (renderRegisters platform keys after)
  moved : ∀ code, event = .key code → ∀ o o', states[before.current]? = some o →
    states[after.current]? = some o' → after.current ≠ before.current →
      ∀ name, name ∈ highlighted platform keys after ↔ Changed o.state o'.state name

theorem new_loop_registersFollow {start : Tracer} {iterations : List (Iteration arch)} {db : TraceDb}
    (hholds : Holds start iterations db) (order : HashOrder) (keys : KeyOrder) (traceFile : String)
    (events : List Event) :
    ∀ p ∈ visited (handle platform) (App.new platform order db traceFile) events,
      RegistersFollow platform keys (seen start iterations) p.1 (handle platform p.1 p.2).state
        p.2 := by
  intro p hp
  obtain ⟨hwf, htrace⟩ := visited_wellIndexed order db traceFile events p hp
  have hkept := (handle_handles platform hwf p.2).trace_eq
  refine ⟨fun o ho => ?_, fun code hcode o o' ho ho' hmoved => ?_⟩
  · obtain ⟨e, he, hregs⟩ := hholds.exists_entry ho
    rw [← htrace, ← hkept] at he
    exact registersExact_of_recorded hreads keys he hregs
  · obtain ⟨e, he, hregs⟩ := hholds.exists_entry ho
    obtain ⟨e', he', hregs'⟩ := hholds.exists_entry ho'
    have hobjects : AllObjects platform p.1.trace := by
      intro e he
      rw [htrace] at he
      obtain ⟨state, hregs⟩ := hholds.exists_state he
      rw [objectOf_recorded hreads hregs]
      rfl
    obtain ⟨app', hkey, hanswers⟩ := handleKey_answers platform hwf code
    rw [hcode, handle_key hkey] at hkept hmoved he' ⊢
    obtain ⟨f, f', hf, hf', hshown⟩ := hanswers.showsMove hwf hobjects hkept hmoved
    rw [htrace] at hf hf'
    rw [he] at hf
    rw [he'] at hf'
    cases hf
    cases hf'
    intro name
    rw [hshown name]
    exact differs_iff hreads hregs hregs' name

end Session

section Samples

-- A reader of JSON whose numbers are u64 where they can be.
def jsonNumber (d : Decimal) : Number :=
  if d.negative = false ∧ d.exponent = 0 ∧ d.mantissa < 2 ^ 64 then
    .posInt (UInt64.ofNat d.mantissa)
  else
    .float 0

def jsonPlatform : Platform where
  fromStr text :=
    match Json.parse jsonNumber text with
    | some v => .ok v
    | none => .error "expected value at line 1 column 1"
  tables := .ascii

theorem jsonPlatform_readsBack : ReadsBack jsonPlatform := by
  intro fields hnodup hfields
  have hsorted : ∀ m ∈ sortedMembers fields, Json.PlainKey m.1 ∧ m.2 < 2 ^ 64 :=
    fun m hm => hfields m ((mem_sortedMembers_iff hnodup m).mp hm)
  have hparse := Json.parse_object jsonNumber (sortedMembers fields) (sortedMembers_nodup fields)
    (fun m hm => (hsorted m hm).1) (jsonObject_toList fields)
  have hnumbers : (sortedMembers fields).map (fun m => (m.1, Json.num
      (jsonNumber { negative := false, mantissa := m.2, exponent := 0 }))) =
      (sortedMembers fields).map fun m => (m.1, Json.num (.posInt (UInt64.ofNat m.2))) := by
    refine List.map_congr_left fun m hm => ?_
    unfold jsonNumber
    rw [if_pos ⟨rfl, rfl, (hsorted m hm).2⟩]
  unfold jsonPlatform
  dsimp only
  rw [hparse, hnumbers]

-- A stack pointer that goes to and fro.
def twoFramesTraced : List (Iteration .aarch64) :=
  twoFrames.map fun env => { running := true, env }

def twoFramesDb : TraceDb :=
  (loop iterate { tracer := sampleStart } twoFramesTraced).state.tracer.db

theorem twoFramesDb_holds : Holds sampleStart twoFramesTraced twoFramesDb :=
  loop_holds (fresh_gapFree _ _ _) fresh_getAll twoFramesTraced

theorem new_loop_registersFollow_twoFrames :
    let app := App.new jsonPlatform .inKeyOrder twoFramesDb "out.tdb"
    ∀ p ∈ visited (handle jsonPlatform) app [.draw true, .key .right],
      RegistersFollow jsonPlatform .asListed (seen sampleStart twoFramesTraced) p.1
        (handle jsonPlatform p.1 p.2).state p.2 :=
  new_loop_registersFollow jsonPlatform_readsBack twoFramesDb_holds .inKeyOrder .asListed "out.tdb" _

end Samples

end Tdb.Tui
