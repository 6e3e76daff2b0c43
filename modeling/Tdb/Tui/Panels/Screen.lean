import Tdb.Library.Numeral
import Tdb.Tui.Panels.Theorems

namespace Tdb.Tui

open Tdb.Library Tdb.Storage Tdb.Stats Tdb.Tracer Tdb.TraceLoop App

section Texts

theorem ofList_append_injective (front back : String) {l l' : List Char}
    (h : front ++ String.ofList l ++ back = front ++ String.ofList l' ++ back) : l = l' := by
  have hlists := congrArg String.toList h
  simpa using hlists

theorem append_ofList_injective (front : String) {l l' : List Char}
    (h : front ++ String.ofList l = front ++ String.ofList l') : l = l' := by
  have hlists := congrArg String.toList h
  simpa using hlists

theorem fixed_injective {width m n : Nat} (hwidth : 0 < width) (hm : m < 16 ^ width)
    (hn : n < 16 ^ width) (h : Hex.fixed width m = Hex.fixed width n) : m = n := by
  rw [← Hex.value_fixed hwidth hm, h, Hex.value_fixed hwidth hn]

theorem fixed_byte_injective {b c : UInt8} (h : Hex.fixed 2 b.toNat = Hex.fixed 2 c.toNat) :
    b = c :=
  UInt8.toNat_inj.mp (fixed_injective (by decide) b.toNat_lt c.toNat_lt h)

theorem hexByte_injective : Function.Injective hexByte := by
  intro b c h
  exact fixed_byte_injective (String.ofList_inj.mp h)

theorem repr_injective {m n : Nat} (h : m.repr = n.repr) : m = n := by
  have hm := Numeral.readUnsigned_repr (m + n + 1) m
  have hn := Numeral.readUnsigned_repr (m + n + 1) n
  rw [if_pos (by omega)] at hm hn
  rw [h, hn] at hm
  exact (Option.some.inj hm).symm

def spaced (bytes : List UInt8) : List Char :=
  [' '].intercalate (bytes.map fun b => Hex.fixed 2 b.toNat)

theorem toList_bytes (bytes : List UInt8) :
    (" ".intercalate (bytes.map hexByte)).toList = spaced bytes := by
  rw [String.toList_intercalate, List.map_map]
  unfold spaced
  congr 1
  exact List.map_congr_left fun b _ => String.toList_ofList

theorem spaced_cons (b : UInt8) (bytes : List UInt8) :
    spaced (b :: bytes) = Hex.fixed 2 b.toNat ++ (if bytes = [] then [] else ' ' :: spaced bytes) := by
  unfold spaced
  cases bytes with
  | nil => simp [List.intercalate_singleton]
  | cons c rest =>
      rw [List.map_cons, List.map_cons, List.intercalate_cons_cons]
      simp

-- Two digits and a blank at a time.
theorem spaced_injective : Function.Injective spaced := by
  intro bytes
  induction bytes with
  | nil =>
      intro others h
      cases others with
      | nil => rfl
      | cons c rest =>
          have hlength := congrArg List.length h
          rw [spaced_cons, List.length_append, Hex.length_fixed] at hlength
          simp only [spaced, List.map_nil, List.intercalate_nil, List.length_nil] at hlength
          omega
  | cons b rest ih =>
      intro others h
      cases others with
      | nil =>
          have hlength := congrArg List.length h
          rw [spaced_cons, List.length_append, Hex.length_fixed] at hlength
          simp only [spaced, List.map_nil, List.intercalate_nil, List.length_nil] at hlength
          omega
      | cons c others =>
          rw [spaced_cons, spaced_cons] at h
          obtain ⟨hfirst, hrest⟩ := List.append_inj h
            ((Hex.length_fixed 2 _).trans (Hex.length_fixed 2 _).symm)
          rw [fixed_byte_injective hfirst]
          congr 1
          by_cases hnil : rest = []
          · by_cases hnil' : others = []
            · rw [hnil, hnil']
            · simp [hnil, hnil'] at hrest
          · by_cases hnil' : others = []
            · simp [hnil, hnil'] at hrest
            · rw [if_neg hnil, if_neg hnil'] at hrest
              exact ih (List.cons.inj hrest).2

theorem bytes_injective : Function.Injective fun bytes : List UInt8 =>
    " ".intercalate (bytes.map hexByte) := by
  intro bytes others h
  apply spaced_injective
  rw [← toList_bytes, ← toList_bytes]
  exact congrArg String.toList h

end Texts

section Memory

theorem memoryLine_injective : Function.Injective memoryLine := by
  intro c c' h
  obtain ⟨haddr, hold, hnew, _⟩ := MemoryLine.change.inj h
  obtain ⟨addr, oldVal, newVal⟩ := c
  obtain ⟨addr', oldVal', newVal'⟩ := c'
  rw [MemChange.mk.injEq]
  exact ⟨UInt64.toNat_inj.mp (Hex.padded_injective 12 (ofList_append_injective " 0x" " " haddr)),
    hexByte_injective hold, hexByte_injective hnew⟩

theorem remark_ne_memoryLine (text : String) (c : MemChange) : .remark text ≠ memoryLine c := by
  intro h
  cases h

theorem renderMemory_eq_iff {app app' : App} {e e' : TraceEntry}
    (he : app.trace[app.current]? = some e) (he' : app'.trace[app'.current]? = some e') :
    renderMemory app = renderMemory app' ↔ e.memChanges = e'.memChanges := by
  unfold renderMemory
  rw [he, he']
  dsimp only
  constructor
  · intro h
    have hlines := congrArg Memory.lines h
    dsimp only at hlines
    cases hchanges : e.memChanges with
    | nil =>
        cases hchanges' : e'.memChanges with
        | nil => rfl
        | cons c rest =>
            rw [hchanges, hchanges'] at hlines
            exact absurd (List.cons.inj hlines).1 (remark_ne_memoryLine _ c)
    | cons c rest =>
        cases hchanges' : e'.memChanges with
        | nil =>
            rw [hchanges, hchanges'] at hlines
            exact absurd (List.cons.inj hlines).1.symm (remark_ne_memoryLine _ c)
        | cons c' rest' =>
            rw [hchanges, hchanges'] at hlines
            exact List.map_injective_iff.mpr memoryLine_injective hlines
  · intro h
    rw [h]

end Memory

section Registers

variable {arch arch' : Arch} {state : ThreadState arch} {state' : ThreadState arch'}

def registerText (n : Nat) : String :=
  "0x" ++ String.ofList (Hex.fixed 16 n)

theorem registers_eq_map (state : ThreadState arch) :
    state.registers = (registerNames arch).map fun name => (name, registerOf state name) := by
  rw [← registers_names state, List.map_map]
  refine (List.map_id _).symm.trans (List.map_congr_left fun m hm => ?_)
  have hname : m.1 ∈ registerNames arch := registers_names state ▸ List.mem_map_of_mem hm
  have hvalue := (registerOf_eq_iff state hname m.2).mpr hm
  simp [hvalue]

theorem panelNames_injective (h : panelNames arch = panelNames arch') : arch = arch' := by
  have hlength := congrArg List.length h
  revert hlength
  cases arch <;> cases arch' <;> decide

theorem registers_of_texts {state state' : ThreadState arch}
    (h : ∀ name ∈ panelNames arch,
      registerText (registerOf state name) = registerText (registerOf state' name)) :
    state.registers = state'.registers := by
  rw [registers_eq_map, registers_eq_map]
  refine List.map_congr_left fun name hname => ?_
  have hdigits := append_ofList_injective "0x" (h name ((panelNames_perm arch).mem_iff.mpr hname))
  rw [fixed_injective (by decide) (registerOf_lt state hname) (registerOf_lt state' hname) hdigits]

variable {platform : Platform} (hreads : ReadsBack platform) {app app' : App} {e e' : TraceEntry}
include hreads

theorem renderRegisters_texts (keys : KeyOrder) (he : app.trace[app.current]? = some e)
    (hregs : e.regs = state.regs) :
    ((renderRegisters platform keys app).lines.map fun l => (l.name, l.text)) =
      (panelNames arch).map fun name => (name, registerText (registerOf state name)) := by
  rw [renderRegisters_recorded hreads keys he hregs, List.map_map]
  refine List.map_congr_left fun name hname => ?_
  have hlt := registerOf_lt state ((panelNames_perm arch).mem_iff.mp hname)
  have hvalue : (UInt64.ofNat (registerOf state name)).toNat = registerOf state name :=
    UInt64.toNat_ofNat_of_lt' hlt
  change (name, "0x" ++ String.ofList (Hex.fixed 16 (UInt64.ofNat (registerOf state name)).toNat)) = _
  rw [hvalue]
  rfl

theorem renderRegisters_texts_eq_iff (keys keys' : KeyOrder)
    (he : app.trace[app.current]? = some e) (he' : app'.trace[app'.current]? = some e')
    (hregs : e.regs = state.regs) (hregs' : e'.regs = state'.regs) :
    ((renderRegisters platform keys app).lines.map fun l => (l.name, l.text)) =
        ((renderRegisters platform keys' app').lines.map fun l => (l.name, l.text)) ↔
      e.regs = e'.regs := by
  constructor
  · intro h
    rw [renderRegisters_texts hreads keys he hregs, renderRegisters_texts hreads keys' he' hregs'] at h
    have hnames := congrArg (List.map Prod.fst) h
    rw [List.map_map, List.map_map] at hnames
    obtain rfl : arch = arch' :=
      panelNames_injective ((List.map_id _).symm.trans (hnames.trans (List.map_id _)))
    have htexts := List.map_inj_left.mp h
    rw [hregs, hregs', regs_eq, regs_eq, registers_of_texts fun name hname =>
      (Prod.mk.inj (htexts name hname)).2]
  · intro h
    rw [renderRegisters_texts hreads keys he hregs,
      renderRegisters_texts hreads keys' he' (h.symm.trans hregs)]

end Registers

section Screen

variable {build build' : Build} {platform : Platform} {app app' : App} {e e' : TraceEntry}
  {keys keys' : KeyOrder} {s s' : Screen}

theorem screen_eq_some (he : app.trace[app.current]? = some e)
    (hs : screen build platform keys app = .ok (some s)) :
    s = { pc := "0x" ++ String.ofList (Hex.fixed 16 e.pc.toNat)
          insn := s!"  {e.insnText}"
          bytes := " ".intercalate (e.insnBytes.map hexByte)
          step := s!"{e.step}"
          registers := (renderRegisters platform keys app).lines.map fun l => (l.name, l.text)
          memory := renderMemory app } := by
  unfold screen renderDetail at hs
  rw [he] at hs
  dsimp only at hs
  cases hdelta : stackDelta build app.baseSp ((stackPointer (parseOrNull platform e.regs)).getD 0) with
  | error panic =>
      rw [hdelta] at hs
      cases hs
  | ok delta =>
      rw [hdelta] at hs
      cases hs
      rfl

-- The panels of two entries get the same lines only if the entries are the same.
theorem screen_eq_iff (hreads : ReadsBack platform) {arch arch' : Arch} {state : ThreadState arch}
    {state' : ThreadState arch'} (he : app.trace[app.current]? = some e)
    (he' : app'.trace[app'.current]? = some e') (hregs : e.regs = state.regs)
    (hregs' : e'.regs = state'.regs) (hs : screen build platform keys app = .ok (some s))
    (hs' : screen build' platform keys' app' = .ok (some s')) : s = s' ↔ e = e' := by
  rw [screen_eq_some he hs, screen_eq_some he' hs', Screen.mk.injEq,
    renderRegisters_texts_eq_iff hreads keys keys' he he' hregs hregs', renderMemory_eq_iff he he']
  constructor
  · rintro ⟨hpc, hinsn, hbytes, hstep, hregisters, hmemory⟩
    obtain ⟨step, pc, insnBytes, insnText, regs, memChanges⟩ := e
    obtain ⟨step', pc', insnBytes', insnText', regs', memChanges'⟩ := e'
    rw [TraceEntry.mk.injEq]
    refine ⟨repr_injective hstep, ?_, bytes_injective hbytes, ?_, hregisters, hmemory⟩
    · exact UInt64.toNat_inj.mp (fixed_injective (by decide) pc.toNat_lt pc'.toNat_lt
        (append_ofList_injective "0x" hpc))
    · have hchars : insnText.toList = insnText'.toList := by
        simpa [toString] using congrArg String.toList hinsn
      exact String.toList_inj.mp hchars
  · rintro rfl
    exact ⟨rfl, rfl, rfl, rfl, rfl, rfl⟩

end Screen

section Sessions

variable {platform : Platform} {arch arch' : Arch} {start start' : Tracer}
  {iterations : List (Iteration arch)} {iterations' : List (Iteration arch')} {db db' : TraceDb}

-- Two sessions over recorded traces hand the same lines to their panels exactly if their current
-- entries are the same, wherever and however the users got there.
theorem new_loop_screen_eq_iff (hreads : ReadsBack platform) (hholds : Holds start iterations db)
    (hholds' : Holds start' iterations' db') {build build' : Build} {order order' : HashOrder}
    {keys keys' : KeyOrder} {traceFile traceFile' : String} {events events' : List Event} :
    ∀ p ∈ visited (handle platform) (App.new platform order db traceFile) events,
      ∀ p' ∈ visited (handle platform) (App.new platform order' db' traceFile') events',
        ∀ s s', screen build platform keys p.1 = .ok (some s) →
          screen build' platform keys' p'.1 = .ok (some s') →
            (s = s' ↔ db.getAll[p.1.current]? = db'.getAll[p'.1.current]?) := by
  intro p hp p' hp' s s' hs hs'
  obtain ⟨_, htrace⟩ := visited_wellIndexed order db traceFile events p hp
  obtain ⟨_, htrace'⟩ := visited_wellIndexed order' db' traceFile' events' p' hp'
  have hentry : ∀ {build : Build} {keys : KeyOrder} {app : App} {s : Screen},
      screen build platform keys app = .ok (some s) → ∃ e, app.trace[app.current]? = some e := by
    intro build keys app s hs
    refine Option.isSome_iff_exists.mp (Option.isSome_iff_ne_none.mpr fun hnone => ?_)
    unfold screen renderDetail at hs
    rw [hnone] at hs
    cases hs
  obtain ⟨e, he⟩ := hentry hs
  obtain ⟨e', he'⟩ := hentry hs'
  obtain ⟨state, hregs⟩ := hholds.exists_state (htrace ▸ List.mem_of_getElem? he)
  obtain ⟨state', hregs'⟩ := hholds'.exists_state (htrace' ▸ List.mem_of_getElem? he')
  rw [screen_eq_iff hreads he he' hregs hregs' hs hs', ← htrace, ← htrace', he, he',
    Option.some.injEq]

theorem new_loop_screen_eq_iff_twoFrames :
    let app := App.new jsonPlatform .inKeyOrder twoFramesDb "out.tdb"
    ∀ p ∈ visited (handle jsonPlatform) app [.key .right, .draw true],
      ∀ p' ∈ visited (handle jsonPlatform) app [.draw false],
        ∀ s s', screen .release jsonPlatform .asListed p.1 = .ok (some s) →
          screen .debug jsonPlatform .asListed p'.1 = .ok (some s') →
            (s = s' ↔ twoFramesDb.getAll[p.1.current]? = twoFramesDb.getAll[p'.1.current]?) :=
  new_loop_screen_eq_iff jsonPlatform_readsBack twoFramesDb_holds twoFramesDb_holds

end Sessions

end Tdb.Tui
