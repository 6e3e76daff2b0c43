import Tdb.Library.Hex
import Tdb.Tracer.Invariant
import Tdb.Tracer.Registers
import Tdb.Web.Lemmas

namespace Tdb.Web

open Tdb.Library Tdb.Storage Tdb.Server Tdb.Tracer Viewer

-- At most 53 significant bits.
def FitsDouble (n : Nat) : Prop :=
  ∃ m k : Nat, m < 2 ^ 53 ∧ n = m * 2 ^ k

-- The 16 upper-case hexadecimal digits of a 64-bit number.
def hex16 (n : Nat) : String :=
  "0x" ++ String.ofList (Hex.fixed 16 n)

section Text

variable (browser : Browser)

theorem toUpperCase_ascii {l : List Char} (h : ∀ c ∈ l, c.toNat < 0x80) :
    toUpperCase browser (String.ofList l) = String.ofList (l.map Char.toUpper) := by
  have hsame : ∀ c ∈ l,
      (if c.toNat < 0x80 then [c.toUpper] else browser.upperCase c) = [c.toUpper] :=
    fun c hc => if_pos (h c hc)
  unfold toUpperCase
  rw [String.toList_ofList, List.flatMap_congr hsame, ← List.map_eq_flatMap]

theorem toUpperCase_toDigits (n : Nat) :
    toUpperCase browser (String.ofList (Nat.toDigits 16 n)) =
      String.ofList ((Nat.toDigits 16 n).map Char.toUpper) :=
  toUpperCase_ascii browser fun _ hc => (Hex.toDigits_ascii hc).1

theorem padStart_ascii {l : List Char} (h : ∀ c ∈ l, c.toNat < 0x80) (width : Nat) :
    padStart (String.ofList l) width =
      String.ofList (List.replicate (width - l.length) '0' ++ l) := by
  have hunits : l.map (fun c => if c.toNat < 0x10000 then 1 else 2) = List.replicate l.length 1 := by
    rw [List.eq_replicate_iff]
    refine ⟨List.length_map _, fun k hk => ?_⟩
    obtain ⟨c, hc, rfl⟩ := List.mem_map.mp hk
    have hlt := h c hc
    exact if_pos (by omega)
  unfold padStart
  dsimp only
  rw [String.toList_ofList, hunits, List.sum_replicate_nat, Nat.mul_one, String.ofList_append]

theorem padStart_toDigits (n width : Nat) :
    padStart (String.ofList ((Nat.toDigits 16 n).map Char.toUpper)) width =
      String.ofList (Hex.padded width n) := by
  unfold Hex.padded
  rw [padStart_ascii, List.length_map]
  intro c hc
  obtain ⟨d, hd, rfl⟩ := List.mem_map.mp hc
  exact (Hex.toDigits_ascii hd).2

-- A whole number is shown with the digits of the double it was read as.
theorem toString16_ofNat {n : Nat} (h : n < 2 ^ 64) :
    ∃ r text, toString16 browser (.num (.ofNat n)) = some text ∧
      padStart (toUpperCase browser text) 16 = String.ofList (Hex.padded 16 r) ∧
        (r = n ↔ FitsDouble n) := by
  obtain ⟨r, hr, hround, hiff⟩ := Double.ofNat_eq_finite h.le (by norm_num)
  refine ⟨r, String.ofList (Nat.toDigits 16 r), ?_, ?_, hiff⟩
  · unfold toString16
    rw [hround]
    simp [numberToString16]
  · rw [toUpperCase_toDigits, padStart_toDigits]

end Text

section Regs

variable {arch : Arch}

-- What the script makes of the registers of an entry.
def regsValue (state : ThreadState arch) : Value :=
  .obj ((sortedMembers state.registers).map fun m => (m.1, .num (.ofNat m.2)))

theorem decimal_natural (n : Nat) :
    decimal { negative := false, mantissa := n, exponent := 0 } = .ofNat n := by
  simp [decimal, Double.ofNat]

theorem parseJson_regs (state : ThreadState arch) :
    parseJson state.regs = some (regsValue state) := by
  unfold parseJson regsValue
  simp only [parse_regs, decimal_natural]

theorem member_regsValue {state : ThreadState arch} {name : String} {n : Nat}
    (h : (name, n) ∈ state.registers) :
    (regsValue state).member name = some (.num (.ofNat n)) := by
  have hsorted := (mem_sortedMembers_iff (registers_nodup state) (name, n)).mpr h
  unfold regsValue Value.member
  refine (lookup_eq_some_iff_mem ?_ _ _).mpr ?_
  · rw [List.map_map]
    exact sortedMembers_nodup _
  · exact List.mem_map.mpr ⟨_, hsorted, rfl⟩

theorem exists_register (state : ThreadState arch) {name : String} (h : name ∈ registerNames arch) :
    ∃ n, (name, n) ∈ state.registers := by
  rw [← registers_names state] at h
  obtain ⟨m, hm, rfl⟩ := List.mem_map.mp h
  exact ⟨m.2, hm⟩

theorem member_regsValue_eq_none {state : ThreadState arch} {name : String}
    (h : name ∉ registerNames arch) : (regsValue state).member name = none := by
  unfold regsValue Value.member
  rw [List.lookup_eq_none_iff]
  intro p hp
  obtain ⟨m, hm, rfl⟩ := List.mem_map.mp hp
  have hmem := (mem_sortedMembers_iff (registers_nodup state) m).mp hm
  have hname : m.1 ∈ registerNames arch := registers_names state ▸ List.mem_map_of_mem hmem
  have hne : name ≠ m.1 := fun hsame => h (hsame ▸ hname)
  simpa using hne

def archName : Arch → String
  | .x86_64 => "x86_64"
  | .aarch64 => "arm64"

def stackName (arch : Arch) : String :=
  if archName arch = "x86_64" then "rsp" else "sp"

theorem archOf_regsValue (state : ThreadState arch) : archOf (regsValue state) = archName arch := by
  unfold archOf
  cases arch with
  | x86_64 =>
      obtain ⟨n, hn⟩ := exists_register state (show "rax" ∈ _ by decide +kernel)
      rw [member_regsValue hn]
      rfl
  | aarch64 =>
      rw [member_regsValue_eq_none (by decide +kernel)]
      rfl

-- The stack pointer is a register of both architectures.
theorem exists_stack (state : ThreadState arch) :
    ∃ n, (stackName arch, n) ∈ state.registers := by
  apply exists_register
  cases arch <;> decide +kernel

end Regs

section Panel

variable {arch : Arch} (browser : Browser)

theorem mapM_of_forall {α β : Type} {f : α → Option β} {R : α → β → Prop} {l : List α}
    (h : ∀ a ∈ l, ∃ b, f a = some b ∧ R a b) :
    ∃ bs, l.mapM f = some bs ∧ List.Forall₂ R l bs := by
  induction l with
  | nil => exact ⟨[], rfl, .nil⟩
  | cons a rest ih =>
      obtain ⟨b, hb, hrel⟩ := h a (List.mem_cons_self ..)
      obtain ⟨bs, hbs, hall⟩ := ih fun x hx => h x (List.mem_cons_of_mem a hx)
      refine ⟨b :: bs, ?_, .cons hrel hall⟩
      rw [List.mapM_cons, hb, hbs]
      rfl

-- A register as it is shown: with the digits of some number `r`, the recorded one if it fits.
structure ShownAs (prevRegs : Option Value) (m : String × Nat) (row : Register) : Prop where
  name_eq : row.name = m.1
  text_eq : ∃ r, row.text = "0x" ++ String.ofList (Hex.padded 16 r) ∧ (r = m.2 ↔ FitsDouble m.2)
  changed_eq : row.changed = regChanged prevRegs m.1 (.num (.ofNat m.2))

theorem registerOf_shownAs (prevRegs : Option Value) {m : String × Nat} (h : m.2 < 2 ^ 64) :
    ∃ row, registerOf browser prevRegs (m.1, .num (.ofNat m.2)) = some row ∧
      ShownAs prevRegs m row := by
  obtain ⟨r, text, htext, hdigits, hiff⟩ := toString16_ofNat browser h
  refine ⟨⟨m.1, "0x" ++ padStart (toUpperCase browser text) 16,
    regChanged prevRegs m.1 (.num (.ofNat m.2))⟩, ?_, rfl, ⟨r, by rw [hdigits], hiff⟩, rfl⟩
  unfold registerOf
  dsimp only
  rw [htext]

-- The panel of an entry has one row for each of its registers.
theorem exists_panel (prevRegs : Option Value) (state : ThreadState arch) :
    ∃ rows, (regsValue state).entries.mapM (registerOf browser prevRegs) = some rows ∧
      List.Forall₂ (ShownAs prevRegs) (sortedMembers state.registers) rows := by
  have hrow : ∀ m ∈ sortedMembers state.registers,
      ∃ row, registerOf browser prevRegs (m.1, .num (.ofNat m.2)) = some row ∧
        ShownAs prevRegs m row := by
    intro m hm
    have hmem := (mem_sortedMembers_iff (registers_nodup state) m).mp hm
    exact registerOf_shownAs browser prevRegs (registers_lt state m hmem)
  unfold regsValue Value.entries
  dsimp only
  rw [List.mapM_map]
  exact mapM_of_forall hrow

-- What showing a recorded entry leaves.
structure ShowsRecorded (v : Viewer) (state : ThreadState arch) (v' : Viewer) : Prop where
  trace_eq : v'.trace = v.trace
  arch_eq : v'.arch = v.arch
  curr_eq : v'.curr = v.curr
  prevRegs_eq : v'.prevRegs = some (regsValue state)
  base_converts : v'.BaseConverts browser
  panel : List.Forall₂ (ShownAs v.prevRegs) (sortedMembers state.registers) v'.detail.registers

-- Nothing throws on the way.
theorem showDetail_recorded {v : Viewer} {e : Entry} {state : ThreadState arch}
    (hregs : e.regs = state.regs) (harch : v.arch = archName arch)
    (hbase : v.BaseConverts browser) :
    ∃ v', v.showDetail browser e = .next v' ∧ ShowsRecorded browser v state v' := by
  obtain ⟨n, hn⟩ := exists_stack state
  have hmember := member_regsValue hn
  obtain ⟨_, text, htext, _⟩ := toString16_ofNat browser (registers_lt state _ hn)
  obtain ⟨rows, hrows, hpanel⟩ := exists_panel browser v.prevRegs state
  have hparse : parseJson e.regs = some (regsValue state) := by rw [hregs, parseJson_regs]
  obtain ⟨delta, hdelta⟩ := Option.isSome_iff_exists.mp
    ((minus_isSome_iff (toNumber_isSome_of_toString16 htext)).mpr hbase)
  unfold stackName at hmember
  rw [← harch] at hmember
  refine ⟨_, showDetail_eq_next hparse hmember hdelta htext hrows, rfl, rfl, rfl, rfl, ?_, hpanel⟩
  exact baseFor_converts hbase (toNumber_isSome_of_toString16 htext)

end Panel

end Tdb.Web
