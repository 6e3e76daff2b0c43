import Tdb.Library.JsonGrammar
import Tdb.Library.OrderedMap
import Tdb.Tracer.Mach

namespace Tdb.Tracer

open Std Tdb.Library

namespace ThreadState

-- The registers that an entry records, under their names.
def registers : {arch : Arch} → ThreadState arch → List (String × Nat)
  | .x86_64, (state : X86ThreadState64) => [
      ("rax", state.rax.toNat), ("rbx", state.rbx.toNat), ("rcx", state.rcx.toNat),
      ("rdx", state.rdx.toNat), ("rdi", state.rdi.toNat), ("rsi", state.rsi.toNat),
      ("rbp", state.rbp.toNat), ("rsp", state.rsp.toNat), ("r8", state.r8.toNat),
      ("r9", state.r9.toNat), ("r10", state.r10.toNat), ("r11", state.r11.toNat),
      ("r12", state.r12.toNat), ("r13", state.r13.toNat), ("r14", state.r14.toNat),
      ("r15", state.r15.toNat), ("rip", state.rip.toNat), ("rflags", state.rflags.toNat)]
  | .aarch64, (state : ArmThreadState64) =>
      ((state.x.toList.zipIdx).map fun (value, i) => (s!"x{i}", value.toNat)) ++
        [("fp", state.fp.toNat), ("lr", state.lr.toNat), ("sp", state.sp.toNat),
          ("pc", state.pc.toNat), ("cpsr", state.cpsr.toNat)]

end ThreadState

def registerNames : Arch → List String
  | .x86_64 => [
      "rax", "rbx", "rcx", "rdx", "rdi", "rsi", "rbp", "rsp", "r8", "r9", "r10", "r11", "r12", "r13",
      "r14", "r15", "rip", "rflags"]
  | .aarch64 => ((List.range 29).map fun i => s!"x{i}") ++ ["fp", "lr", "sp", "pc", "cpsr"]

section Names

variable {arch : Arch} (state : ThreadState arch)

theorem regs_eq : state.regs = jsonObject state.registers := by
  cases arch <;> rfl

theorem registers_lt : ∀ m ∈ state.registers, m.2 < 2 ^ 64 := by
  have h64 (value : UInt64) : value.toNat < 2 ^ 64 := value.toNat_lt
  have h32 (value : UInt32) : value.toNat < 2 ^ 64 := value.toNat_lt.trans (by decide)
  cases arch with
  | x86_64 =>
      simp only [ThreadState.registers, List.forall_mem_cons, h64, true_and]
      exact fun m hm => absurd hm List.not_mem_nil
  | aarch64 =>
      intro m hm
      rcases List.mem_append.mp hm with hx | hnamed
      · obtain ⟨p, _, rfl⟩ := List.mem_map.mp hx
        exact h64 p.1
      · simp only [List.mem_cons, List.not_mem_nil, or_false] at hnamed
        rcases hnamed with rfl | rfl | rfl | rfl | rfl
        all_goals first
          | exact h64 _
          | exact h32 _

theorem zipIdx_names (values : List UInt64) :
    ((values.zipIdx.map fun (value, i) => (s!"x{i}", value.toNat)).map Prod.fst) =
      (List.range values.length).map fun i => s!"x{i}" := by
  have hplaces : (List.range values.length).map (fun i => s!"x{i}") =
      values.zipIdx.map fun p => s!"x{p.2}" := by
    rw [List.range_eq_range', ← List.zipIdx_map_snd 0 values, List.map_map]
    rfl
  rw [hplaces, List.map_map]
  rfl

theorem registers_names : state.registers.map Prod.fst = registerNames arch := by
  cases arch with
  | x86_64 => rfl
  | aarch64 =>
      change ((_ ++ _ : List (String × Nat)).map Prod.fst) = _
      rw [List.map_append, zipIdx_names, Vector.length_toList]
      rfl

theorem registerNames_nodup (arch : Arch) : (registerNames arch).Nodup := by
  cases arch <;> decide +kernel

theorem registers_nodup : (state.registers.map Prod.fst).Nodup :=
  registers_names state ▸ registerNames_nodup arch

theorem registerNames_plain (arch : Arch) : ∀ name ∈ registerNames arch, Json.PlainKey name := by
  have hall : (registerNames arch).all fun name => name.toList.all fun c =>
      c != '"' && c != '\\' && 0x20 ≤ c.toNat := by
    cases arch <;> decide +kernel
  simpa [Json.PlainKey, and_assoc] using hall

end Names

section Text

theorem mem_of_lookup_eq_some {α : Type} {fields : List (String × α)} {name : String} {a : α}
    (h : fields.lookup name = some a) : (name, a) ∈ fields := by
  obtain ⟨before, after, rfl, _⟩ := List.lookup_eq_some_iff.mp h
  simp

theorem lookup_eq_some_iff_mem {α : Type} {fields : List (String × α)}
    (hnodup : (fields.map Prod.fst).Nodup) (name : String) (a : α) :
    fields.lookup name = some a ↔ (name, a) ∈ fields := by
  refine ⟨mem_of_lookup_eq_some, fun h => ?_⟩
  obtain ⟨before, after, rfl⟩ := List.append_of_mem h
  refine List.lookup_eq_some_iff.mpr ⟨before, after, rfl, fun p hp => ?_⟩
  rw [List.map_append, List.nodup_append] at hnodup
  have hne := hnodup.2.2 p.1 (List.mem_map_of_mem hp) name (by simp)
  simpa using hne.symm

-- The members as the object lists them: the later of two of one name, in the order of names.
def sortedMembers (fields : List (String × Nat)) : List (String × Nat) :=
  (ExtTreeMap.ofList fields compare).toList

theorem sortedMembers_nodup (fields : List (String × Nat)) :
    ((sortedMembers fields).map Prod.fst).Nodup := by
  have hascend := OrderedMap.toList_keysAscend (ExtTreeMap.ofList fields compare)
  have hdistinct : (sortedMembers fields).Pairwise fun a b => a.1 ≠ b.1 := by
    apply hascend.imp
    intro a b hlt hsame
    simp [hsame] at hlt
  exact List.pairwise_map.mpr hdistinct

theorem mem_sortedMembers_iff {fields : List (String × Nat)} (hnodup : (fields.map Prod.fst).Nodup)
    (m : String × Nat) : m ∈ sortedMembers fields ↔ m ∈ fields := by
  obtain ⟨name, value⟩ := m
  unfold sortedMembers
  rw [ExtTreeMap.mem_toList_iff_getElem?_eq_some, OrderedMap.getElem?_ofList_eq_some_iff]
  constructor
  · rintro ⟨before, after, rfl, _⟩
    simp
  · intro hmem
    obtain ⟨before, after, rfl⟩ := List.append_of_mem hmem
    refine ⟨before, after, rfl, ?_⟩
    rw [List.map_append, List.map_cons, List.nodup_append, List.nodup_cons] at hnodup
    intro p hp hsame
    exact hnodup.2.1.1 (List.mem_map.mpr ⟨p, hp, hsame⟩)

theorem jsonObject_toList (fields : List (String × Nat)) :
    (jsonObject fields).toList =
      '\x7b' :: ([','].intercalate ((sortedMembers fields).map fun m => Json.member m.1 m.2) ++
        ['\x7d']) := by
  have hmember (m : String × Nat) : (s!"\"{m.1}\":{m.2}").toList = Json.member m.1 m.2 := by
    simp [Json.member, toString, Nat.toList_repr]
  have hmembers : ((sortedMembers fields).map fun m => s!"\"{m.1}\":{m.2}").map String.toList =
      (sortedMembers fields).map fun m => Json.member m.1 m.2 := by
    rw [List.map_map]
    exact List.map_congr_left fun m _ => hmember m
  unfold jsonObject
  dsimp only
  rw [String.toList_append, String.toList_append, String.toList_intercalate]
  change _ ++ [','].intercalate (((sortedMembers fields).map fun m => s!"\"{m.1}\":{m.2}").map
    String.toList) ++ _ = _
  rw [hmembers]
  rfl

variable {arch : Arch} {ν : Type} (number : Decimal → ν) (state : ThreadState arch)

-- The registers of an entry are read back under their names.
theorem parse_regs :
    Json.parse number state.regs = some (.obj ((sortedMembers state.registers).map fun m =>
      (m.1, .num (number { negative := false, mantissa := m.2, exponent := 0 })))) := by
  apply Json.parse_object
  · exact sortedMembers_nodup _
  · intro m hm
    have hmem := (mem_sortedMembers_iff (registers_nodup state) m).mp hm
    have hname : m.1 ∈ registerNames arch := registers_names state ▸ List.mem_map_of_mem hmem
    exact registerNames_plain arch m.1 hname
  · rw [regs_eq]
    exact jsonObject_toList _

end Text

end Tdb.Tracer
