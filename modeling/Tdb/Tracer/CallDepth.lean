import Tdb.Library.FlooredWalk
import Tdb.Tracer.Invariant
import Tdb.Tracer.Markers

namespace Tdb.Tracer

open Tdb.Library Tdb.Storage

variable {arch : Arch}

section Turns

-- What an instruction does to the call depth.
def turnOf (arch : Arch) (mnemonic : String) : Turn :=
  if isCall arch mnemonic then .up else if isReturn arch mnemonic then .down else .flat

def marking : Turn → Nat → String
  | .up, callDepth => s!"CALL [depth:{callDepth}]"
  | .down, callDepth => s!"RETURN [depth:{callDepth}]"
  | .flat, _ => ""

theorem detectCall_eq (arch : Arch) (callDepth : Nat) (mnemonic : String) :
    detectCall arch callDepth mnemonic =
      ((turnOf arch mnemonic).apply callDepth,
        marking (turnOf arch mnemonic) ((turnOf arch mnemonic).apply callDepth)) := by
  unfold detectCall turnOf
  split
  · rfl
  · split
    · have hfloor : (if callDepth > 0 then callDepth - 1 else callDepth) = callDepth - 1 := by
        split <;> omega
      dsimp only
      rw [hfloor]
      rfl
    · rfl

def turns (seen : List (Observation arch)) : List Turn :=
  seen.map fun o => turnOf arch o.insn.mnemonicText

theorem next_callDepth (t : Tracer) (env : Env arch) :
    (next t env).callDepth =
      Turn.height t.callDepth (turns (observe env t.task).toOption.toList) := by
  rw [next_field Tracer.callDepth (fun _ _ => rfl) (fun _ _ => rfl)]
  cases observe env t.task with
  | error e => rfl
  | ok seen =>
      simp only [recorded, detectCall_eq]
      rfl

theorem observations_concat (task : MachTask) (envs : List (Env arch)) (env : Env arch) :
    observations task (envs ++ [env]) =
      observations task envs ++ (observe env task).toOption.toList := by
  unfold observations
  rw [List.filterMap_append]
  cases h : (observe env task).toOption <;> simp [h]

-- The depth depends on the instructions recorded so far and on nothing else.
theorem run_callDepth (start : Tracer) (envs : List (Env arch)) :
    (run next start envs).callDepth =
      Turn.height start.callDepth (turns (observations start.task envs)) := by
  induction envs using List.reverseRecOn with
  | nil => rfl
  | append_singleton envs env ih =>
      rw [run_append, run_cons, run_nil, next_callDepth, run_task, ih, observations_concat, turns,
        turns, turns, List.map_append, Turn.height_append]

end Turns

section Texts

-- The text of the `k`-th entry, as the instructions up to it decide it.
def entryText (seen : List (Observation arch)) (k : Nat) (o : Observation arch) : String :=
  fullText o.insn.text (marking (turnOf arch o.insn.mnemonicText)
    (Turn.height 0 (turns (seen.take (k + 1)))))

theorem entryText_append {seen : List (Observation arch)} {k : Nat} (hk : k < seen.length)
    (later : List (Observation arch)) (o : Observation arch) :
    entryText (seen ++ later) k o = entryText seen k o := by
  unfold entryText
  rw [List.take_append_of_le_length hk]

theorem entryOf_insnText (env : Env arch) (t : Tracer) (o : Observation arch) :
    (entryOf env t o).insnText =
      fullText o.insn.text (marking (turnOf arch o.insn.mnemonicText)
        ((turnOf arch o.insn.mnemonicText).apply t.callDepth)) := by
  simp only [entryOf, makeEntry, initLastSp_callDepth, detectCall_eq]

variable {start : Tracer} (h : start.GapFree) (hempty : start.db.getAll = [])
  (hdepth : start.callDepth = 0)
include h hempty hdepth

theorem getAll_run_texts (envs : List (Env arch)) (k : Nat) (e : TraceEntry)
    (he : (run next start envs).db.getAll[k]? = some e) :
    ∃ o, (observations start.task envs)[k]? = some o ∧
      e.insnText = entryText (observations start.task envs) k o := by
  induction envs using List.reverseRecOn with
  | nil =>
      rw [run_nil, hempty] at he
      cases he
  | append_singleton envs env ih =>
      have hgap := run_gapFree h envs
      have hlength := (getAll_run_records h envs hempty).length_eq
      rw [run_append, run_cons, run_nil, hgap.getAll_next] at he
      rw [observations_concat]
      by_cases hk : k < (run next start envs).db.getAll.length
      · rw [List.getElem?_append_left hk] at he
        obtain ⟨o, ho, htext⟩ := ih he
        have hk' : k < (observations start.task envs).length := hlength ▸ hk
        exact ⟨o, by rw [List.getElem?_append_left hk', ho], by rw [entryText_append hk', htext]⟩
      · rw [List.getElem?_append_right (by omega)] at he
        have hmem := Option.mem_toList.mp (List.mem_of_getElem? he)
        obtain ⟨o, ho, rfl⟩ := (storedEntry_eq_some_iff e).mp hmem
        rw [run_task] at ho
        have hlast : k = (observations start.task envs).length := by
          have hlt := (List.getElem?_eq_some_iff.mp he).1
          have hone := Option.length_toList_le (o := storedEntry env (run next start envs))
          omega
        subst hlast
        have hall : (observations start.task envs ++ [o]).take
            ((observations start.task envs).length + 1) = observations start.task envs ++ [o] :=
          List.take_of_length_le (by simp)
        refine ⟨o, by simp [ho, Except.toOption], ?_⟩
        rw [entryOf_insnText, run_callDepth, hdepth, ho]
        simp only [Except.toOption, Option.toList_some, entryText, hall]
        rw [turns, turns, List.map_append, List.map_singleton, Turn.height_concat]

end Texts

section Law

-- The calls and the returns among the first `k` of the instructions.
def callsAmong (seen : List (Observation arch)) (k : Nat) : Nat :=
  (seen.take k).countP fun o => isCall arch o.insn.mnemonicText

def returnsAmong (seen : List (Observation arch)) (k : Nat) : Nat :=
  (seen.take k).countP fun o => isReturn arch o.insn.mnemonicText

-- The depth after `n` instructions: calls less returns, and the most by which the returns have
-- ever been ahead.
def IsDepth (seen : List (Observation arch)) (n callDepth : Nat) : Prop :=
  ∃ ahead : Int,
    IsGreatest ((fun k => (returnsAmong seen k : Int) - callsAmong seen k) '' Set.Iic n) ahead ∧
      (callDepth : Int) = callsAmong seen n - returnsAmong seen n + ahead

theorem deficit_turns (seen : List (Observation arch)) (k : Nat) :
    Turn.deficit ((turns seen).take k) = (returnsAmong seen k : Int) - callsAmong seen k := by
  unfold turns Turn.deficit callsAmong returnsAmong
  rw [← List.map_take, List.count, List.count, List.countP_map, List.countP_map]
  have hdown : ((fun x => x == Turn.down) ∘ fun o : Observation arch =>
      turnOf arch o.insn.mnemonicText) = fun o => isReturn arch o.insn.mnemonicText := by
    funext o
    simp only [Function.comp_apply, turnOf]
    cases hcall : isCall arch o.insn.mnemonicText with
    | true => simp [isCall_not_isReturn hcall]
    | false => cases isReturn arch o.insn.mnemonicText <;> rfl
  have hup : ((fun x => x == Turn.up) ∘ fun o : Observation arch =>
      turnOf arch o.insn.mnemonicText) = fun o => isCall arch o.insn.mnemonicText := by
    funext o
    simp only [Function.comp_apply, turnOf]
    cases isCall arch o.insn.mnemonicText with
    | true => rfl
    | false => cases isReturn arch o.insn.mnemonicText <;> rfl
  rw [hdown, hup]

theorem isDepth_height (seen : List (Observation arch)) {n : Nat} (hn : n ≤ seen.length) :
    IsDepth seen n (Turn.height 0 (turns (seen.take n))) := by
  have htake : turns (seen.take n) = (turns seen).take n := by
    simp only [turns, List.map_take]
  have hlength : ((turns seen).take n).length = n := by simp [turns, hn]
  have hset : Turn.deficits ((turns seen).take n) =
      (fun k => (returnsAmong seen k : Int) - callsAmong seen k) '' Set.Iic n := by
    unfold Turn.deficits
    rw [hlength]
    refine Set.image_congr fun k hk => ?_
    rw [List.take_take, Nat.min_eq_left hk, deficit_turns]
  have hgreatest := Turn.height_isGreatest ((turns seen).take n)
  rw [hset, deficit_turns] at hgreatest
  exact ⟨_, hgreatest, by rw [htake]; omega⟩

-- A call or a return shows the depth after it, and nothing else is annotated.
structure Annotated (o : Observation arch) (callDepth : Nat) (insnText : String) : Prop where
  of_call : isCall arch o.insn.mnemonicText = true →
    insnText = fullText o.insn.text s!"CALL [depth:{callDepth}]"
  of_return : isReturn arch o.insn.mnemonicText = true →
    insnText = fullText o.insn.text s!"RETURN [depth:{callDepth}]"
  of_other : isCall arch o.insn.mnemonicText = false → isReturn arch o.insn.mnemonicText = false →
    insnText = o.insn.text

-- What is promised of the depth in a run and of the annotations that show it.
structure DepthLaw (start : Tracer) (envs : List (Env arch)) : Prop where
  records : List.Forall₂ Records (run next start envs).db.getAll (observations start.task envs)
  depth : IsDepth (observations start.task envs) (run next start envs).db.getAll.length
    (run next start envs).callDepth
  annotated : ∀ k e o, (run next start envs).db.getAll[k]? = some e →
    (observations start.task envs)[k]? = some o →
    ∃ callDepth, IsDepth (observations start.task envs) (k + 1) callDepth ∧
      Annotated o callDepth e.insnText
  matched : ∀ j k call ret c r, j < k → (run next start envs).db.getAll[j]? = some call →
    (run next start envs).db.getAll[k]? = some ret →
    (observations start.task envs)[j]? = some c → (observations start.task envs)[k]? = some r →
    isCall arch c.insn.mnemonicText = true → isReturn arch r.insn.mnemonicText = true →
    Turn.Balanced (turns (((observations start.task envs).take k).drop (j + 1))) →
    ∃ d, 1 ≤ d ∧ Annotated c d call.insnText ∧ Annotated r (d - 1) ret.insnText

theorem isReturn_not_isCall {mnemonic : String} (h : isReturn arch mnemonic = true) :
    isCall arch mnemonic = false := by
  rw [← Bool.not_eq_true]
  intro hcall
  rw [isCall_not_isReturn hcall] at h
  cases h

theorem turnOf_call {mnemonic : String} (h : isCall arch mnemonic = true) :
    turnOf arch mnemonic = .up := by
  unfold turnOf
  rw [if_pos h]

theorem turnOf_return {mnemonic : String} (hcall : isCall arch mnemonic = false)
    (h : isReturn arch mnemonic = true) : turnOf arch mnemonic = .down := by
  unfold turnOf
  rw [hcall, h]
  rfl

theorem turnOf_other {mnemonic : String} (hcall : isCall arch mnemonic = false)
    (hret : isReturn arch mnemonic = false) : turnOf arch mnemonic = .flat := by
  unfold turnOf
  rw [hcall, hret]
  rfl

theorem entryText_annotated (seen : List (Observation arch)) (k : Nat) (o : Observation arch) :
    Annotated o (Turn.height 0 (turns (seen.take (k + 1)))) (entryText seen k o) := by
  refine ⟨fun hcall => ?_, fun hret => ?_, fun hcall hret => ?_⟩
  · unfold entryText
    rw [turnOf_call hcall]
    rfl
  · unfold entryText
    rw [turnOf_return (isReturn_not_isCall hret) hret]
    rfl
  · unfold entryText
    rw [turnOf_other hcall hret]
    rfl

-- From a call to its return: one up, what is between them changes nothing, one down.
theorem height_matched {seen : List (Observation arch)} {j k : Nat} {c r : Observation arch}
    (hjk : j < k) (hj : seen[j]? = some c) (hk : seen[k]? = some r)
    (hcall : isCall arch c.insn.mnemonicText = true)
    (hret : isReturn arch r.insn.mnemonicText = true)
    (hbalanced : Turn.Balanced (turns ((seen.take k).drop (j + 1)))) :
    Turn.height 0 (turns (seen.take (j + 1))) = Turn.height 0 (turns (seen.take j)) + 1 ∧
      Turn.height 0 (turns (seen.take (k + 1))) = Turn.height 0 (turns (seen.take j)) := by
  have hup : Turn.height 0 (turns (seen.take (j + 1))) =
      Turn.height 0 (turns (seen.take j)) + 1 := by
    rw [List.take_add_one, hj, turns, List.map_append, Option.toList_some, List.map_singleton,
      Turn.height_concat, turnOf_call hcall]
    rfl
  have hsplit : seen.take k = seen.take (j + 1) ++ (seen.take k).drop (j + 1) := by
    conv_lhs => rw [← List.take_append_drop (j + 1) (seen.take k), List.take_take,
      Nat.min_eq_left hjk]
  have hmiddle : Turn.height 0 (turns (seen.take k)) = Turn.height 0 (turns (seen.take j)) + 1 := by
    rw [hsplit, turns, List.map_append, Turn.height_append]
    exact (hbalanced.height_eq _).trans hup
  refine ⟨hup, ?_⟩
  rw [List.take_add_one, hk, turns, List.map_append, Option.toList_some, List.map_singleton,
    Turn.height_concat, turnOf_return (isReturn_not_isCall hret) hret]
  exact congrArg (· - 1) hmiddle

end Law

-- The depth is a counter kept at zero or above: whatever fails in between, it follows the
-- recorded calls and returns, and a return shows the depth below that of its call.
theorem new_run_depthLaw {taskForPid : Int32 → Int32 × MachPort}
    {buildCapstone : Except String Unit} {pid : Int32} {dbPath : String} {start : Tracer}
    (hnew : new taskForPid buildCapstone pid dbPath = .ok start) (envs : List (Env arch)) :
    DepthLaw start envs := by
  obtain ⟨task, rfl⟩ := new_eq_ok hnew
  have hgap := fresh_gapFree task pid dbPath
  have hrecords := getAll_run_records hgap envs fresh_getAll
  have htexts := getAll_run_texts hgap fresh_getAll rfl envs
  refine ⟨hrecords, ?_, ?_, ?_⟩
  · rw [hrecords.length_eq, run_callDepth]
    have hdepth := isDepth_height (observations
      (fresh task pid { entries := ∅, path := dbPath }).task envs) (Nat.le_refl _)
    rwa [List.take_length] at hdepth
  · intro k e o he ho
    obtain ⟨o', ho', htext⟩ := htexts k e he
    rw [ho, Option.some.injEq] at ho'
    subst ho'
    rw [htext]
    exact ⟨_, isDepth_height _ (List.getElem?_eq_some_iff.mp ho).1, entryText_annotated _ k o⟩
  · intro j k call ret c r hjk hcallAt hretAt hc hr hcall hret hbalanced
    obtain ⟨c', hc', hcallText⟩ := htexts j call hcallAt
    obtain ⟨r', hr', hretText⟩ := htexts k ret hretAt
    rw [hc, Option.some.injEq] at hc'
    rw [hr, Option.some.injEq] at hr'
    subst hc' hr'
    obtain ⟨hup, hdown⟩ := height_matched hjk hc hr hcall hret hbalanced
    have hshown := entryText_annotated (observations
      (fresh task pid { entries := ∅, path := dbPath }).task envs) j c
    have hshown' := entryText_annotated (observations
      (fresh task pid { entries := ∅, path := dbPath }).task envs) k r
    rw [hup] at hshown
    rw [hdown] at hshown'
    rw [hcallText, hretText]
    exact ⟨_, Nat.le_add_left 1 _, hshown, hshown'⟩

def callAndReturns : List (Env .aarch64) :=
  let insn (mnemonic : String) : Insn := { bytes := [], mnemonic := some mnemonic, opStr := none }
  ["bl", "ret", "nop", "ret"].map fun mnemonic =>
    scripted { sp := 0x1000 } (fun _ => 0) (insn mnemonic) (.ok ()) (.ok (.stopped 42 .SIGTRAP))

theorem new_run_depthLaw_callAndReturns : DepthLaw sampleStart callAndReturns :=
  new_run_depthLaw new_sampleStart callAndReturns

end Tdb.Tracer
