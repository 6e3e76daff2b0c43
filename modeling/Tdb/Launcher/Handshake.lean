import Tdb.Launcher
import Tdb.Library.Run

namespace Tdb.Launcher

open Tdb.Library Tdb.Storage Tdb.Tracer

-- The child of a fork. It asks to be traced, becomes the program, and leaves when one of the two
-- is refused; what waits for it learns of the last three.
inductive Child where
  | forked
  | traced
  | leaving (traced : Bool) (message : String)
  | stopped (sig : Signal) (atEntry : Bool)
  | exited (code : Int32)
  | killed (sig : Signal)
deriving DecidableEq, Repr

-- The child's next call with its answer, or a signal that reaches it before.
inductive ChildEvent where
  | call (answer : Except String Unit)
  | signal (sig : Signal)
deriving DecidableEq

-- The kernel's part in it: what becomes of a child that a signal reaches while nobody traces it,
-- and while it is traced; where an `exec` under trace leaves it; and what `waitpid` has of it, once
-- there is something.
structure ChildKernel where
  untraced : Signal → Child → Child
  traced : Signal → Child
  execTraced : Child
  waitStatus : Int32 → Child → Option WaitStatus

namespace Child

def next (kernel : ChildKernel) (child : Child) (event : ChildEvent) : Child :=
  match child with
  | forked =>
      match event with
      | .call (.ok ()) => traced
      | .call (.error e) => leaving false s!"ptrace(PT_TRACE_ME) failed: {e}"
      | .signal sig => kernel.untraced sig forked
  | traced =>
      match event with
      | .call (.ok ()) => kernel.execTraced
      | .call (.error e) => leaving true s!"exec failed: {e}"
      | .signal sig => kernel.traced sig
  | leaving isTraced message =>
      match event with
      | .call _ => exited 127
      | .signal sig =>
          if isTraced then kernel.traced sig else kernel.untraced sig (leaving false message)
  | settled => settled

-- A child for which there is something to wait for.
def Settled (child : Child) : Prop :=
  (∃ sig atEntry, child = stopped sig atEntry) ∨ (∃ code, child = exited code) ∨
    ∃ sig, child = killed sig

end Child

section Documented

open Child hiding next

-- What the manuals promise. A signal ends an untraced process if it is a lethal one, and does
-- nothing to it otherwise. Tracing stops a process for every signal, SIGKILL apart, and for its
-- `exec`, before the new program has done anything. `waitpid` reports the last three states.
structure ChildKernel.Documented (kernel : ChildKernel) (lethal dumps : Signal → Bool) :
    Prop where
  untraced_lethal : ∀ sig child, lethal sig = true → kernel.untraced sig child = killed sig
  untraced_harmless : ∀ sig child, lethal sig = false → kernel.untraced sig child = child
  traced_stops : ∀ sig, sig ≠ .SIGKILL → kernel.traced sig = stopped sig false
  traced_killed : kernel.traced .SIGKILL = killed .SIGKILL
  exec_stops : kernel.execTraced = stopped .SIGTRAP true
  wait_stopped : ∀ pid sig atEntry,
    kernel.waitStatus pid (stopped sig atEntry) = some (.stopped pid sig)
  wait_exited : ∀ pid code, kernel.waitStatus pid (exited code) = some (.exited pid code)
  wait_killed : ∀ pid sig,
    kernel.waitStatus pid (killed sig) = some (.signaled pid sig (dumps sig))
  wait_running : ∀ pid child, ¬child.Settled → kernel.waitStatus pid child = none

def stopFor (sig : Signal) : Child :=
  if sig = .SIGKILL then killed sig else stopped sig false

def documented (lethal dumps : Signal → Bool) : ChildKernel where
  untraced sig child := if lethal sig then killed sig else child
  traced := stopFor
  execTraced := stopped .SIGTRAP true
  waitStatus pid
    | stopped sig _ => some (.stopped pid sig)
    | exited code => some (.exited pid code)
    | killed sig => some (.signaled pid sig (dumps sig))
    | _ => none

variable {kernel : ChildKernel} {lethal dumps : Signal → Bool}

theorem documented_documented (lethal dumps : Signal → Bool) :
    (documented lethal dumps).Documented lethal dumps where
  untraced_lethal sig child h := if_pos h
  untraced_harmless sig child h := if_neg (by simp [h])
  traced_stops sig h := if_neg h
  traced_killed := rfl
  exec_stops := rfl
  wait_stopped _ _ _ := rfl
  wait_exited _ _ := rfl
  wait_killed _ _ := rfl
  wait_running pid child h := by
    cases child with
    | stopped sig atEntry => exact absurd (Or.inl ⟨sig, atEntry, rfl⟩) h
    | exited code => exact absurd (Or.inr (Or.inl ⟨code, rfl⟩)) h
    | killed sig => exact absurd (Or.inr (Or.inr ⟨sig, rfl⟩)) h
    | _ => rfl

-- The promises leave nothing open.
theorem ChildKernel.Documented.eq (h : kernel.Documented lethal dumps) :
    kernel = documented lethal dumps := by
  obtain ⟨untraced, traced, execTraced, waitStatus⟩ := kernel
  unfold documented
  congr 1
  · funext sig child
    cases hlethal : lethal sig with
    | true => simpa using h.untraced_lethal sig child hlethal
    | false => simpa using h.untraced_harmless sig child hlethal
  · funext sig
    unfold stopFor
    split
    · rename_i hkill
      exact hkill ▸ h.traced_killed
    · rename_i hkill
      exact h.traced_stops sig hkill
  · exact h.exec_stops
  · funext pid child
    cases child with
    | stopped sig atEntry => exact h.wait_stopped pid sig atEntry
    | exited code => exact h.wait_exited pid code
    | killed sig => exact h.wait_killed pid sig
    | _ => exact h.wait_running pid _ (by simp [Settled])

end Documented

section Schedules

open Child hiding next

variable {lethal dumps : Signal → Bool} {events : List ChildEvent} {sig : Signal}
  {atEntry : Bool}

theorem run_settled {child : Child}
    (h : ∀ event, Child.next (documented lethal dumps) child event = child)
    (events : List ChildEvent) : run (Child.next (documented lethal dumps)) child events = child :=
  @run_invariant _ _ (Child.next (documented lethal dumps)) (· = child) _ events rfl
    fun s event hs => by rw [hs, h]

theorem stopFor_settled (s : Signal) (event : ChildEvent) :
    Child.next (documented lethal dumps) (stopFor s) event = stopFor s := by
  unfold stopFor
  split <;> rfl

theorem stopFor_eq_stopped_iff (s : Signal) :
    stopFor s = stopped sig atEntry ↔ s = sig ∧ false = atEntry ∧ s ≠ .SIGKILL := by
  unfold stopFor
  by_cases hkill : s = .SIGKILL
  · simp [hkill]
  · simp [hkill]

-- A child that was refused the tracing is never seen to stop.
theorem run_untraced_ne_stopped (message : String) (events : List ChildEvent) :
    run (Child.next (documented lethal dumps)) (leaving false message) events ≠
      stopped sig atEntry := by
  induction events with
  | nil => simp
  | cons event rest ih =>
      rw [run_cons]
      cases event with
      | call answer =>
          change run _ (exited 127) rest ≠ _
          rw [run_settled fun _ => rfl]
          simp
      | signal s =>
          change run _ (if lethal s then killed s else leaving false message) rest ≠ _
          split
          · rw [run_settled fun _ => rfl]
            simp
          · exact ih

-- Where a traced child stops: in the new program, or before it for a signal.
inductive StopsIn : List ChildEvent → Signal → Bool → Prop where
  | exec (rest : List ChildEvent) : StopsIn (.call (.ok ()) :: rest) .SIGTRAP true
  | early (sig : Signal) (rest : List ChildEvent) (hkill : sig ≠ .SIGKILL) :
      StopsIn (.signal sig :: rest) sig false
  | refused (e : String) (sig : Signal) (rest : List ChildEvent) (hkill : sig ≠ .SIGKILL) :
      StopsIn (.call (.error e) :: .signal sig :: rest) sig false

theorem run_refused_stopped_iff (e : String) (events : List ChildEvent) :
    run (Child.next (documented lethal dumps)) (leaving true s!"exec failed: {e}") events =
        stopped sig atEntry ↔
      StopsIn (.call (.error e) :: events) sig atEntry := by
  cases events with
  | nil => exact iff_of_false (by simp) fun h => by cases h
  | cons event rest =>
      rw [run_cons]
      cases event with
      | call answer =>
          change run _ (exited 127) rest = _ ↔ _
          rw [run_settled fun _ => rfl]
          exact iff_of_false (by simp) fun h => by cases h
      | signal s =>
          change run _ (stopFor s) rest = _ ↔ _
          rw [run_settled (stopFor_settled s), stopFor_eq_stopped_iff]
          constructor
          · rintro ⟨rfl, rfl, hkill⟩
            exact .refused e s rest hkill
          · intro h
            cases h with
            | refused _ _ _ hkill => exact ⟨rfl, rfl, hkill⟩

theorem run_traced_stopped_iff (events : List ChildEvent) :
    run (Child.next (documented lethal dumps)) traced events = stopped sig atEntry ↔
      StopsIn events sig atEntry := by
  cases events with
  | nil => exact iff_of_false (by simp) fun h => by cases h
  | cons event rest =>
      rw [run_cons]
      cases event with
      | call answer =>
          cases answer with
          | ok done =>
              change run _ (stopped .SIGTRAP true) rest = _ ↔ _
              rw [run_settled fun _ => rfl, stopped.injEq]
              constructor
              · rintro ⟨rfl, rfl⟩
                exact .exec rest
              · intro h
                cases h
                exact ⟨rfl, rfl⟩
          | error e => exact run_refused_stopped_iff e rest
      | signal s =>
          change run _ (stopFor s) rest = _ ↔ _
          rw [run_settled (stopFor_settled s), stopFor_eq_stopped_iff]
          constructor
          · rintro ⟨rfl, rfl, hkill⟩
            exact .early s rest hkill
          · intro h
            cases h with
            | early _ _ hkill => exact ⟨rfl, rfl, hkill⟩

-- Signals that a child does not take notice of while nobody traces it.
def Harmless (lethal : Signal → Bool) (events : List ChildEvent) : Prop :=
  ∀ event ∈ events, ∃ sig, event = .signal sig ∧ lethal sig = false

theorem run_forked_stopped_iff (events : List ChildEvent) :
    run (Child.next (documented lethal dumps)) forked events = stopped sig atEntry ↔
      ∃ early rest, Harmless lethal early ∧ events = early ++ .call (.ok ()) :: rest ∧
        StopsIn rest sig atEntry := by
  induction events with
  | nil => simp
  | cons event rest ih =>
      rw [run_cons]
      cases event with
      | call answer =>
          have hfirst : ∀ early rest', Harmless lethal early →
              .call answer :: rest = early ++ .call (.ok ()) :: rest' →
                answer = .ok () ∧ rest = rest' := by
            intro early rest' hharmless hevents
            cases early with
            | nil =>
                cases hevents
                exact ⟨rfl, rfl⟩
            | cons first early =>
                obtain ⟨s, rfl, _⟩ := hharmless first (List.mem_cons_self ..)
                cases hevents
          cases answer with
          | ok done =>
              rw [Child.next, run_traced_stopped_iff]
              constructor
              · intro h
                exact ⟨[], rest, fun _ hmem => absurd hmem List.not_mem_nil, rfl, h⟩
              · rintro ⟨early, rest', hharmless, hevents, h⟩
                obtain ⟨_, rfl⟩ := hfirst early rest' hharmless hevents
                exact h
          | error e =>
              rw [Child.next]
              refine iff_of_false (run_untraced_ne_stopped _ rest) ?_
              rintro ⟨early, rest', hharmless, hevents, _⟩
              cases (hfirst early rest' hharmless hevents).1
      | signal s =>
          change run _ (if lethal s then killed s else forked) rest = _ ↔ _
          have hlater : ∀ early rest', Harmless lethal early →
              .signal s :: rest = early ++ .call (.ok ()) :: rest' →
                lethal s = false ∧ ∃ early', Harmless lethal early' ∧
                  rest = early' ++ .call (.ok ()) :: rest' := by
            intro early rest' hharmless hevents
            cases early with
            | nil => cases hevents
            | cons first early =>
                obtain ⟨_, hfirst, hlethal⟩ := hharmless first (List.mem_cons_self ..)
                obtain ⟨rfl, rfl⟩ := List.cons.inj hevents
                cases hfirst
                exact ⟨hlethal, early, fun event hmem =>
                  hharmless event (List.mem_cons_of_mem _ hmem), rfl⟩
          cases hlethal : lethal s with
          | true =>
              rw [if_pos rfl, run_settled fun _ => rfl]
              refine iff_of_false (by simp) ?_
              rintro ⟨early, rest', hharmless, hevents, _⟩
              rw [hlethal] at hlater
              cases (hlater early rest' hharmless hevents).1
          | false =>
              rw [if_neg Bool.false_ne_true, ih]
              constructor
              · rintro ⟨early, rest', hharmless, rfl, h⟩
                refine ⟨.signal s :: early, rest', ?_, rfl, h⟩
                exact List.forall_mem_cons.mpr ⟨⟨s, rfl, hlethal⟩, hharmless⟩
              · rintro ⟨early, rest', hharmless, hevents, h⟩
                obtain ⟨_, early', hharmless', hrest⟩ := hlater early rest' hharmless hevents
                exact ⟨early', rest', hharmless', hrest, h⟩

-- The child has one way to exit.
theorem run_exited_code {code : Int32}
    (h : run (Child.next (documented lethal dumps)) forked events = exited code) : code = 127 := by
  have hcodes := @run_invariant _ _ (Child.next (documented lethal dumps))
    (fun child => ∀ code, child = exited code → code = 127) forked events (by simp) ?_
  · exact hcodes code h
  · intro child event hchild code hnext
    cases child with
    | forked =>
        cases event with
        | call answer => cases answer <;> cases hnext
        | signal s =>
            change (if lethal s then killed s else forked) = _ at hnext
            split at hnext <;> cases hnext
    | traced =>
        cases event with
        | call answer => cases answer <;> cases hnext
        | signal s =>
            change stopFor s = _ at hnext
            unfold stopFor at hnext
            split at hnext <;> cases hnext
    | leaving isTraced message =>
        cases event with
        | call answer =>
            cases hnext
            rfl
        | signal s =>
            change (if isTraced then stopFor s else if lethal s then killed s
              else leaving false message) = _ at hnext
            unfold stopFor at hnext
            split at hnext <;> split at hnext <;> cases hnext
    | _ => exact hchild code hnext

def ChildEvent.isCall : ChildEvent → Bool
  | call _ => true
  | signal _ => false

def callsLeft : Child → Nat
  | forked => 2
  | traced => 1
  | _ => 0

-- A call brings the child nearer to a state that it is known of, and nothing brings it away.
theorem callsLeft_next {child : Child} {event : ChildEvent} {pid : Int32}
    (h : (documented lethal dumps).waitStatus pid
      (Child.next (documented lethal dumps) child event) = none) :
    callsLeft (Child.next (documented lethal dumps) child event) + event.isCall.toNat ≤
      callsLeft child := by
  have hstop : ∀ s, (documented lethal dumps).waitStatus pid (stopFor s) ≠ none := by
    intro s
    unfold stopFor
    split <;> simp [documented]
  cases child with
  | forked =>
      cases event with
      | call answer =>
          cases answer with
          | ok done => exact Nat.le_refl 2
          | error e => exact Nat.le_succ 1
      | signal s =>
          change callsLeft (if lethal s then killed s else forked) + 0 ≤ _
          split
          · exact Nat.zero_le 2
          · exact Nat.le_refl 2
  | traced =>
      cases event with
      | call answer =>
          cases answer with
          | ok done => cases h
          | error e => exact Nat.le_refl 1
      | signal s => exact absurd h (hstop s)
  | leaving isTraced message =>
      cases event with
      | call answer => cases h
      | signal s =>
          cases isTraced with
          | true => exact absurd h (hstop s)
          | false =>
              change callsLeft (if lethal s then killed s else leaving false message) + 0 ≤ _
              split <;> exact Nat.le_refl 0
  | _ => cases h

theorem waiting_of_run_waiting {child : Child} {pid : Int32}
    (h : (documented lethal dumps).waitStatus pid
      (run (Child.next (documented lethal dumps)) child events) = none) :
    (documented lethal dumps).waitStatus pid child = none := by
  cases child with
  | forked => rfl
  | traced => rfl
  | leaving isTraced message => rfl
  | _ =>
      rw [run_settled fun _ => rfl] at h
      exact h

-- A child that nobody is told of has made at most two calls.
theorem calls_le_of_waiting {child : Child} {pid : Int32}
    (h : (documented lethal dumps).waitStatus pid
      (run (Child.next (documented lethal dumps)) child events) = none) :
    events.countP ChildEvent.isCall ≤ callsLeft child := by
  induction events generalizing child with
  | nil => simp
  | cons event rest ih =>
      rw [run_cons] at h
      have hrest := ih h
      have hstep := callsLeft_next (waiting_of_run_waiting h)
      rw [List.countP_cons]
      cases hcall : event.isCall
      · simp only [hcall, Bool.toNat_false, Bool.false_eq_true, if_false] at hstep ⊢
        omega
      · simp only [hcall, Bool.toNat_true, if_true] at hstep ⊢
        omega

end Schedules

section Parent

open Child hiding next

variable {kernel : ChildKernel} {lethal dumps : Signal → Bool} {events : List ChildEvent}
  {pid : Int32} {program : String} {args : List String}

-- `none` while there is nothing to be told of the child and the parent waits.
def launchAfter (kernel : ChildKernel) (events : List ChildEvent) (pid : Int32)
    (program : String) (args : List String) : Option Launched :=
  (kernel.waitStatus pid (run (Child.next kernel) forked events)).map fun status =>
    launch (fun _ => .ok status) (.ok pid) program args

theorem launch_calls {waitpid : Int32 → Except String WaitStatus} {programBytes : List UInt8}
    {argBytes : List (List UInt8)} (hprogram : cString program = .ok programBytes)
    (hargs : args.mapM cString = .ok argBytes) (child : Int32) :
    (launch waitpid (.ok child) program args).calls = [.fork, .wait child] := by
  unfold launch
  rw [hprogram, hargs]
  simp only [Calling.calls_bind, Calling.calls_call, Calling.result_call]
  split <;> rfl

theorem launch_result {waitpid : Int32 → Except String WaitStatus} {programBytes : List UInt8}
    {argBytes : List (List UInt8)} (hprogram : cString program = .ok programBytes)
    (hargs : args.mapM cString = .ok argBytes) (child : Int32) :
    (launch waitpid (.ok child) program args).result = match waitpid child with
      | .ok (.stopped _ _) => .ok { pid := child }
      | .ok (.exited _ code) => .error s!"Child exited immediately with code {code}"
      | .ok status => .error s!"Unexpected wait status after fork: {status.debug}"
      | .error e => .error s!"waitpid failed: {e}" := by
  unfold launch
  rw [hprogram, hargs]
  simp only [Calling.result_bind, Calling.result_call]
  cases waitpid child with
  | error e => rfl
  | ok status => cases status <;> rfl

-- What a launch that comes back says of the child, whatever signals have come in between.
structure Handshake (kernel : ChildKernel) (lethal : Signal → Bool) (events : List ChildEvent)
    (pid : Int32) (launched : Launched) : Prop where
  calls_eq : launched.calls = [.fork, .wait pid]
  ready_iff : launched.result = .ok { pid } ↔
    ∃ sig atEntry, run (Child.next kernel) forked events = stopped sig atEntry
  stopped_iff : ∀ sig atEntry, run (Child.next kernel) forked events = stopped sig atEntry ↔
    ∃ early rest, Harmless lethal early ∧ events = early ++ .call (.ok ()) :: rest ∧
      StopsIn rest sig atEntry
  exited : ∀ code, run (Child.next kernel) forked events = exited code →
    launched.result = .error "Child exited immediately with code 127"

theorem launch_handshake {programBytes : List UInt8} {argBytes : List (List UInt8)}
    (hprogram : cString program = .ok programBytes) (hargs : args.mapM cString = .ok argBytes)
    {status : WaitStatus}
    (hstatus : (documented lethal dumps).waitStatus pid
      (run (Child.next (documented lethal dumps)) forked events) = some status) :
    Handshake (documented lethal dumps) lethal events pid
      (launch (fun _ => .ok status) (.ok pid) program args) := by
  refine ⟨launch_calls hprogram hargs pid, ?_, fun sig atEntry => run_forked_stopped_iff events,
    fun code hexited => ?_⟩
  · rw [launch_result hprogram hargs]
    generalize run (Child.next (documented lethal dumps)) forked events = child at hstatus
    cases child with
    | stopped sig atEntry =>
        cases hstatus
        exact iff_of_true rfl ⟨sig, atEntry, rfl⟩
    | exited code =>
        cases hstatus
        simp
    | killed sig =>
        cases hstatus
        simp
    | _ => cases hstatus
  · rw [launch_result hprogram hargs]
    obtain rfl := run_exited_code hexited
    rw [hexited] at hstatus
    cases hstatus
    rfl

-- The launch comes back when the child has made three calls, if not before.
theorem launchAfter_handshake {programBytes : List UInt8} {argBytes : List (List UInt8)}
    (hprogram : cString program = .ok programBytes) (hargs : args.mapM cString = .ok argBytes)
    (hkernel : kernel.Documented lethal dumps) (events : List ChildEvent) (pid : Int32) :
    (2 < events.countP ChildEvent.isCall →
      (launchAfter kernel events pid program args).isSome) ∧
      ∀ launched, launchAfter kernel events pid program args = some launched →
        Handshake kernel lethal events pid launched := by
  obtain rfl := hkernel.eq
  unfold launchAfter
  refine ⟨fun hcalls => ?_, fun launched hlaunched => ?_⟩
  · by_contra hwaiting
    rw [Option.isSome_map, Option.not_isSome_iff_eq_none] at hwaiting
    exact absurd hcalls (calls_le_of_waiting hwaiting).not_gt
  · obtain ⟨status, hstatus, rfl⟩ := Option.map_eq_some_iff.mp hlaunched
    exact launch_handshake hprogram hargs hstatus

theorem launchAfter_handshake_ls :
    let lethal : Signal → Bool := fun sig => sig == .SIGTERM
    let events : List ChildEvent := [.signal .SIGCHLD, .call (.ok ()), .call (.ok ())]
    (2 < events.countP ChildEvent.isCall →
      (launchAfter (documented lethal lethal) events 42 "/bin/ls" ["-l"]).isSome) ∧
      ∀ launched, launchAfter (documented lethal lethal) events 42 "/bin/ls" ["-l"] =
        some launched → Handshake (documented lethal lethal) lethal events 42 launched :=
  launchAfter_handshake (show cString "/bin/ls" = .ok (Bincode.utf8 "/bin/ls") by decide +kernel)
    (show ["-l"].mapM cString = .ok [Bincode.utf8 "-l"] by decide +kernel)
    (documented_documented _ _) _ 42

end Parent

end Tdb.Launcher
