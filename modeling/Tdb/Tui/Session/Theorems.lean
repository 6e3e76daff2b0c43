import Tdb.Tui.Session

namespace Tdb.Tui

open Tdb.Library Tdb.Storage Tdb.Stats App

variable {build : Build} {platform : Platform}

section Drawing

-- No entry of the trace makes a panel panic: the texts can be cut for their rows, and the
-- stack pointers can be subtracted.
structure Drawable (build : Build) (platform : Platform) (app : App) : Prop where
  texts : ∀ e ∈ app.trace, ∃ shown, insnShort e.insnText = .ok shown
  deltas : ∀ e ∈ app.trace, ∃ delta,
    stackDelta build app.baseSp ((stackPointer (parseOrNull platform e.regs)).getD 0) = .ok delta

-- What drawing leaves of an app.
def drawn (app : App) (hasRoom : Bool) : App :=
  { app with
    listState := if hasRoom then app.listState.clamp app.filteredIndices.length else app.listState }

variable {app : App} {hasRoom : Bool}

theorem timelineRow_isOk_iff {i : Nat} {e : TraceEntry} (he : app.trace[i]? = some e) :
    (∃ row, timelineRow app i = .ok row) ↔ ∃ shown, insnShort e.insnText = .ok shown := by
  have hindex : index app.trace i = .ok e := by
    unfold index
    rw [he]
  unfold timelineRow
  rw [hindex]
  dsimp only
  cases insnShort e.insnText <;> simp

theorem draw_isOk_iff : (∃ app', draw app hasRoom = .ok app') ↔
    ∀ i ∈ app.filteredIndices, ∃ row, timelineRow app i = .ok row := by
  have hrows : (∃ app', draw app hasRoom = .ok app') ↔
      ∃ rows, app.filteredIndices.mapM (timelineRow app) = .ok rows := by
    unfold draw renderTimeline
    cases app.filteredIndices.mapM (timelineRow app) <;> simp
  rw [hrows]
  constructor
  · rintro ⟨rows, hmap⟩ i hi
    cases hrow : timelineRow app i with
    | ok row => exact ⟨row, rfl⟩
    | error panic =>
        exfalso
        obtain ⟨before, after, hsplit⟩ := List.append_of_mem hi
        rw [hsplit, List.mapM_append, List.mapM_cons, hrow] at hmap
        cases hbefore : before.mapM (timelineRow app) with
        | error panic' =>
            rw [hbefore] at hmap
            cases hmap
        | ok rows' =>
            rw [hbefore] at hmap
            cases hmap
  · intro hall
    cases hmap : app.filteredIndices.mapM (timelineRow app) with
    | ok rows => exact ⟨rows, rfl⟩
    | error panic =>
        obtain ⟨i, hi, herror⟩ := mapM_eq_error hmap
        obtain ⟨row, hrow⟩ := hall i hi
        rw [hrow] at herror
        cases herror

theorem renderDetail_isOk_iff (app : App) : (∃ detail, renderDetail build platform app = .ok detail) ↔
    ∀ e, app.trace[app.current]? = some e → ∃ delta,
      stackDelta build app.baseSp ((stackPointer (parseOrNull platform e.regs)).getD 0) =
        .ok delta := by
  unfold renderDetail
  cases app.trace[app.current]? with
  | none => simp
  | some e =>
      dsimp only
      cases hdelta : stackDelta build app.baseSp
        ((stackPointer (parseOrNull platform e.regs)).getD 0) <;> simp [hdelta]

theorem ui_eq_ok_iff {app' : App} : ui build platform app hasRoom = .ok app' ↔
    app' = drawn app hasRoom ∧ (∃ after, draw app hasRoom = .ok after) ∧
      ∃ detail, renderDetail build platform (drawn app hasRoom) = .ok detail := by
  unfold ui
  cases hdraw : draw app hasRoom with
  | error panic => simp
  | ok after =>
      have hafter : after = drawn app hasRoom := draw_eq_ok hdraw
      subst hafter
      dsimp only
      cases renderDetail build platform (drawn app hasRoom) <;> simp [eq_comm]

theorem ui_of_drawable (hwf : app.WellIndexed) (h : Drawable build platform app) (hasRoom : Bool) :
    ui build platform app hasRoom = .ok (drawn app hasRoom) := by
  refine ui_eq_ok_iff.mpr ⟨rfl, draw_isOk_iff.mpr fun i hi => ?_, ?_⟩
  · have hget := List.getElem?_eq_getElem (hwf.filtered_lt i hi)
    exact (timelineRow_isOk_iff hget).mpr (h.texts _ (List.mem_of_getElem? hget))
  · exact (renderDetail_isOk_iff _).mpr fun e he => h.deltas e (List.mem_of_getElem? he)

end Drawing

section Turns

-- What is asked of the terminal behind the widgets: the frame goes out, then a key comes in
-- or none does.
def Turn.input (t : Turn) : Except String (Option KeyCode) :=
  match t.flush with
  | .error e => .error e
  | .ok () =>
      match t.poll with
      | .error e => .error e
      | .ok false => .ok none
      | .ok true =>
          match t.read with
          | .error e => .error e
          | .ok .other => .ok none
          | .ok (.key event) => .ok (if event.kind = .press then some event.code else none)

-- The turn as the viewer sees it.
def Turn.events (t : Turn) : List Event :=
  .draw t.hasRoom :: match t.input with
    | .ok (some code) => [.key code]
    | _ => []

-- The user asks for the end.
def Asks (app : App) (t : Turn) : Prop :=
  app.mode = .normal ∧ (t.input = .ok (some (.char 'q')) ∨ t.input = .ok (some .esc))

-- A viewer in the middle of a session.
structure Running (app : App) : Prop where
  wellIndexed : app.WellIndexed
  goesOn : app.shouldQuit = false

theorem Running.drawn {app : App} (h : Running app) (hasRoom : Bool) :
    Running (drawn app hasRoom) :=
  ⟨⟨h.wellIndexed.ascending, h.wellIndexed.filtered_lt, h.wellIndexed.current_lt,
    h.wellIndexed.current_zero⟩, h.goesOn⟩

variable {app : App} {t : Turn}

theorem turn_eq (h : app.shouldQuit = false) : turn build platform app t =
    match t.autoresize with
    | .error e => .stop app (.failed e)
    | .ok () =>
        match ui build platform app t.hasRoom with
        | .error panic => .stop app (.panicked panic)
        | .ok app =>
            match t.input with
            | .error e => .stop app (.failed e)
            | .ok none => .next app
            | .ok (some code) =>
                match handleKey platform app code with
                | .error panic => .stop app (.panicked panic)
                | .ok app => checkQuit app := by
  unfold turn
  cases t.autoresize with
  | error e => rfl
  | ok done =>
      dsimp only
      cases hui : ui build platform app t.hasRoom with
      | error panic => rfl
      | ok app' =>
          have hgoes : app'.shouldQuit = false := by
            rw [(ui_eq_ok_iff.mp hui).1]
            exact h
          have hnext : checkQuit app' = .next app' := by
            unfold checkQuit
            rw [if_neg (by simp [hgoes])]
          unfold Turn.input
          cases t.flush with
          | error e => rfl
          | ok done' =>
              dsimp only
              cases t.poll with
              | error e => rfl
              | ok ready =>
                  cases ready with
                  | false => exact hnext
                  | true =>
                      dsimp only
                      cases t.read with
                      | error e => rfl
                      | ok input =>
                          cases input with
                          | other => exact hnext
                          | key event =>
                              obtain ⟨code, kind⟩ := event
                              cases kind with
                              | press => cases hkey : handleKey platform app' code <;> simp [hkey]
                              | repeated => rfl
                              | release => rfl

theorem moveTo_shouldQuit (app : App) (idx : Nat) (regs : Option (List (String × Value))) :
    (app.moveTo idx regs).shouldQuit = app.shouldQuit := by
  unfold moveTo syncList
  split <;> rfl

-- The two keys that end a session.
def quits : KeyCode → Bool
  | .char 'q' | .esc => true
  | _ => false

theorem quits_iff (code : KeyCode) : quits code = true ↔ code = .char 'q' ∨ code = .esc := by
  unfold quits
  split <;> simp_all

theorem select_shouldQuit (idx : Nat) :
    ∃ app', app.select platform idx = .ok app' ∧ app'.shouldQuit = app.shouldQuit := by
  by_cases hidx : idx < app.trace.length
  · obtain ⟨regs, hselect⟩ := select_of_lt platform hidx
    exact ⟨_, hselect, moveTo_shouldQuit ..⟩
  · exact ⟨app, select_of_ge (by omega), rfl⟩

theorem flagged_shouldQuit (code : KeyCode) :
    (app.flagged code).shouldQuit = (app.shouldQuit || quits code) := by
  unfold App.flagged
  split
  all_goals first
    | exact (Bool.or_true _).symm
    | exact (Bool.or_false _).symm
    | skip
  unfold quits
  split
  all_goals first
    | exact (Bool.or_false _).symm
    | contradiction

theorem searching_shouldQuit (query : String) (code : KeyCode) :
    (app.searching platform query code).shouldQuit = app.shouldQuit := by
  cases code <;> rfl

theorem prepared_shouldQuit (hgoes : app.shouldQuit = false) (code : KeyCode) :
    (app.prepared platform code).shouldQuit = true ↔ app.mode = .normal ∧ quits code = true := by
  unfold App.prepared
  cases hmode : app.mode with
  | normal => simp [flagged_shouldQuit, hgoes]
  | search query => simp [searching_shouldQuit, hgoes]
  | help => simp [hgoes]

-- A key ends the session exactly if it is one of the two that quit, outside of the search and
-- of the help.
theorem handleKey_quits (platform : Platform) (hrun : Running app) (code : KeyCode) :
    ∃ app', handleKey platform app code = .ok app' ∧
      (app'.shouldQuit = true ↔ app.mode = .normal ∧ quits code = true) := by
  rw [handleKey_eq platform code hrun.wellIndexed]
  have hprepared : (app.prepared platform code).shouldQuit = true ↔ _ :=
    prepared_shouldQuit hrun.goesOn code
  cases asked platform app code with
  | none => exact ⟨_, rfl, hprepared⟩
  | some idx =>
      obtain ⟨app', hselect, hquit⟩ : ∃ app',
          (app.prepared platform code).select platform idx = .ok app' ∧ _ := select_shouldQuit idx
      rw [← hquit] at hprepared
      exact ⟨app', hselect, hprepared⟩

-- All that a turn can come to.
inductive Turns (build : Build) (platform : Platform) (app : App) (t : Turn) :
    Flow App Exit → Prop where
  | failed (app' : App) (message : String)
      (hfails : t.autoresize = .error message ∨
        t.autoresize = .ok () ∧ ui build platform app t.hasRoom = .ok (drawn app t.hasRoom) ∧
          t.input = .error message) :
      Turns build platform app t (.stop app' (.failed message))
  | panicked (panic : Panic) (hresize : t.autoresize = .ok ())
      (hui : ui build platform app t.hasRoom = .error panic) :
      Turns build platform app t (.stop app (.panicked panic))
  | idle (hresize : t.autoresize = .ok ())
      (hui : ui build platform app t.hasRoom = .ok (drawn app t.hasRoom))
      (hinput : t.input = .ok none) :
      Turns build platform app t (.next (drawn app t.hasRoom))
  | pressed (code : KeyCode) (app' : App) (hresize : t.autoresize = .ok ())
      (hui : ui build platform app t.hasRoom = .ok (drawn app t.hasRoom))
      (hinput : t.input = .ok (some code))
      (hkey : handleKey platform (drawn app t.hasRoom) code = .ok app')
      (hrun : Running app') (hasks : ¬Asks app t) : Turns build platform app t (.next app')
  | quit (code : KeyCode) (app' : App) (hresize : t.autoresize = .ok ())
      (hui : ui build platform app t.hasRoom = .ok (drawn app t.hasRoom))
      (hinput : t.input = .ok (some code)) (hasks : Asks app t) :
      Turns build platform app t (.stop app' .quit)

theorem turn_turns (build : Build) (platform : Platform) (hrun : Running app) (t : Turn) :
    Turns build platform app t (turn build platform app t) := by
  rw [turn_eq hrun.goesOn]
  cases hresize : t.autoresize with
  | error e => exact .failed app e (.inl hresize)
  | ok done =>
      dsimp only
      cases hui : ui build platform app t.hasRoom with
      | error panic => exact .panicked panic hresize hui
      | ok app₁ =>
          obtain rfl := (ui_eq_ok_iff.mp hui).1
          dsimp only
          cases hinput : t.input with
          | error e => exact .failed _ e (.inr ⟨hresize, hui, hinput⟩)
          | ok pressed =>
              cases pressed with
              | none => exact .idle hresize hui hinput
              | some code =>
                  have hdrawn := hrun.drawn t.hasRoom
                  obtain ⟨app', hkey, hquit⟩ := handleKey_quits platform hdrawn code
                  have hwf : app'.WellIndexed := by
                    obtain ⟨app₂, hkey₂, heffect⟩ :=
                      handleKey_effect code platform hdrawn.wellIndexed
                    rw [hkey, Except.ok.injEq] at hkey₂
                    subst hkey₂
                    exact heffect.wellIndexed hdrawn.wellIndexed
                  have hasks : Asks app t ↔ app'.shouldQuit = true := by
                    rw [hquit, quits_iff]
                    unfold Asks
                    rw [hinput]
                    simp [drawn]
                  dsimp only
                  rw [hkey]
                  dsimp only
                  unfold checkQuit
                  split
                  · rename_i hends
                    exact .quit code app' hresize hui hinput (hasks.mpr hends)
                  · rename_i hgoes
                    have hrun' : Running app' := ⟨hwf, by simpa using hgoes⟩
                    exact .pressed code app' hresize hui hinput hkey hrun' fun h =>
                      hgoes (hasks.mp h)

end Turns

section Session

variable {app app' : App} {t : Turn}

theorem handle_draw (hui : ui build platform app t.hasRoom = .ok (drawn app t.hasRoom)) :
    handle platform app (.draw t.hasRoom) = .next (drawn app t.hasRoom) := by
  obtain ⟨_, ⟨after, hafter⟩, _⟩ := ui_eq_ok_iff.mp hui
  have heq : after = drawn app t.hasRoom := draw_eq_ok hafter
  unfold handle
  dsimp only
  rw [hafter, heq]

-- A turn that goes on is the drawing and the key that the viewer sees of it.
theorem Turns.loop_events (h : Turns build platform app t (.next app')) :
    loop (handle platform) app t.events = .next app' := by
  cases h with
  | idle hresize hui hinput =>
      unfold Turn.events
      rw [hinput]
      simp only [loop, handle_draw hui]
  | pressed code _ hresize hui hinput hkey hrun hasks =>
      unfold Turn.events
      rw [hinput]
      simp only [loop, handle_draw hui, handle_key hkey]

theorem Turns.running (hrun : Running app) (h : Turns build platform app t (.next app')) :
    Running app' := by
  cases h with
  | idle hresize hui hinput => exact hrun.drawn t.hasRoom
  | pressed code _ hresize hui hinput hkey hrun' hasks => exact hrun'

-- What stays the same from the first turn to the last.
structure Opened (start app : App) : Prop where
  running : Running app
  trace_eq : app.trace = start.trace
  baseSp_eq : app.baseSp = start.baseSp

theorem Opened.next {start : App} (hopened : Opened start app)
    (h : Turns build platform app t (.next app')) : Opened start app' := by
  refine ⟨h.running hopened.running, ?_, ?_⟩
  · refine Eq.trans ?_ hopened.trace_eq
    cases h with
    | idle hresize hui hinput => rfl
    | pressed code _ hresize hui hinput hkey hrun' hasks =>
        obtain ⟨app₁, hkey₁, heffect⟩ :=
          handleKey_effect code platform (hopened.running.drawn t.hasRoom).wellIndexed
        rw [hkey, Except.ok.injEq] at hkey₁
        subst hkey₁
        exact heffect.trace_eq
  · refine Eq.trans ?_ hopened.baseSp_eq
    cases h with
    | idle hresize hui hinput => rfl
    | pressed code _ hresize hui hinput hkey hrun' hasks =>
        obtain ⟨app₁, hkey₁, heffect⟩ :=
          handleKey_effect code platform (hopened.running.drawn t.hasRoom).wellIndexed
        rw [hkey, Except.ok.injEq] at hkey₁
        subst hkey₁
        exact heffect.baseSp_eq

theorem Opened.drawable {start : App} (hopened : Opened start app)
    (h : Drawable build platform start) : Drawable build platform app :=
  ⟨by rw [hopened.trace_eq]; exact h.texts,
    by rw [hopened.trace_eq, hopened.baseSp_eq]; exact h.deltas⟩

variable (order : HashOrder) (db : TraceDb) (traceFile : String) (turns : List Turn)

theorem new_opened :
    Opened (App.new platform order db traceFile) (App.new platform order db traceFile) :=
  ⟨⟨new_wellIndexed order db traceFile, rfl⟩, rfl, rfl⟩

theorem visited_opened : ∀ p ∈ visited (turn build platform) (App.new platform order db traceFile) turns,
    Opened (App.new platform order db traceFile) p.1 := by
  intro p hp
  obtain ⟨n, hn⟩ := List.mem_iff_getElem?.mp hp
  refine @visited_invariant_at _ _ _ (turn build platform)
    (fun _ app => Opened (App.new platform order db traceFile) app) _ turns
    (new_opened order db traceFile) ?_ n p hn
  intro n p app' hp hopened hnext
  have hturns := turn_turns build platform hopened.running p.2
  rw [hnext] at hturns
  exact hopened.next hturns

theorem visited_turn_events {p : App × Turn}
    (hp : p ∈ visited (turn build platform) (App.new platform order db traceFile) turns) {app : App}
    (hnext : turn build platform p.1 p.2 = .next app) :
    loop (handle platform) p.1 p.2.events = .next app := by
  have hopened := visited_opened order db traceFile turns p hp
  have hturns := turn_turns build platform hopened.running p.2
  rw [hnext] at hturns
  exact hturns.loop_events

-- In a session the viewer only comes to states that drawing and pressing keys lead to.
theorem visited_turn_reached {n : Nat} {p : App × Turn}
    (hp : (visited (turn build platform) (App.new platform order db traceFile) turns)[n]? = some p) :
    loop (handle platform) (App.new platform order db traceFile)
      ((turns.take n).flatMap Turn.events) = .next p.1 :=
  loop_of_visited _ Turn.events (fun _ hq _ => visited_turn_events order db traceFile turns hq) hp

end Session

section Samples

-- Nothing fails when the terminal is asked.
def Answered (t : Turn) : Prop :=
  t.autoresize = .ok () ∧ ∃ pressed, t.input = .ok pressed

-- A turn without input, and two in which a key is pressed.
def idleTurn : Turn where
  hasRoom := true
  autoresize := .ok ()
  flush := .ok ()
  poll := .ok false
  read := .ok .other

def rightTurn : Turn :=
  { idleTurn with poll := .ok true, read := .ok (.key { code := .right, kind := .press }) }

def quitTurn : Turn :=
  { idleTurn with poll := .ok true, read := .ok (.key { code := .esc, kind := .press }) }

theorem exists_of_isOk {ε α : Type} {x : Except ε α} (h : x.isOk = true) : ∃ a, x = .ok a := by
  cases x with
  | ok a => exact ⟨a, rfl⟩
  | error e => cases h

theorem twoEntries_drawable :
    Drawable .debug samplePlatform (App.new samplePlatform .inKeyOrder twoEntries "trace.tdb") := by
  have htexts : twoEntries.getAll.all (fun e => (insnShort e.insnText).isOk) = true := by
    decide +kernel
  have hdeltas : twoEntries.getAll.all (fun e => (stackDelta .debug none
      ((stackPointer (parseOrNull samplePlatform e.regs)).getD 0)).isOk) = true := by
    decide +kernel
  exact ⟨fun e he => exists_of_isOk (List.all_eq_true.mp htexts e he),
    fun e he => exists_of_isOk (List.all_eq_true.mp hdeltas e he)⟩

theorem rightTurn_answered : Answered rightTurn := ⟨rfl, _, rfl⟩

theorem quitTurn_answered : Answered quitTurn := ⟨rfl, _, rfl⟩

end Samples

section Ends

variable (order : HashOrder) (db : TraceDb) (traceFile : String)

theorem turn_answered {app : App} (hrun : Running app) (hdraw : Drawable build platform app)
    {t : Turn} (ht : Answered t) :
    (Asks app t ∧ ∃ app', turn build platform app t = .stop app' .quit) ∨
      ¬Asks app t ∧ ∃ app', turn build platform app t = .next app' := by
  obtain ⟨hresize, pressed, hpressed⟩ := ht
  have hui := ui_of_drawable hrun.wellIndexed hdraw t.hasRoom
  have hturns := turn_turns build platform hrun t
  generalize turn build platform app t = after at hturns
  cases hturns with
  | failed app' message hfails =>
      rcases hfails with hfails | ⟨_, _, hfails⟩
      · rw [hresize] at hfails
        cases hfails
      · rw [hpressed] at hfails
        cases hfails
  | panicked panic _ hpanic =>
      rw [hui] at hpanic
      cases hpanic
  | idle _ _ hinput =>
      refine Or.inr ⟨?_, _, rfl⟩
      unfold Asks
      rw [hinput]
      simp
  | pressed code app' _ _ _ _ _ hasks => exact Or.inr ⟨hasks, app', rfl⟩
  | quit code app' _ _ _ hasks => exact Or.inl ⟨hasks, app', rfl⟩

-- A session over a trace that can be drawn goes on until the user asks for its end, and ends
-- then. Until then the viewer has seen every frame and every key.
theorem new_loop_turn_ends (hdraw : Drawable build platform (App.new platform order db traceFile))
    (turns : List Turn) (hanswered : ∀ t ∈ turns, Answered t) :
    let start := App.new platform order db traceFile
    (∃ n p app, (visited (turn build platform) start turns)[n]? = some p ∧ Asks p.1 p.2 ∧
      loop (handle platform) start ((turns.take n).flatMap Turn.events) = .next p.1 ∧
        loop (turn build platform) start turns = .stop app .quit) ∨
    ((∀ p ∈ visited (turn build platform) start turns, ¬Asks p.1 p.2) ∧
      ∃ app, loop (turn build platform) start turns = .next app ∧
        loop (handle platform) start (turns.flatMap Turn.events) = .next app) := by
  intro start
  have hturn : ∀ p ∈ visited (turn build platform) start turns,
      (Asks p.1 p.2 ∧ ∃ app', turn build platform p.1 p.2 = .stop app' .quit) ∨
        ¬Asks p.1 p.2 ∧ ∃ app', turn build platform p.1 p.2 = .next app' := by
    intro p hp
    have hopened := @visited_opened build platform order db traceFile turns p hp
    obtain ⟨n, hn⟩ := List.mem_iff_getElem?.mp hp
    exact turn_answered hopened.running (hopened.drawable hdraw)
      (hanswered p.2 (List.mem_of_getElem? (input_of_visited _ hn)))
  cases hloop : loop (turn build platform) start turns with
  | stop app exit =>
      obtain ⟨p, hp, hstop⟩ := (loop_eq_stop_iff _).mp hloop
      rcases hturn p hp with ⟨hasks, app', hquit⟩ | ⟨_, app', hnext⟩
      · rw [hquit, Flow.stop.injEq] at hstop
        obtain ⟨rfl, rfl⟩ := hstop
        obtain ⟨n, hn⟩ := List.mem_iff_getElem?.mp hp
        have hreached := visited_turn_reached order db traceFile turns hn
        exact Or.inl ⟨n, p, app', hn, hasks, hreached, rfl⟩
      · rw [hnext] at hstop
        cases hstop
  | next app =>
      refine Or.inr ⟨fun p hp hasks => ?_, app, rfl, ?_⟩
      · rcases hturn p hp with ⟨_, app', hquit⟩ | ⟨hnot, _⟩
        · have hstop := (loop_eq_stop_iff _).mpr ⟨p, hp, hquit⟩
          rw [hloop] at hstop
          cases hstop
        · exact hnot hasks
      · exact loop_expands _ Turn.events
          (fun _ hp _ => visited_turn_events order db traceFile turns hp) hloop

theorem new_loop_turn_ends_twoEntries :
    let start := App.new samplePlatform .inKeyOrder twoEntries "trace.tdb"
    let turns := [rightTurn, quitTurn]
    (∃ n p app, (visited (turn .debug samplePlatform) start turns)[n]? = some p ∧
      Asks p.1 p.2 ∧
      loop (handle samplePlatform) start ((turns.take n).flatMap Turn.events) = .next p.1 ∧
        loop (turn .debug samplePlatform) start turns = .stop app .quit) ∨
    ((∀ p ∈ visited (turn .debug samplePlatform) start turns, ¬Asks p.1 p.2) ∧
      ∃ app, loop (turn .debug samplePlatform) start turns = .next app ∧
        loop (handle samplePlatform) start (turns.flatMap Turn.events) = .next app) := by
  refine new_loop_turn_ends .inKeyOrder twoEntries "trace.tdb" twoEntries_drawable _ fun t ht => ?_
  rcases List.mem_pair.mp ht with rfl | rfl
  · exact rightTurn_answered
  · exact quitTurn_answered

end Ends

section Panics

variable (order : HashOrder) (db : TraceDb) (traceFile : String)

def NeverPanics (build : Build) (platform : Platform) (start : App) : Prop :=
  ∀ turns app panic, loop (turn build platform) start turns ≠ .stop app (.panicked panic)

theorem NeverPanics.ui_eq_ok {start app : App} (h : NeverPanics build platform start)
    (hgoes : app.shouldQuit = false) {turns : List Turn}
    (hloop : loop (turn build platform) start turns = .next app) :
    ui build platform app true = .ok (drawn app true) := by
  cases hui : ui build platform app true with
  | ok app' => rw [(ui_eq_ok_iff.mp hui).1]
  | error panic =>
      have hturn : turn build platform app idleTurn = .stop app (.panicked panic) := by
        rw [turn_eq hgoes]
        simp [idleTurn, hui]
      refine absurd ?_ (h (turns ++ [idleTurn]) app panic)
      rw [loop_append, hloop]
      simp [loop, hturn]

-- The right arrow leads from the first entry to each of the others.
theorem NeverPanics.reaches {start : App} (h : NeverPanics build platform start)
    (hrun : Running start) (hmode : start.mode = .normal) (hfirst : start.current = 0)
    (hlen : start.trace.length + 50 < 2 ^ 63) {i : Nat} (hi : i < start.trace.length) :
    ∃ app, loop (turn build platform) start (List.replicate i rightTurn) = .next app ∧
      Opened start app ∧ app.mode = .normal ∧ app.current = i := by
  induction i with
  | zero => exact ⟨start, rfl, ⟨hrun, rfl, rfl⟩, hmode, hfirst⟩
  | succ i ih =>
      obtain ⟨app, hloop, hopened, hnormal, hcurrent⟩ := ih (by omega)
      have hui := h.ui_eq_ok hopened.running.goesOn hloop
      have hdrawn := hopened.running.drawn true
      have htrace : (drawn app true).trace = start.trace := hopened.trace_eq
      have hsafe := hdrawn.wellIndexed.stepSafe (by rw [htrace]; exact hlen)
        (show (-50 : Int) ≤ 1 by decide) (by decide)
      have htarget : (drawn app true).stepTarget 1 = i + 1 := by
        have hne : (drawn app true).trace ≠ [] := by
          rw [htrace]
          exact List.ne_nil_of_length_pos (by omega)
        have hexact := hsafe.exact_target hne
        have hplace : (drawn app true).current = i := hcurrent
        rw [hplace, htrace] at hexact
        omega
      have hnext : i + 1 < (drawn app true).trace.length := by
        rw [htrace]
        exact hi
      obtain ⟨regs, hselect⟩ := select_of_lt platform hnext
      have hkey : handleKey platform (drawn app true) .right =
          .ok ((drawn app true).moveTo (i + 1) regs) := by
        have hmode' : (drawn app true).mode = .normal := hnormal
        unfold handleKey
        rw [hmode']
        change (drawn app true).step platform 1 = _
        unfold step
        rw [htarget, hselect]
      have hturn : turn build platform app rightTurn =
          .next ((drawn app true).moveTo (i + 1) regs) := by
        have hquit : ((drawn app true).moveTo (i + 1) regs).shouldQuit = false := by
          rw [moveTo_shouldQuit]
          exact hopened.running.goesOn
        rw [turn_eq hopened.running.goesOn]
        simp [rightTurn, idleTurn, hui, Turn.input, hkey, checkQuit, hquit]
      have hturns := turn_turns build platform hopened.running rightTurn
      rw [hturn] at hturns
      refine ⟨_, ?_, hopened.next hturns, ?_, moveTo_current ..⟩
      · rw [List.replicate_succ', loop_append, hloop]
        simp [loop, hturn]
      · rw [moveTo_mode]
        exact hnormal

theorem neverPanics_of_drawable
    (hdraw : Drawable build platform (App.new platform order db traceFile)) :
    NeverPanics build platform (App.new platform order db traceFile) := by
  intro turns app panic hstop
  obtain ⟨p, hp, hturn⟩ := (loop_eq_stop_iff _).mp hstop
  have hopened := @visited_opened build platform order db traceFile turns p hp
  have hui := ui_of_drawable hopened.running.wellIndexed (hopened.drawable hdraw) p.2.hasRoom
  have hturns := turn_turns build platform hopened.running p.2
  rw [hturn] at hturns
  cases hturns with
  | panicked _ _ hpanic =>
      rw [hui] at hpanic
      cases hpanic

-- No session over a trace panics, whatever the user does, exactly if each of its entries can be
-- drawn.
theorem new_neverPanics_iff (hlen : db.getAll.length + 50 < 2 ^ 63) :
    NeverPanics build platform (App.new platform order db traceFile) ↔
      Drawable build platform (App.new platform order db traceFile) := by
  have hnew := @new_opened platform order db traceFile
  constructor
  · intro h
    refine ⟨fun e he => ?_, fun e he => ?_⟩
    · obtain ⟨i, hi⟩ := List.mem_iff_getElem?.mp he
      have hstart : loop (turn build platform) (App.new platform order db traceFile) [] = .next _ :=
        rfl
      have hui := h.ui_eq_ok hnew.running.goesOn hstart
      have hrow := draw_isOk_iff.mp (ui_eq_ok_iff.mp hui).2.1 i
        (List.mem_range.mpr (List.getElem?_eq_some_iff.mp hi).1)
      exact (timelineRow_isOk_iff hi).mp hrow
    · obtain ⟨i, hi⟩ := List.mem_iff_getElem?.mp he
      obtain ⟨app, hloop, hopened, _, hcurrent⟩ := h.reaches hnew.running rfl rfl hlen
        (List.getElem?_eq_some_iff.mp hi).1
      have hui := h.ui_eq_ok hopened.running.goesOn hloop
      have hdetail := (renderDetail_isOk_iff _).mp (ui_eq_ok_iff.mp hui).2.2 e
        (by rw [show (drawn app true).current = i from hcurrent,
              show (drawn app true).trace = _ from hopened.trace_eq]
            exact hi)
      rwa [show (drawn app true).baseSp = _ from hopened.baseSp_eq] at hdetail
  · exact neverPanics_of_drawable order db traceFile

theorem new_neverPanics_iff_twoEntries :
    NeverPanics .debug samplePlatform (App.new samplePlatform .inKeyOrder twoEntries "trace.tdb") ↔
      Drawable .debug samplePlatform
        (App.new samplePlatform .inKeyOrder twoEntries "trace.tdb") :=
  new_neverPanics_iff .inKeyOrder twoEntries "trace.tdb" (by decide +kernel)

end Panics

section Restored

-- A trace that is opened: the file can be read and has entries in it.
def Opens (data : Except String (List UInt8)) (traceFile : String) : Prop :=
  ∃ db, TraceDb.load data traceFile = .ok db ∧ db.count ≠ 0

section Calls

variable (answers : TerminalAnswers)

theorem enter_result_iff : (enter answers).result = .ok () ↔ answers.enableRawMode = .ok () ∧
    answers.enterAlternateScreen = .ok () ∧ answers.newTerminal = .ok () := by
  unfold enter ask TerminalAnswers.to
  cases answers.enableRawMode with
  | error e => simp
  | ok done =>
      cases answers.enterAlternateScreen with
      | error e => simp
      | ok done => simp

-- What the calls of the setup leave the terminal in.
theorem enter_terminal : (enter answers).calls.foldl Terminal.after {} =
    { raw := answers.enableRawMode.isOk
      alternate := answers.enableRawMode.isOk && answers.enterAlternateScreen.isOk } := by
  unfold enter ask TerminalAnswers.to
  cases answers.enableRawMode with
  | error e => rfl
  | ok done =>
      cases answers.enterAlternateScreen with
      | error e => rfl
      | ok done => cases answers.newTerminal <;> rfl

theorem restore_result (result : Except String Unit) :
    ∃ final, (restore answers result).result = .ok final := by
  unfold restore ask TerminalAnswers.to
  cases answers.disableRawMode with
  | error e => exact ⟨_, rfl⟩
  | ok done => cases answers.leaveAlternateScreen <;> exact ⟨_, rfl⟩

theorem restore_terminal_iff (result : Except String Unit) :
    (restore answers result).calls.foldl Terminal.after { raw := true, alternate := true } = {} ↔
      answers.disableRawMode = .ok () ∧ answers.leaveAlternateScreen = .ok () := by
  unfold restore ask TerminalAnswers.to
  cases answers.disableRawMode with
  | error e => simp [Terminal.after]
  | ok done => cases answers.leaveAlternateScreen <;> simp [Terminal.after]

theorem leave_result {exit : Exit} (h : ∀ panic, exit ≠ .panicked panic) :
    ∃ result, (leave answers exit).result = .ok result := by
  cases exit with
  | panicked panic => exact absurd rfl (h panic)
  | quit => exact restore_result answers (.ok ())
  | failed e => exact restore_result answers (.error e)

theorem leave_terminal_iff (exit : Exit) :
    (leave answers exit).calls.foldl Terminal.after { raw := true, alternate := true } = {} ↔
      (∃ result, (leave answers exit).result = .ok result) ∧
        answers.disableRawMode = .ok () ∧ answers.leaveAlternateScreen = .ok () := by
  cases exit with
  | panicked panic => simp [leave]
  | quit =>
      rw [and_iff_right (leave_result answers (by simp))]
      exact restore_terminal_iff answers (.ok ())
  | failed e =>
      rw [and_iff_right (leave_result answers (by simp))]
      exact restore_terminal_iff answers (.error e)

end Calls

section Browse

variable {answers : TerminalAnswers} {app : App} {turns : List Turn} {ended : Ended}

-- A session that ends has failed in the setup or has come through the main loop.
theorem browse_eq_some_iff : browse build platform answers app turns = some ended ↔
    (∃ e, (enter answers).result = .error e ∧ ended = (do
      let _ ← enter answers
      return .ok (.error e))) ∨
    (enter answers).result = .ok () ∧
      ∃ app' exit, loop (turn build platform) app turns = .stop app' exit ∧ ended = (do
        let _ ← enter answers
        leave answers exit) := by
  unfold browse
  cases (enter answers).result with
  | error e => simp [eq_comm]
  | ok done => cases loop (turn build platform) app turns <;> simp [eq_comm]

theorem terminal_of_enter (rest : Except String Unit → Ended) :
    Ended.terminal (enter answers >>= rest) =
      (rest (enter answers).result).calls.foldl Terminal.after
        { raw := answers.enableRawMode.isOk
          alternate := answers.enableRawMode.isOk && answers.enterAlternateScreen.isOk } := by
  unfold Ended.terminal
  rw [Calling.calls_bind, List.foldl_append, enter_terminal]

-- A session over a trace that never panics has a result.
theorem browse_result (hnever : NeverPanics build platform app)
    (hended : browse build platform answers app turns = some ended) :
    ∃ result, ended.result = .ok result := by
  rcases browse_eq_some_iff.mp hended with ⟨e, _, rfl⟩ | ⟨_, app', exit, hloop, rfl⟩
  · exact ⟨_, rfl⟩
  · refine leave_result answers fun panic hpanic => ?_
    subst hpanic
    exact hnever turns app' panic hloop

theorem browse_terminal_iff (hended : browse build platform answers app turns = some ended) :
    (ended.terminal = {} ↔ answers.enableRawMode ≠ .ok () ∨
      answers.enterAlternateScreen = .ok () ∧ answers.newTerminal = .ok () ∧
        (∃ result, ended.result = .ok result) ∧
          answers.disableRawMode = .ok () ∧ answers.leaveAlternateScreen = .ok ()) ∧
    (answers.enableRawMode = .ok () →
      answers.enterAlternateScreen ≠ .ok () ∨ answers.newTerminal ≠ .ok () →
        ended.terminal.raw = true) := by
  have hisOk : ∀ answer : Except String Unit, answer.isOk = true ↔ answer = .ok () := by
    rintro (e | done) <;> simp [Except.isOk, Except.toBool]
  rcases browse_eq_some_iff.mp hended with ⟨e, hentered, rfl⟩ | ⟨hentered, app', exit, hloop, rfl⟩
  · rw [terminal_of_enter, Calling.calls_pure, List.foldl_nil]
    have hsetup : ¬((enter answers).result = .ok ()) := by
      rw [hentered]
      exact nofun
    rw [enter_result_iff] at hsetup
    refine ⟨⟨fun hsame => ?_, fun h => ?_⟩, fun hraw _ => (hisOk _).mpr hraw⟩
    · have hoff := congrArg Terminal.raw hsame
      refine Or.inl fun hraw => ?_
      rw [(hisOk _).mpr hraw] at hoff
      cases hoff
    · rcases h with hraw | ⟨henter, hterminal, _⟩
      · have hoff : answers.enableRawMode.isOk = false := by
          rwa [← Bool.not_eq_true, hisOk]
        rw [hoff]
        rfl
      · have hraw : ¬(answers.enableRawMode = .ok ()) :=
          fun hraw => hsetup ⟨hraw, henter, hterminal⟩
        have hoff : answers.enableRawMode.isOk = false := by
          rwa [← Bool.not_eq_true, hisOk]
        rw [hoff]
        rfl
  · obtain ⟨hraw, henter, hterminal⟩ := (enter_result_iff answers).mp hentered
    rw [terminal_of_enter, (hisOk _).mpr hraw, (hisOk _).mpr henter, Bool.and_self]
    refine ⟨?_, fun _ hfailed => ?_⟩
    · rw [leave_terminal_iff, Calling.result_bind]
      simp [hraw, henter, hterminal]
    · exact absurd hfailed (by simp [henter, hterminal])

end Browse

theorem run_result {order : HashOrder} {data : Except String (List UInt8)} {traceFile : String}
    {answers : TerminalAnswers} {turns : List Turn} {ended : Ended}
    (hnever : ∀ db, TraceDb.load data traceFile = .ok db →
      NeverPanics build platform (App.new platform order db traceFile))
    (hrun : run build platform order data traceFile answers turns = some ended) :
    ∃ result, ended.result = .ok result := by
  unfold run at hrun
  split at hrun
  · cases hrun
    exact ⟨_, rfl⟩
  · rename_i db hload
    split at hrun
    · cases hrun
      exact ⟨_, rfl⟩
    · exact browse_result (hnever db hload) hrun

-- The terminal is left as it was found exactly if nothing of it was changed, or everything was
-- and could be changed back, and the main loop did not panic. A setup that fails half way leaves
-- it in raw mode.
theorem run_terminal_iff {order : HashOrder} {data : Except String (List UInt8)}
    {traceFile : String} {answers : TerminalAnswers} {turns : List Turn} {ended : Ended}
    (hrun : run build platform order data traceFile answers turns = some ended) :
    (ended.terminal = {} ↔
      (¬Opens data traceFile ∨ answers.enableRawMode ≠ .ok ()) ∨
      answers.enterAlternateScreen = .ok () ∧ answers.newTerminal = .ok () ∧
        (∃ result, ended.result = .ok result) ∧
          answers.disableRawMode = .ok () ∧ answers.leaveAlternateScreen = .ok ()) ∧
    (Opens data traceFile → answers.enableRawMode = .ok () →
      answers.enterAlternateScreen ≠ .ok () ∨ answers.newTerminal ≠ .ok () →
        ended.terminal.raw = true) := by
  unfold run at hrun
  unfold Opens
  cases hload : TraceDb.load data traceFile with
  | error e =>
      rw [hload] at hrun
      cases hrun
      simp [Ended.terminal]
  | ok db =>
      rw [hload] at hrun
      dsimp only at hrun
      split at hrun
      · rename_i hempty
        cases hrun
        simp [hempty, Ended.terminal]
      · rename_i hfull
        have hended := browse_terminal_iff hrun
        simpa [hfull] using hended

-- A terminal that does all that is asked of it.
def willing : TerminalAnswers where
  enableRawMode := .ok ()
  enterAlternateScreen := .ok ()
  newTerminal := .ok ()
  disableRawMode := .ok ()
  leaveAlternateScreen := .ok ()

-- A terminal that cannot be given the alternate screen stays in raw mode.
theorem run_terminal_iff_refused :
    let answers := { willing with enterAlternateScreen := .error "broken pipe" }
    ∃ ended, run .release samplePlatform .inKeyOrder (.ok twoEntries.serialize) "trace.tdb" answers
        [quitTurn] = some ended ∧
      (ended.terminal = {} ↔
        (¬Opens (.ok twoEntries.serialize) "trace.tdb" ∨ answers.enableRawMode ≠ .ok ()) ∨
        answers.enterAlternateScreen = .ok () ∧ answers.newTerminal = .ok () ∧
          (∃ result, ended.result = .ok result) ∧
            answers.disableRawMode = .ok () ∧ answers.leaveAlternateScreen = .ok ()) ∧
      (Opens (.ok twoEntries.serialize) "trace.tdb" → answers.enableRawMode = .ok () →
        answers.enterAlternateScreen ≠ .ok () ∨ answers.newTerminal ≠ .ok () →
          ended.terminal.raw = true) := by
  intro answers
  have hended : (run .release samplePlatform .inKeyOrder (.ok twoEntries.serialize) "trace.tdb"
      answers [quitTurn]).isSome := by decide +kernel
  obtain ⟨ended, hrun⟩ := Option.isSome_iff_exists.mp hended
  exact ⟨ended, hrun, run_terminal_iff hrun⟩

end Restored

end Tdb.Tui
