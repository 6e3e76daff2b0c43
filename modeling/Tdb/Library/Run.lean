import Mathlib.Algebra.BigOperators.Group.List.Basic
import Mathlib.Data.List.Forall2

namespace Tdb.Library

-- What a loop body does with its state: go round again, or break with a reason.
inductive Flow (σ ε : Type*) where
  | next (state : σ)
  | stop (state : σ) (exit : ε)

namespace Flow

variable {σ ε : Type*}

def state : Flow σ ε → σ
  | next s => s
  | stop s _ => s

@[simp] theorem state_next (s : σ) : (next s : Flow σ ε).state = s := rfl

@[simp] theorem state_stop (s : σ) (e : ε) : (stop s e).state = s := rfl

end Flow

variable {σ ι ε : Type*}

-- A loop fed one input per iteration. Running out of inputs leaves it at the top.
def loop (body : σ → ι → Flow σ ε) : σ → List ι → Flow σ ε
  | s, [] => .next s
  | s, i :: rest =>
      match body s i with
      | .next s' => loop body s' rest
      | .stop s' e => .stop s' e

-- The iterations a loop performs: the state at the top of each, with its input.
def visited (body : σ → ι → Flow σ ε) : σ → List ι → List (σ × ι)
  | _, [] => []
  | s, i :: rest =>
      (s, i) :: match body s i with
        | .next s' => visited body s' rest
        | .stop _ _ => []

section Loop

variable (body : σ → ι → Flow σ ε)

theorem visited_invariant {Inv : σ → Prop} {s : σ} {inputs : List ι} (hinit : Inv s)
    (hbody : ∀ p ∈ visited body s inputs, Inv p.1 → Inv (body p.1 p.2).state) :
    ∀ p ∈ visited body s inputs, Inv p.1 := by
  induction inputs generalizing s with
  | nil => simp [visited]
  | cons i rest ih =>
      intro p hp
      have hfirst := hbody (s, i) (by simp [visited]) hinit
      cases hb : body s i with
      | next s' =>
          simp only [visited, hb, List.mem_cons] at hp hbody
          rcases hp with rfl | hp
          · exact hinit
          · exact ih (by simpa [hb] using hfirst) (fun q hq => hbody q (Or.inr hq)) p hp
      | stop s' e =>
          simp only [visited, hb, List.mem_singleton] at hp
          subst hp
          exact hinit

theorem loop_invariant {Inv : σ → Prop} {s : σ} {inputs : List ι} (hinit : Inv s)
    (hbody : ∀ p ∈ visited body s inputs, Inv p.1 → Inv (body p.1 p.2).state) :
    Inv (loop body s inputs).state := by
  induction inputs generalizing s with
  | nil => exact hinit
  | cons i rest ih =>
      have hfirst := hbody (s, i) (by simp [visited]) hinit
      cases hb : body s i with
      | next s' =>
          simp only [visited, hb, List.mem_cons] at hbody
          simp only [loop, hb]
          exact ih (by simpa [hb] using hfirst) (fun q hq => hbody q (Or.inr hq))
      | stop s' e =>
          simp only [loop, hb]
          simpa [hb] using hfirst

-- A loop breaks where one of its iterations does.
theorem loop_eq_stop_iff {s s' : σ} {e : ε} {inputs : List ι} :
    loop body s inputs = .stop s' e ↔ ∃ p ∈ visited body s inputs, body p.1 p.2 = .stop s' e := by
  induction inputs generalizing s with
  | nil => simp [loop, visited]
  | cons i rest ih =>
      cases hb : body s i with
      | next s₁ =>
          simp only [loop, visited, hb, List.mem_cons, exists_eq_or_imp, reduceCtorEq, false_or]
          exact ih
      | stop s₁ e₁ => simp [loop, visited, hb]

theorem loop_append (s : σ) (left right : List ι) :
    loop body s (left ++ right) = match loop body s left with
      | .next s' => loop body s' right
      | .stop s' e => .stop s' e := by
  induction left generalizing s with
  | nil => rfl
  | cons i rest ih =>
      cases hb : body s i with
      | next s' => simp only [List.cons_append, loop, hb, ih]
      | stop s' e => simp only [List.cons_append, loop, hb]

-- A property that an iteration keeps under a condition exactly is kept by a whole loop under
-- that condition exactly.
theorem visited_kept_iff {Kept : σ → Prop} {Cond : σ → ι → Prop} {s : σ} {inputs : List ι}
    (hinit : Kept s)
    (hbody : ∀ p ∈ visited body s inputs,
      Kept p.1 → (Kept (body p.1 p.2).state ↔ Cond p.1 p.2)) :
    (∀ p ∈ visited body s inputs, Kept (body p.1 p.2).state) ↔
      ∀ p ∈ visited body s inputs, Cond p.1 p.2 := by
  constructor
  · intro hkept p hp
    have hbefore := visited_invariant body hinit fun q hq _ => hkept q hq
    exact (hbody p hp (hbefore p hp)).mp (hkept p hp)
  · intro hcond p hp
    have hbefore := visited_invariant body hinit fun q hq hkept => (hbody q hq hkept).mpr (hcond q hq)
    exact (hbody p hp (hbefore p hp)).mpr (hcond p hp)

section Indexed

theorem getElem?_visited_zero (s : σ) (inputs : List ι) :
    (visited body s inputs)[0]? = inputs[0]?.map fun i => (s, i) := by
  cases inputs with
  | nil => rfl
  | cons i rest => rfl

-- An iteration is followed by another one if it goes round and there is an input for it.
theorem getElem?_visited_succ (s : σ) (inputs : List ι) (n : Nat) (q : σ × ι) :
    (visited body s inputs)[n + 1]? = some q ↔ ∃ p, (visited body s inputs)[n]? = some p ∧
      body p.1 p.2 = .next q.1 ∧ inputs[n + 1]? = some q.2 := by
  induction inputs generalizing s n with
  | nil => simp [visited]
  | cons i rest ih =>
      cases hb : body s i with
      | stop s' e =>
          simp only [visited, hb, List.getElem?_cons_succ, List.getElem?_nil, reduceCtorEq, false_iff]
          rintro ⟨p, hp, hnext, _⟩
          cases n with
          | zero =>
              cases hp
              rw [hb] at hnext
              cases hnext
          | succ n => cases hp
      | next s' =>
          simp only [visited, hb, List.getElem?_cons_succ]
          cases n with
          | zero =>
              rw [getElem?_visited_zero, Option.map_eq_some_iff]
              constructor
              · rintro ⟨j, hj, rfl⟩
                exact ⟨(s, i), rfl, hb, hj⟩
              · rintro ⟨p, hp, hnext, hinput⟩
                cases hp
                rw [hb, Flow.next.injEq] at hnext
                exact ⟨q.2, hinput, by rw [hnext]⟩
          | succ n => exact ih s' n

theorem input_of_visited {s : σ} {inputs : List ι} {n : Nat} {p : σ × ι}
    (h : (visited body s inputs)[n]? = some p) : inputs[n]? = some p.2 := by
  cases n with
  | zero =>
      rw [getElem?_visited_zero] at h
      obtain ⟨i, hi, rfl⟩ := Option.map_eq_some_iff.mp h
      exact hi
  | succ n =>
      obtain ⟨_, _, _, hinput⟩ := (getElem?_visited_succ body s inputs n p).mp h
      exact hinput

-- An invariant may say how many iterations have gone by.
theorem visited_invariant_at {Inv : Nat → σ → Prop} {s : σ} {inputs : List ι} (hinit : Inv 0 s)
    (hbody : ∀ n p s', (visited body s inputs)[n]? = some p → Inv n p.1 →
      body p.1 p.2 = .next s' → Inv (n + 1) s') {n : Nat} {p : σ × ι}
    (hp : (visited body s inputs)[n]? = some p) : Inv n p.1 := by
  induction n generalizing p with
  | zero =>
      rw [getElem?_visited_zero] at hp
      obtain ⟨i, _, rfl⟩ := Option.map_eq_some_iff.mp hp
      exact hinit
  | succ n ih =>
      obtain ⟨q, hq, hnext, _⟩ := (getElem?_visited_succ body s inputs n p).mp hp
      exact hbody n q p.1 hq (ih hq) hnext

-- A loop whose iterations are each some iterations of another loop comes to states of that one.
theorem loop_of_visited {κ δ : Type*} {body' : σ → κ → Flow σ δ} (expand : ι → List κ) {s : σ}
    {inputs : List ι} (hbody : ∀ p ∈ visited body s inputs, ∀ s', body p.1 p.2 = .next s' →
      loop body' p.1 (expand p.2) = .next s') {n : Nat} {p : σ × ι}
    (hp : (visited body s inputs)[n]? = some p) :
    loop body' s ((inputs.take n).flatMap expand) = .next p.1 := by
  refine @visited_invariant_at _ _ _ body
    (fun n s' => loop body' s ((inputs.take n).flatMap expand) = .next s') s inputs rfl ?_ n p hp
  intro n p s' hp hinv hnext
  have hinput := input_of_visited body hp
  have htake : inputs.take (n + 1) = inputs.take n ++ [p.2] := by
    rw [List.take_add_one, hinput]
    rfl
  rw [htake, List.flatMap_append, loop_append, hinv]
  simpa using hbody p (List.mem_of_getElem? hp) s' hnext

theorem loop_expands {κ δ : Type*} {body' : σ → κ → Flow σ δ} (expand : ι → List κ) {s s' : σ}
    {inputs : List ι} (hbody : ∀ p ∈ visited body s inputs, ∀ s', body p.1 p.2 = .next s' →
      loop body' p.1 (expand p.2) = .next s') (h : loop body s inputs = .next s') :
    loop body' s (inputs.flatMap expand) = .next s' := by
  induction inputs generalizing s with
  | nil =>
      cases h
      rfl
  | cons i rest ih =>
      cases hb : body s i with
      | stop s₁ e => simp [loop, hb] at h
      | next s₁ =>
          simp only [visited, hb, List.mem_cons] at hbody
          simp only [loop, hb] at h
          rw [List.flatMap_cons, loop_append, hbody (s, i) (Or.inl rfl) s₁ hb]
          exact ih (fun p hp => hbody p (Or.inr hp)) h

variable {body} {Stops : Nat → Prop} {s : σ} {inputs : List ι}
  (hstops : ∀ n p, (visited body s inputs)[n]? = some p →
    ((∃ s' e, body p.1 p.2 = .stop s' e) ↔ Stops n))
include hstops

-- The iterations that are performed are those before and up to the first that breaks.
theorem lt_length_visited_iff (n : Nat) :
    n < (visited body s inputs).length ↔ n < inputs.length ∧ ∀ m < n, ¬Stops m := by
  induction n with
  | zero =>
      cases inputs with
      | nil => simp [visited]
      | cons i rest => simp [visited]
  | succ n ih =>
      constructor
      · intro hlt
        obtain ⟨q, hq⟩ : ∃ q, (visited body s inputs)[n + 1]? = some q :=
          ⟨_, List.getElem?_eq_getElem hlt⟩
        obtain ⟨p, hp, hnext, hinput⟩ := (getElem?_visited_succ body s inputs n q).mp hq
        have hbefore := (ih.mp (List.getElem?_eq_some_iff.mp hp).1).2
        refine ⟨(List.getElem?_eq_some_iff.mp hinput).1, fun m hm => ?_⟩
        by_cases hmn : m = n
        · subst hmn
          rw [← hstops m p hp, hnext]
          simp
        · exact hbefore m (by omega)
      · rintro ⟨hlt, hnone⟩
        have hn := ih.mpr ⟨by omega, fun m hm => hnone m (by omega)⟩
        have hp := List.getElem?_eq_getElem hn
        have hgoes := (not_congr (hstops n _ hp)).mpr (hnone n (by omega))
        cases hb : body (visited body s inputs)[n].1 (visited body s inputs)[n].2 with
        | stop s' e => exact absurd ⟨s', e, hb⟩ hgoes
        | next s' =>
            have hq := (getElem?_visited_succ body s inputs n (s', inputs[n + 1])).mpr
              ⟨_, hp, hb, List.getElem?_eq_getElem hlt⟩
            exact (List.getElem?_eq_some_iff.mp hq).1

theorem loop_stops_iff :
    (∃ s' e, loop body s inputs = .stop s' e) ↔ ∃ n < inputs.length, Stops n := by
  constructor
  · rintro ⟨s', e, hloop⟩
    obtain ⟨p, hp, hstop⟩ := (loop_eq_stop_iff body).mp hloop
    obtain ⟨n, hn⟩ := List.mem_iff_getElem?.mp hp
    exact ⟨n, (List.getElem?_eq_some_iff.mp (input_of_visited body hn)).1,
      (hstops n p hn).mp ⟨s', e, hstop⟩⟩
  · rintro ⟨n, hlt, hn⟩
    induction n using Nat.strongRecOn with
    | _ n ih =>
        by_cases hearlier : ∃ m < n, Stops m
        · obtain ⟨m, hmn, hm⟩ := hearlier
          exact ih m hmn (by omega) hm
        · have hperformed := (lt_length_visited_iff hstops n).mpr
            ⟨hlt, fun m hm hstop => hearlier ⟨m, hm, hstop⟩⟩
          have hp := List.getElem?_eq_getElem hperformed
          obtain ⟨s', e, hstop⟩ := (hstops n _ hp).mpr hn
          exact ⟨s', e, (loop_eq_stop_iff body).mpr ⟨_, List.getElem_mem hperformed, hstop⟩⟩

end Indexed

-- What every iteration absorbs into a part of the state is absorbed by the loop in their order.
theorem loop_absorbs {M : Type*} (record : σ → M) (absorb : M → σ × ι → M) {s : σ}
    {inputs : List ι}
    (hbody : ∀ p ∈ visited body s inputs, record (body p.1 p.2).state = absorb (record p.1) p) :
    record (loop body s inputs).state = (visited body s inputs).foldl absorb (record s) := by
  induction inputs generalizing s with
  | nil => simp [loop, visited]
  | cons i rest ih =>
      have hfirst := hbody (s, i) (by simp [visited])
      cases hb : body s i with
      | next s' =>
          simp only [visited, hb, List.mem_cons] at hbody
          simp only [hb, Flow.state_next] at hfirst
          have hrest := ih (fun q hq => hbody q (Or.inr hq))
          simp only [loop, visited, hb, List.foldl_cons, hrest, hfirst]
      | stop s' e =>
          simpa [loop, visited, hb] using hfirst

-- A quantity that every iteration grows by its own contribution ends at the sum of them.
theorem loop_adds {M : Type*} [AddMonoid M] (total : σ → M) (out : σ → ι → M) {s : σ}
    {inputs : List ι}
    (hbody : ∀ p ∈ visited body s inputs, total (body p.1 p.2).state = total p.1 + out p.1 p.2) :
    total (loop body s inputs).state =
      total s + ((visited body s inputs).map fun p => out p.1 p.2).sum := by
  rw [loop_absorbs body total (fun m p => m + out p.1 p.2) hbody, List.sum_eq_foldr]
  exact List.foldl_map.symm.trans List.foldl_eq_apply_foldr

theorem loop_appends {β : Type*} (record : σ → List β) (out : σ → ι → List β) {s : σ}
    {inputs : List ι}
    (hbody : ∀ p ∈ visited body s inputs, record (body p.1 p.2).state = record p.1 ++ out p.1 p.2) :
    record (loop body s inputs).state =
      record s ++ (visited body s inputs).flatMap fun p => out p.1 p.2 := by
  rw [loop_absorbs body record (fun done p => done ++ out p.1 p.2) hbody,
    List.foldl_append_eq_append, List.flatMap_def]

end Loop

section Run

-- A run is a loop whose body never breaks.
def forever (step : σ → ι → σ) (s : σ) (i : ι) : Flow σ Empty :=
  .next (step s i)

def run (step : σ → ι → σ) (s : σ) (inputs : List ι) : σ :=
  (loop (forever step) s inputs).state

def trail (step : σ → ι → σ) (s : σ) (inputs : List ι) : List (σ × ι) :=
  visited (forever step) s inputs

variable (step : σ → ι → σ)

@[simp] theorem run_nil (s : σ) : run step s [] = s := rfl

@[simp] theorem run_cons (s : σ) (i : ι) (rest : List ι) :
    run step s (i :: rest) = run step (step s i) rest := rfl

@[simp] theorem trail_nil (s : σ) : trail step s [] = [] := rfl

@[simp] theorem trail_cons (s : σ) (i : ι) (rest : List ι) :
    trail step s (i :: rest) = (s, i) :: trail step (step s i) rest := rfl

theorem run_eq_foldl (s : σ) (inputs : List ι) : run step s inputs = inputs.foldl step s := by
  induction inputs generalizing s with
  | nil => rfl
  | cons i rest ih => exact ih (step s i)

-- A part of the state that some iterations take a step with goes through a run of these steps.
theorem loop_runs {τ κ : Type*} (body : σ → ι → Flow σ ε) (step : τ → κ → τ) (part : σ → τ)
    (out : σ → ι → Option κ) {s : σ} {inputs : List ι}
    (hbody : ∀ p ∈ visited body s inputs,
      part (body p.1 p.2).state = ((out p.1 p.2).map (step (part p.1))).getD (part p.1)) :
    part (loop body s inputs).state =
      run step (part s) ((visited body s inputs).filterMap fun p => out p.1 p.2) := by
  rw [loop_absorbs body part (fun t p => ((out p.1 p.2).map (step t)).getD t) hbody, run_eq_foldl,
    List.foldl_filterMap]
  congr 1
  funext t p
  cases out p.1 p.2 <;> rfl

-- A run of one machine is followed by another one whose steps agree with it.
theorem run_mirrors {τ : Type*} {step : σ → ι → σ} {step' : τ → ι → τ} (view : σ → τ)
    (h : ∀ s i, step' (view s) i = view (step s i)) (s : σ) (inputs : List ι) :
    run step' (view s) inputs = view (run step s inputs) := by
  rw [run_eq_foldl, run_eq_foldl]
  exact List.foldl_hom view h

theorem trail_mirrors {τ : Type*} {step : σ → ι → σ} {step' : τ → ι → τ} (view : σ → τ)
    (h : ∀ s i, step' (view s) i = view (step s i)) (s : σ) (inputs : List ι) :
    trail step' (view s) inputs = (trail step s inputs).map fun p => (view p.1, p.2) := by
  induction inputs generalizing s with
  | nil => rfl
  | cons i rest ih => rw [trail_cons, trail_cons, List.map_cons, h, ih]

-- A machine that is fed the inputs that the body takes stays related to it.
theorem loop_follows {τ : Type*} (body : σ → ι → Flow σ ε) (step : τ → ι → τ) {Rel : σ → τ → Prop}
    {s : σ} {t : τ} {inputs : List ι} (hinit : Rel s t)
    (hbody : ∀ s t i, Rel s t → Rel (body s i).state (step t i)) :
    Rel (loop body s inputs).state (run step t ((visited body s inputs).map Prod.snd)) := by
  induction inputs generalizing s t with
  | nil => exact hinit
  | cons i rest ih =>
      have hfirst := hbody s t i hinit
      simp only [loop, visited, List.map_cons, run_cons]
      cases hb : body s i with
      | next s₁ =>
          rw [hb] at hfirst
          exact ih hfirst
      | stop s₁ e =>
          rw [hb] at hfirst
          exact hfirst

theorem run_append (s : σ) (left right : List ι) :
    run step s (left ++ right) = run step (run step s left) right := by
  induction left generalizing s with
  | nil => rfl
  | cons i rest ih => simpa only [List.cons_append, run_cons] using ih _

theorem trail_append (s : σ) (left right : List ι) :
    trail step s (left ++ right) = trail step s left ++ trail step (run step s left) right := by
  induction left generalizing s with
  | nil => rfl
  | cons i rest ih => simp only [List.cons_append, trail_cons, run_cons, ih]

theorem mem_trail_iff (s : σ) (inputs : List ι) (p : σ × ι) :
    p ∈ trail step s inputs ↔
      ∃ before after, inputs = before ++ p.2 :: after ∧ p.1 = run step s before := by
  constructor
  · induction inputs generalizing s with
    | nil => simp
    | cons i rest ih =>
        rw [trail_cons, List.mem_cons]
        rintro (rfl | hp)
        · exact ⟨[], rest, rfl, rfl⟩
        · obtain ⟨before, after, rfl, hs⟩ := ih _ hp
          exact ⟨i :: before, after, rfl, hs⟩
  · rintro ⟨before, after, rfl, hs⟩
    rw [trail_append, trail_cons, ← hs]
    simp

theorem mem_trail_middle (s : σ) (before : List ι) (i : ι) (after : List ι) :
    (run step s before, i) ∈ trail step s (before ++ i :: after) :=
  (mem_trail_iff step s _ _).mpr ⟨before, after, rfl, rfl⟩

theorem getElem?_trail (s : σ) (inputs : List ι) (k : Nat) :
    (trail step s inputs)[k]? = inputs[k]?.map fun i => (run step s (inputs.take k), i) := by
  induction inputs generalizing s k with
  | nil => rfl
  | cons i rest ih =>
      cases k with
      | zero => rfl
      | succ k => simpa using ih (step s i) k

theorem run_take_succ (s : σ) (inputs : List ι) (k : Nat) :
    run step s (inputs.take (k + 1)) = match inputs[k]? with
      | some i => step (run step s (inputs.take k)) i
      | none => run step s (inputs.take k) := by
  rw [List.take_add_one, run_append]
  cases inputs[k]? <;> rfl

theorem run_invariant {Inv : σ → Prop} {s : σ} (inputs : List ι) (hinit : Inv s)
    (hstep : ∀ s i, Inv s → Inv (step s i)) : Inv (run step s inputs) :=
  loop_invariant _ hinit fun p _ => hstep p.1 p.2

theorem trail_invariant {Inv : σ → Prop} {s : σ} (inputs : List ι) (hinit : Inv s)
    (hstep : ∀ s i, Inv s → Inv (step s i)) : ∀ p ∈ trail step s inputs, Inv p.1 :=
  visited_invariant _ hinit fun p _ => hstep p.1 p.2

theorem run_appends {β : Type*} (record : σ → List β) (out : σ → ι → List β) {s : σ}
    {inputs : List ι}
    (hstep : ∀ p ∈ trail step s inputs, record (step p.1 p.2) = record p.1 ++ out p.1 p.2) :
    record (run step s inputs) = record s ++ (trail step s inputs).flatMap fun p => out p.1 p.2 :=
  loop_appends _ record out hstep

-- Steps that each simulate moves of a partial abstract machine simulate a whole run of it.
theorem run_simulates {τ ω : Type*} (next : τ → ω → Option τ) (abs : σ → τ)
    (out : σ → ι → List ω) {s : σ} {inputs : List ι}
    (hstep : ∀ p ∈ trail step s inputs,
      (out p.1 p.2).foldlM next (abs p.1) = some (abs (step p.1 p.2))) :
    ((trail step s inputs).flatMap fun p => out p.1 p.2).foldlM next (abs s) =
      some (abs (run step s inputs)) := by
  induction inputs generalizing s with
  | nil => rfl
  | cons i rest ih =>
      rw [trail_cons, List.forall_mem_cons] at hstep
      rw [trail_cons, List.flatMap_cons, List.foldlM_append, hstep.1]
      exact ih hstep.2

end Run

section Counting

variable (step : σ → ι → σ) (counts : σ → ι → Bool)

-- The steps of a run that count, each with the state it is taken in.
def counting (s : σ) (inputs : List ι) : List (σ × ι) :=
  (trail step s inputs).filter fun p => counts p.1 p.2

-- A part of the state after the first `k` steps that count.
def fieldAt {β : Type*} (field : σ → β) (s : σ) (inputs : List ι) : Nat → β
  | 0 => field s
  | k + 1 =>
      match (counting step counts s inputs)[k]? with
      | some p => field (step p.1 p.2)
      | none => fieldAt field s inputs k

variable {step counts} {β : Type*} {field : σ → β}
  (hskip : ∀ s i, counts s i = false → field (step s i) = field s)
include hskip

theorem field_counting_first (s : σ) (inputs : List ι) {p : σ × ι}
    (hp : (counting step counts s inputs)[0]? = some p) : field p.1 = field s := by
  induction inputs generalizing s with
  | nil => cases hp
  | cons i rest ih =>
      unfold counting at hp
      rw [trail_cons, List.filter_cons] at hp
      cases hcounts : counts s i with
      | true =>
          rw [if_pos hcounts] at hp
          cases hp
          rfl
      | false =>
          rw [if_neg (by simp [hcounts])] at hp
          exact (ih _ hp).trans (hskip s i hcounts)

theorem field_counting_succ (s : σ) (inputs : List ι) {k : Nat} {p q : σ × ι}
    (hp : (counting step counts s inputs)[k]? = some p)
    (hq : (counting step counts s inputs)[k + 1]? = some q) :
    field q.1 = field (step p.1 p.2) := by
  induction inputs generalizing s k with
  | nil => cases hp
  | cons i rest ih =>
      unfold counting at hp hq
      rw [trail_cons, List.filter_cons] at hp hq
      cases hcounts : counts s i with
      | true =>
          rw [if_pos hcounts] at hp hq
          cases k with
          | zero =>
              cases hp
              exact field_counting_first hskip _ rest hq
          | succ k => exact ih _ hp hq
      | false =>
          rw [if_neg (by simp [hcounts])] at hp hq
          exact ih _ hp hq

-- What only the steps that count change is between two of them as the first has left it.
theorem field_eq_fieldAt (s : σ) (inputs : List ι) {k : Nat} {p : σ × ι}
    (hp : (counting step counts s inputs)[k]? = some p) :
    field p.1 = fieldAt step counts field s inputs k := by
  cases k with
  | zero => exact field_counting_first hskip s inputs hp
  | succ k =>
      have hlt : k < (counting step counts s inputs).length := by
        have hnext := (List.getElem?_eq_some_iff.mp hp).1
        omega
      have hbefore := List.getElem?_eq_getElem hlt
      unfold fieldAt
      rw [hbefore]
      exact field_counting_succ hskip s inputs hbefore hp

end Counting

section Logs

-- A log has its items from the steps that add one.
theorem flatMap_toList_filter {α β : Type*} (f : α → Option β) (l : List α) :
    (l.flatMap fun a => (f a).toList) =
      (l.filter fun a => (f a).isSome).flatMap fun a => (f a).toList := by
  induction l with
  | nil => rfl
  | cons a rest ih =>
      rw [List.flatMap_cons, List.filter_cons, ih]
      cases hf : f a <;> simp [hf]

-- A log to which every step adds one item has the item of the `k`-th step in place `k`.
theorem getElem?_flatMap_toList {α β : Type*} (f : α → Option β) (l : List α)
    (hsome : ∀ a ∈ l, (f a).isSome) (k : Nat) :
    (l.flatMap fun a => (f a).toList)[k]? = l[k]?.bind f := by
  induction l generalizing k with
  | nil => rfl
  | cons a rest ih =>
      obtain ⟨b, hb⟩ := Option.isSome_iff_exists.mp (hsome a (List.mem_cons_self ..))
      have hrest := ih fun x hx => hsome x (List.mem_cons_of_mem a hx)
      cases k with
      | zero => simp [hb]
      | succ k => simpa [hb] using hrest k

-- Two logs of the same steps agree entry by entry when each step's additions do.
theorem forall₂_flatMap {α β γ : Type*} {R : β → γ → Prop} {f : α → List β} {g : α → List γ}
    {l : List α} (h : ∀ a ∈ l, List.Forall₂ R (f a) (g a)) :
    List.Forall₂ R (l.flatMap f) (l.flatMap g) := by
  have hsame : List.Forall₂ (fun a b => a = b ∧ a ∈ l) l l :=
    List.forall₂_same.mpr fun a ha => ⟨rfl, ha⟩
  refine List.rel_flatMap hsame ?_
  rintro a _ ⟨rfl, ha⟩
  exact h a ha

-- Two lists that agree place by place have a partner for each item.
theorem exists_of_mem_forall₂ {α β : Type*} {R : α → β → Prop} {left : List α} {right : List β}
    (h : List.Forall₂ R left right) {a : α} (ha : a ∈ left) : ∃ b ∈ right, R a b := by
  induction h with
  | nil => cases ha
  | cons hab hrest ih =>
      rcases List.mem_cons.mp ha with rfl | ha
      · exact ⟨_, List.mem_cons_self .., hab⟩
      · obtain ⟨b, hb, hR⟩ := ih ha
        exact ⟨b, List.mem_cons_of_mem _ hb, hR⟩

theorem map_eq_of_forall₂ {α β γ : Type*} {R : α → β → Prop} {f : α → γ} {g : β → γ}
    {left : List α} {right : List β} (h : List.Forall₂ R left right)
    (hfg : ∀ a b, R a b → f a = g b) : left.map f = right.map g := by
  have hsame : List.Forall₂ (· = ·) (left.map f) (right.map g) := by
    rw [List.forall₂_map_left_iff, List.forall₂_map_right_iff]
    exact h.imp hfg
  exact List.forall₂_eq_eq_eq ▸ hsame

theorem exists_mapM_iff {α β : Type*} {f : α → Option β} {l : List α} :
    (∃ bs, l.mapM f = some bs) ↔ ∀ a ∈ l, (f a).isSome := by
  induction l with
  | nil => simp
  | cons a rest ih =>
      rw [List.forall_mem_cons, ← ih, List.mapM_cons]
      cases f a with
      | none => simp
      | some b => cases rest.mapM f <;> simp

end Logs

end Tdb.Library
