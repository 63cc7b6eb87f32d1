/-
  Shutdown: the steps that clean up, and the callers that wait for them
  (shutdown.py; admission.py, `DeviceAdmissionService.close`).

  * `kept_step`: what every event keeps of the task and its callers;
  * `close_settles`: every step is invoked once and in order, nobody leaves
    before the last has finished, and an error goes before a cancellation.
-/
import MercuryRelay.Lib.Run
import MercuryRelay.Lib.Shield

set_option autoImplicit false

namespace MercuryRelay

open Shield Transition

/-- What `cleanup_steps` raises: the one error, or the group
    `plugin_shutdown_failed`. -/
inductive CleanupError (ε : Type) where
  | single (e : ε)
  | group (es : List ε)
  deriving DecidableEq

variable {σ ε : Type}

/-- How `cleanup_steps` ends: errors go before cancellation. -/
def cleanupEnd (errors : List ε) (cancelled : Bool) : Ended (CleanupError ε) Unit :=
  match errors with
  | [e] => .raised (.single e)
  | [] => if cancelled then .cancelled else .returned ()
  | es => .raised (.group es)

/-- The task that runs `cleanup_steps`. -/
structure CleanupTask (σ ε : Type) where
  /-- the steps to come -/
  steps : List σ
  /-- the step that was invoked and has not ended -/
  current : Option σ := none
  errors : List ε := []
  cancelled : Bool := false
  result : Option (Ended (CleanupError ε) Unit) := none
  /-- the steps that ended, and how -/
  history : List (σ × Ended ε Unit) := []

namespace CleanupTask

/-- The steps that were invoked, in this order. -/
def invoked (task : CleanupTask σ ε) : List σ := task.history.map (·.1) ++ task.current.toList

/-- The loop goes on: the next step is invoked, or there is none. -/
def advance (task : CleanupTask σ ε) : CleanupTask σ ε :=
  match task.steps with
  | step :: steps => { task with steps := steps, current := some step }
  | [] => { task with result := some (cleanupEnd task.errors task.cancelled) }

/-- The step that runs ends. -/
def settle (task : CleanupTask σ ε) (outcome : Ended ε Unit) : CleanupTask σ ε :=
  match task.current with
  | none => task
  | some step =>
    let task := { task with current := none, history := task.history ++ [(step, outcome)] }
    match outcome with
    | .returned _ => task
    | .raised e => { task with errors := task.errors ++ [e] }
    | .cancelled => { task with cancelled := true }

end CleanupTask

/-- A call of `close` that has begun: its wait in `await_cleanup`, and whether it
    was cancelled there. -/
structure ClosingCaller (ε : Type) where
  waiter : Shielded := {}
  wasCancelled : Bool := false
  result : Option (Ended (CleanupError ε) Unit) := none

namespace ClosingCaller

def cancel (caller : ClosingCaller ε) : ClosingCaller ε :=
  if caller.result.isSome then caller
  else { caller with waiter := caller.waiter.cancel, wasCancelled := true }

/-- The caller goes on in `await_cleanup`: it waits again unless the task is done. -/
def resume (caller : ClosingCaller ε) (done : Option (Ended (CleanupError ε) Unit)) : ClosingCaller ε :=
  { caller with waiter := caller.waiter.resume, result := caller.waiter.resume.result done }

end ClosingCaller

/-- `_close_task` and the callers of `close`. -/
structure Closing (σ ε : Type) where
  task : Option (CleanupTask σ ε) := none
  callers : List (ClosingCaller ε) := []

inductive ClosingEvent (ε : Type) where
  /-- `close` is called -/
  | call
  /-- a caller is cancelled -/
  | cancel (k : ℕ)
  /-- a caller whose cancellation is due, or whose task is done, goes on -/
  | resume (k : ℕ)
  /-- the task goes on -/
  | advance
  /-- a step ends -/
  | settle (outcome : Ended ε Unit)

namespace Closing

/-- How the task ended. -/
def done (s : Closing σ ε) : Option (Ended (CleanupError ε) Unit) := s.task.bind (·.result)

def Enabled (s : Closing σ ε) : ClosingEvent ε → Prop
  | .call => True
  | .cancel k => k < s.callers.length
  | .resume k => ∃ caller, s.callers[k]? = some caller ∧ caller.result = none ∧
      (caller.waiter.requested = true ∨ s.done.isSome)
  | .advance => ∃ task, s.task = some task ∧ task.current = none ∧ task.result = none
  | .settle _ => ∃ task, s.task = some task ∧ task.current.isSome

/-- `close` and what follows; the first caller makes the task. -/
def perform (steps : List σ) (s : Closing σ ε) : ClosingEvent ε → Closing σ ε
  | .call =>
    let task := s.task.getD { steps := steps }
    { task := some task, callers := s.callers ++ [{ result := task.result }] }
  | .cancel k => { s with callers := s.callers.modify k (·.cancel) }
  | .resume k => { s with callers := s.callers.modify k (·.resume s.done) }
  | .advance => { s with task := s.task.map (·.advance) }
  | .settle outcome => { s with task := s.task.map (·.settle outcome) }

def Step (steps : List σ) (s : Closing σ ε) (e : ClosingEvent ε) (t : Closing σ ε) : Prop :=
  s.Enabled e ∧ t = s.perform steps e

end Closing

/-- The steps of `DeviceAdmissionService.close`. -/
inductive ServiceStep where
  | leases | push | metrics | journal
  deriving DecidableEq

def serviceSteps (hasPush hasMetrics hasJournal : Bool) : List ServiceStep :=
  [.leases] ++ (if hasPush then [.push] else []) ++ (if hasMetrics then [.metrics] else []) ++
    if hasJournal then [.journal] else []

/-! ## The task -/

/-- The errors of steps that ended. -/
def raisedBy (history : List (σ × Ended ε Unit)) : List ε :=
  history.filterMap fun item =>
    match item.2 with
    | .raised e => some e
    | _ => none

/-- The task has invoked its steps in order, and kept what they raised. -/
structure CleanupTask.Kept (steps : List σ) (task : CleanupTask σ ε) : Prop where
  order : task.invoked ++ task.steps = steps
  errors : task.errors = raisedBy task.history
  cancelled : task.cancelled = task.history.any (·.2.isCancelled)
  ended : ∀ r, task.result = some r → task.steps = [] ∧ task.current = none ∧
    r = cleanupEnd task.errors task.cancelled

namespace CleanupTask.Kept

variable {steps : List σ} {task : CleanupTask σ ε}

theorem begun : CleanupTask.Kept steps ({ steps := steps } : CleanupTask σ ε) :=
  ⟨rfl, rfl, rfl, fun r hr => by cases hr⟩

theorem advance (h : task.Kept steps) (hcur : task.current = none) : task.advance.Kept steps := by
  have horder := h.order
  unfold CleanupTask.advance
  split
  · rename_i step rest hsteps
    refine ⟨?_, h.errors, h.cancelled, fun r hr => ?_⟩
    · rw [← horder, hsteps]
      simp [CleanupTask.invoked, hcur]
    · obtain ⟨hnil, -, -⟩ := h.ended r hr
      rw [hsteps] at hnil
      cases hnil
  · rename_i hsteps
    refine ⟨horder, h.errors, h.cancelled, fun r hr => ⟨hsteps, hcur, ?_⟩⟩
    exact (Option.some.inj hr).symm

theorem settle (h : task.Kept steps) {outcome : Ended ε Unit} : (task.settle outcome).Kept steps := by
  unfold CleanupTask.settle
  split
  · exact h
  · rename_i step hcur
    have horder := h.order
    have hinvoked : (task.history ++ [(step, outcome)]).map (·.1) ++ (none : Option σ).toList =
        task.invoked := by
      simp [CleanupTask.invoked, hcur]
    have hopen : ∀ r, task.result ≠ some r := by
      intro r hr
      rw [(h.ended r hr).2.1] at hcur
      cases hcur
    cases outcome with
    | returned u =>
      refine ⟨?_, ?_, ?_, fun r hr => absurd hr (hopen r)⟩
      · rw [← horder, ← hinvoked]
        rfl
      · simp [raisedBy, h.errors]
      · simp [h.cancelled, Ended.isCancelled]
    | raised e =>
      refine ⟨?_, ?_, ?_, fun r hr => absurd hr (hopen r)⟩
      · rw [← horder, ← hinvoked]
        rfl
      · simp [raisedBy, h.errors]
      · simp [h.cancelled, Ended.isCancelled]
    | cancelled =>
      refine ⟨?_, ?_, ?_, fun r hr => absurd hr (hopen r)⟩
      · rw [← horder, ← hinvoked]
        rfl
      · simp [raisedBy, h.errors]
      · simp [Ended.isCancelled]

end CleanupTask.Kept

/-! ## The callers -/

/-- The caller has what the task came to, or knows whether it was cancelled. -/
structure ClosingCaller.Kept (done : Option (Ended (CleanupError ε) Unit)) (caller : ClosingCaller ε) :
    Prop where
  ended : ∀ r, caller.result = some r → ∃ x, done = some x ∧ r = x.after caller.wasCancelled
  waiting : caller.result = none →
    caller.wasCancelled = (caller.waiter.cancelled || caller.waiter.requested)

namespace ClosingCaller.Kept

variable {done : Option (Ended (CleanupError ε) Unit)} {caller : ClosingCaller ε}

theorem begun : ClosingCaller.Kept done ({ result := done } : ClosingCaller ε) := by
  refine ⟨fun r hr => ⟨r, hr, ?_⟩, fun _ => rfl⟩
  rw [after_false]

theorem cancel (h : caller.Kept done) : caller.cancel.Kept done := by
  unfold ClosingCaller.cancel
  split
  · exact h
  · rename_i hnone
    refine ⟨fun r hr => ?_, fun _ => ?_⟩
    · dsimp only at hr
      rw [hr] at hnone
      exact absurd rfl hnone
    · simp [Shielded.cancel]

theorem resume (h : caller.Kept done) (hnone : caller.result = none) : (caller.resume done).Kept done := by
  have hwas := h.waiting hnone
  refine ⟨fun r hr => ?_, fun _ => ?_⟩
  · obtain ⟨x, hx, rfl⟩ := Option.map_eq_some_iff.1 hr
    refine ⟨x, hx, ?_⟩
    rw [ClosingCaller.resume, hwas]
    rfl
  · rw [ClosingCaller.resume, hwas]
    simp [Shielded.resume]

/-- The task ends while the caller waits. -/
theorem ends (h : caller.Kept none) : caller.Kept done := by
  refine ⟨fun r hr => ?_, h.waiting⟩
  obtain ⟨x, hx, -⟩ := h.ended r hr
  cases hx

end ClosingCaller.Kept

/-! ## Runs -/

namespace Closing

/-- What every event keeps. -/
structure Kept (steps : List σ) (s : Closing σ ε) : Prop where
  task : ∀ task, s.task = some task → task.Kept steps
  owned : s.callers ≠ [] → s.task.isSome
  callers : ∀ caller ∈ s.callers, caller.Kept s.done

variable {steps : List σ} {s t : Closing σ ε} {e : ClosingEvent ε}

theorem mem_modify {α : Type} {f : α → α} {xs : List α} {k : ℕ} {y : α} (h : y ∈ xs.modify k f) :
    y ∈ xs ∨ ∃ x, xs[k]? = some x ∧ y = f x := by
  obtain ⟨i, hi, rfl⟩ := List.mem_iff_getElem.1 h
  rw [List.length_modify] at hi
  rw [List.getElem_modify]
  split
  · rename_i heq
    subst heq
    exact .inr ⟨_, List.getElem?_eq_getElem hi, rfl⟩
  · exact .inl (List.getElem_mem hi)

/-- The task goes on: it has not ended before, so that its callers still wait. -/
theorem Kept.withTask (h : s.Kept steps) {task task' : CleanupTask σ ε} (htask : s.task = some task)
    (hnone : task.result = none) (hkept : task'.Kept steps) :
    Kept steps { s with task := some task' } := by
  refine ⟨fun x hx => ?_, fun _ => rfl, fun caller hcaller => ?_⟩
  · cases hx
    exact hkept
  · have hdone : s.done = none := by
      unfold done
      rw [htask, Option.bind_some, hnone]
    have hwaits := h.callers caller hcaller
    rw [hdone] at hwaits
    exact hwaits.ends

theorem kept_step (h : s.Kept steps) (hs : Step steps s e t) : t.Kept steps := by
  obtain ⟨hen, rfl⟩ := hs
  cases e with
  | call =>
    have htask : (s.task.getD { steps := steps }).Kept steps := by
      cases hx : s.task with
      | none => exact CleanupTask.Kept.begun
      | some task => exact h.task task hx
    have hdone : s.done = (s.task.getD { steps := steps }).result := by
      unfold done
      cases s.task <;> rfl
    refine ⟨fun x hx => ?_, fun _ => rfl, fun caller hcaller => ?_⟩
    · cases hx
      exact htask
    · have hsame : (perform steps s .call).done = (s.task.getD { steps := steps }).result := rfl
      rw [hsame]
      rcases List.mem_append.1 hcaller with hold | hnew
      · rw [← hdone]
        exact h.callers caller hold
      · obtain rfl := List.mem_singleton.1 hnew
        exact ClosingCaller.Kept.begun
  | cancel k =>
    refine ⟨h.task, fun hne => h.owned ?_, fun caller hcaller => ?_⟩
    · intro hnil
      exact hne (by simp [perform, hnil])
    · rcases mem_modify hcaller with hold | ⟨old, hold, rfl⟩
      · exact h.callers caller hold
      · exact (h.callers old (List.mem_of_getElem? hold)).cancel
  | resume k =>
    obtain ⟨waiting, hwaiting, hnone, -⟩ := hen
    refine ⟨h.task, fun hne => h.owned ?_, fun caller hcaller => ?_⟩
    · intro hnil
      exact hne (by simp [perform, hnil])
    · rcases mem_modify hcaller with hold | ⟨old, hold, rfl⟩
      · exact h.callers caller hold
      · obtain rfl := Option.some.inj (hwaiting.symm.trans hold)
        exact (h.callers waiting (List.mem_of_getElem? hold)).resume hnone
  | advance =>
    obtain ⟨task, htask, hcur, hnone⟩ := hen
    have hperform : perform steps s (.advance : ClosingEvent ε) = { s with task := some task.advance } := by
      rw [perform, htask, Option.map_some]
    rw [hperform]
    exact h.withTask htask hnone ((h.task task htask).advance hcur)
  | settle outcome =>
    obtain ⟨task, htask, hcur⟩ := hen
    have hperform : perform steps s (.settle outcome) = { s with task := some (task.settle outcome) } := by
      rw [perform, htask, Option.map_some]
    have hnone : task.result = none := by
      cases hr : task.result with
      | none => rfl
      | some r =>
        rw [((h.task task htask).ended r hr).2.1] at hcur
        cases hcur
    rw [hperform]
    exact h.withTask htask hnone (h.task task htask).settle

theorem kept_start : ({} : Closing σ ε).Kept steps where
  task := by
    intro task htask
    cases htask
  owned := by simp
  callers := by simp

theorem kept_run {events : List (ClosingEvent ε)} (h : Run (Step steps) {} events s) : s.Kept steps :=
  Run.invariant (I := Kept steps) (fun _ _ _ hs => kept_step hs) h kept_start

/-! ## The end -/

/-- An event of the task. -/
def ofTask : ClosingEvent ε → Bool
  | .advance | .settle _ => true
  | _ => false

/-- How many events the task has left. -/
def left (steps : List σ) (s : Closing σ ε) : ℕ :=
  match s.task with
  | none => 2 * steps.length + 1
  | some task =>
    2 * task.steps.length + (if task.current.isSome then 1 else 0) + if task.result.isSome then 0 else 1

theorem left_step (h : s.Kept steps) (hs : Step steps s e t) :
    left steps t + (if ofTask e then 1 else 0) = left steps s := by
  obtain ⟨hen, rfl⟩ := hs
  cases e with
  | call =>
    cases hx : s.task with
    | none => simp [left, perform, ofTask, hx]
    | some task => simp [left, perform, ofTask, hx]
  | cancel k => simp [left, perform, ofTask]
  | resume k => simp [left, perform, ofTask]
  | advance =>
    obtain ⟨task, htask, hcur, hnone⟩ := hen
    simp only [left, perform, ofTask, htask, Option.map_some, CleanupTask.advance]
    cases hsteps : task.steps with
    | nil => simp [hcur, hnone]
    | cons step rest =>
      simp [hcur, hnone]
      omega
  | settle outcome =>
    obtain ⟨task, htask, hcur⟩ := hen
    obtain ⟨step, hstep⟩ := Option.isSome_iff_exists.1 hcur
    have hnone : task.result = none := by
      cases hr : task.result with
      | none => rfl
      | some r =>
        rw [((h.task task htask).ended r hr).2.1] at hcur
        cases hcur
    simp only [left, perform, ofTask, htask, Option.map_some, CleanupTask.settle, hstep]
    cases outcome <;> simp [hnone]

/-- **The task is done after so many of its events.** -/
theorem left_run {events : List (ClosingEvent ε)} (h : Run (Step steps) s events t) (hs : s.Kept steps) :
    left steps t + events.countP ofTask = left steps s := by
  induction h with
  | nil => rfl
  | cons hst _ ih =>
    have hstep := left_step hs hst
    have hrest := ih (kept_step hs hst)
    rw [List.countP_cons]
    omega

/-- Nothing is left to do but to call or to cancel. -/
def Idle (s : Closing σ ε) : Prop :=
  ¬ s.Enabled .advance ∧ (∀ outcome, ¬ s.Enabled (.settle outcome)) ∧ ∀ k, ¬ s.Enabled (.resume k)

/-- What holds of a shutdown at every moment. -/
structure Settles (steps : List σ) (s : Closing σ ε) : Prop where
  /-- the steps are invoked in order, each once at most -/
  order : ∀ task, s.task = some task → task.invoked <+: steps
  /-- nobody leaves before every step was invoked and has ended -/
  last : ∀ caller ∈ s.callers, caller.result.isSome →
    ∃ task, s.task = some task ∧ task.history.map (·.1) = steps ∧ task.current = none
  /-- what a caller gets: the errors, before its own cancellation -/
  result : ∀ caller ∈ s.callers, ∀ r, caller.result = some r → ∀ task, s.task = some task →
    (∀ e, raisedBy task.history = [e] → r = .raised (.single e)) ∧
    (2 ≤ (raisedBy task.history).length → r = .raised (.group (raisedBy task.history))) ∧
    (raisedBy task.history = [] → caller.wasCancelled = true → r = .cancelled)
  /-- when nothing is left to do, everybody has left -/
  idle : s.Idle → ∀ caller ∈ s.callers, caller.result.isSome

theorem Kept.settles (h : s.Kept steps) : s.Settles steps where
  order task htask := ⟨task.steps, (h.task task htask).order⟩
  last caller hcaller hsome := by
    obtain ⟨r, hr⟩ := Option.isSome_iff_exists.1 hsome
    obtain ⟨x, hx, -⟩ := (h.callers caller hcaller).ended r hr
    obtain ⟨task, htask, hresult⟩ := Option.bind_eq_some_iff.1 hx
    have hkept := h.task task htask
    obtain ⟨hnil, hcur, -⟩ := hkept.ended x hresult
    have horder := hkept.order
    rw [CleanupTask.invoked, hcur, hnil] at horder
    exact ⟨task, htask, by simpa using horder, hcur⟩
  result caller hcaller r hr task htask := by
    obtain ⟨x, hx, rfl⟩ := (h.callers caller hcaller).ended r hr
    have hresult : task.result = some x := by
      rw [done, htask] at hx
      exact hx
    have hkept := h.task task htask
    obtain ⟨-, -, rfl⟩ := hkept.ended x hresult
    rw [hkept.errors]
    refine ⟨fun e he => ?_, fun hmany => ?_, fun hnone hcancelled => ?_⟩
    · rw [he]
      rfl
    · match herrors : raisedBy task.history with
      | [] =>
        rw [herrors] at hmany
        cases hmany
      | [e] =>
        rw [herrors, List.length_singleton] at hmany
        omega
      | e :: e' :: es => rfl
    · rw [hnone, hcancelled]
      cases hc : task.cancelled <;> rfl
  idle hidle caller hcaller := by
    obtain ⟨hadvance, hsettle, hresume⟩ := hidle
    obtain ⟨task, htask⟩ := Option.isSome_iff_exists.1 (h.owned (List.ne_nil_of_mem hcaller))
    by_contra hnone
    have hwaits : caller.result = none := by simpa using hnone
    have hdone : task.result.isSome := by
      by_contra hopen
      have hopen : task.result = none := by simpa using hopen
      cases hcur : task.current with
      | none => exact hadvance ⟨task, htask, hcur, hopen⟩
      | some step => exact hsettle .cancelled ⟨task, htask, by rw [hcur]; rfl⟩
    obtain ⟨k, hk⟩ := List.mem_iff_getElem?.1 hcaller
    refine hresume k ⟨caller, hk, hwaits, .inr ?_⟩
    rw [done, htask]
    exact hdone

end Closing

/-- **Shutdown settles**: in every run of `close` over any steps, which end as they
    may, with any callers, cancelled as often and whenever: the steps are invoked
    in order and once each, no caller leaves before all have ended, the errors go
    to every caller before its cancellation, and the cancellation of a caller is
    not lost; and the task is done after so many events. -/
theorem close_settles (steps : List σ) {s : Closing σ ε} {events : List (ClosingEvent ε)}
    (h : Run (Closing.Step steps) {} events s) :
    s.Settles steps ∧ events.countP Closing.ofTask ≤ 2 * steps.length + 1 := by
  refine ⟨(Closing.kept_run h).settles, ?_⟩
  have hleft := Closing.left_run h Closing.kept_start
  have hstart : Closing.left steps ({} : Closing σ ε) = 2 * steps.length + 1 := rfl
  omega

/-- A caller that is cancelled while the leases fail to close. -/
def failingShutdown : List (ClosingEvent ℕ) :=
  [.call, .advance, .cancel 0, .settle (.raised 7), .advance, .settle (.returned ()), .advance, .resume 0]

theorem failingShutdown_run : ∃ s : Closing ServiceStep ℕ,
    Run (Closing.Step (serviceSteps false true false)) {} failingShutdown s ∧
      s.callers.map (·.result) = [some (.raised (.single 7))] ∧ s.callers.map (·.wasCancelled) = [true] := by
  refine ⟨failingShutdown.foldl (Closing.perform (serviceSteps false true false)) {}, ?_, rfl, rfl⟩
  refine .cons ⟨trivial, rfl⟩ ?_
  refine .cons ⟨⟨_, rfl, rfl, rfl⟩, rfl⟩ ?_
  refine .cons ⟨Nat.zero_lt_one, rfl⟩ ?_
  refine .cons ⟨⟨_, rfl, rfl⟩, rfl⟩ ?_
  refine .cons ⟨⟨_, rfl, rfl, rfl⟩, rfl⟩ ?_
  refine .cons ⟨⟨_, rfl, rfl⟩, rfl⟩ ?_
  refine .cons ⟨⟨_, rfl, rfl, rfl⟩, rfl⟩ ?_
  exact .cons ⟨⟨_, rfl, rfl, .inl rfl⟩, rfl⟩ .nil

theorem close_settles_failing : ∃ s : Closing ServiceStep ℕ,
    s.callers.map (·.result) = [some (.raised (.single 7))] ∧ s.callers.map (·.wasCancelled) = [true] ∧
      s.Settles (serviceSteps false true false) := by
  obtain ⟨s, hrun, hresult, hcancelled⟩ := failingShutdown_run
  exact ⟨s, hresult, hcancelled, (close_settles _ hrun).1⟩

end MercuryRelay
