/-
  Release, taken apart (session_lease.py, `release`, `_finish_release`).

  Whoever calls `release` first fences the lease and makes the task that cleans up;
  everyone waits for that task, whatever cancellations there are.

  * `step_stage`: what a step can do to the release;
  * `step_tasked`, `step_rostered`: what it can do to the tasks, and to the rosters of
    them;
  * `released_once`: the controller is closed once, after the tasks of the lease,
    and every caller learns how that went;
  * `refines_run`: for the lease, it is a release, and then its end.
-/
import MercuryRelay.Lease.Lifecycle
import MercuryRelay.Lease.Step

set_option autoImplicit false

namespace MercuryRelay

open Shield Transition

/-- How far the release of a lease is. -/
structure Stage where
  released : Bool
  releaseReason : Option String
  releaseTask : Option ReleaseTask
  releaseSucceeded : Bool
  hasOnRelease : Bool

/-- The event is a part of the cleanup. -/
def LifecycleEvent.CleansUp : LifecycleEvent → Prop
  | .cleansUp | .joins | .websocketCloses | .controllerCloses _ => True
  | _ => False

/-- `close_controller` was called. -/
def ReleasePhase.isClosing : ReleasePhase → Bool
  | .closingController | .ended _ => true
  | _ => false

namespace Lifecycle

def stage (s : Lifecycle) : Stage :=
  ⟨s.released, s.releaseReason, s.releaseTask, s.releaseSucceeded, s.hasOnRelease⟩

section Stage

variable {s : Lifecycle} {a t current : ℕ}

@[simp] theorem modifyTask_stage (f : OwnedTask → OwnedTask) : (s.modifyTask t f).stage = s.stage := rfl

@[simp] theorem create_stage (kind : TaskKind) (state : TaskState) :
    (s.create kind state).stage = s.stage := rfl

@[simp] theorem cancelExpiry_stage : s.cancelExpiry.stage = s.stage := by
  unfold cancelExpiry
  split <;> rfl

@[simp] theorem scheduleExpiry_stage : s.scheduleExpiry.stage = s.stage := by
  unfold scheduleExpiry
  dsimp only
  split
  · exact cancelExpiry_stage
  · exact cancelExpiry_stage

@[simp] theorem start_stage : s.start.stage = s.stage := by
  unfold start
  split
  · rfl
  · exact scheduleExpiry_stage

@[simp] theorem markDetached_stage : (s.markDetached a current).stage = s.stage := rfl

@[simp] theorem detach_stage : (s.detach a current).stage = s.stage := by
  unfold detach
  rw [markDetached_stage]
  split
  · exact scheduleExpiry_stage
  · rfl

theorem attach_stage {replace : Bool} {s' : Lifecycle} (h : s.attach current replace = some s') :
    s'.stage = s.stage := by
  unfold attach at h
  split at h
  · cases h
  · split at h
    · split at h
      · cases h
        exact cancelExpiry_stage
      · cases h
    · cases h
      exact cancelExpiry_stage

theorem registerOutbound_stage {s' : Lifecycle} (h : s.registerOutbound t a = some s') :
    s'.stage = s.stage := by
  unfold registerOutbound at h
  split at h
  · cases h
  · cases h
    rfl

theorem startLocal_stage {kind : TaskKind} {s' : Lifecycle} (h : s.startLocal kind = some s') :
    s'.stage = s.stage := by
  unfold startLocal at h
  split at h
  · cases h
  · cases h
    rfl

theorem fence_stage {reason : String} : (s.fence t reason).stage =
    ⟨true, some reason, some { initiator := t }, s.releaseSucceeded, s.hasOnRelease⟩ := by
  unfold fence
  dsimp only
  split <;> rfl

/-- What a call of `release` does: it fences the lease, waits, or ends. -/
theorem release_cases {reason : String} {s' : Lifecycle} {result : Option Released}
    (h : s.release t reason = (s', result)) :
    (s.releaseTask = none ∧ result = none ∧
      s' = (s.fence t reason).modifyTask t (·.await true)) ∨
    (s.releaseTask.isSome ∧ s.cleanup = none ∧ result = none ∧ s' = s.modifyTask t (·.await false)) ∨
    ∃ x, s.cleanup = some x ∧ result = some (x.map fun _ => false) ∧
      s' = s.modifyTask t (·.leave (x.map fun _ => false)) := by
  unfold release at h
  split at h
  · rename_i hnone
    cases h
    exact .inl ⟨by simpa using hnone, rfl, rfl⟩
  · rename_i hsome
    split at h
    · rename_i hc
      cases h
      exact .inr (.inl ⟨by simpa [Option.isSome_iff_ne_none] using hsome, hc, rfl, rfl⟩)
    · rename_i x hc
      cases h
      exact .inr (.inr ⟨x, hc, rfl, rfl⟩)

/-- What a caller does that resumes: it waits on, or its call ends. -/
theorem resume_cases {first : Bool} {waiter : Shielded} {s' : Lifecycle} {result : Option Released}
    (h : s.resume t first waiter = (s', result)) :
    (s.cleanup = none ∧ result = none ∧
      s' = s.modifyTask t fun task => { task with state := .releasing first waiter.resume }) ∨
    ∃ x, s.cleanup = some x ∧
      result = some ((x.map fun _ => first).after waiter.resume.cancelled) ∧
      s' = s.modifyTask t (·.leave ((x.map fun _ => first).after waiter.resume.cancelled)) := by
  unfold resume Shielded.result at h
  cases hc : s.cleanup with
  | none =>
    rw [hc] at h
    cases h
    exact .inl ⟨rfl, rfl, rfl⟩
  | some x =>
    rw [hc] at h
    cases h
    exact .inr ⟨x, rfl, rfl, rfl⟩

end Stage

/-! ## Steps of the release -/

/-- What a step can do to the release of a lease. -/
inductive Staged (s : Lifecycle) : LifecycleLabel → Lifecycle → Prop
  | kept {e out s'} : ¬ e.CleansUp → out ≠ .onRelease → s'.stage = s.stage → Staged s (e, out) s'
  | fenced {e t reason s'} : ¬ e.CleansUp → s.releaseTask = none →
      s'.stage = ⟨true, some reason, some { initiator := t }, s.releaseSucceeded, s.hasOnRelease⟩ →
      Staged s (e, .done) s'
  | begun {t} : s.releaseTask = some ⟨t, .created⟩ →
      Staged s (.cleansUp, .done) (s.beginCleanup t)
  | joined {ts} : s.phase = some (.joining ts) → (∀ t ∈ ts, s.isDone t) →
      Staged s (.joins, .done) s.joined
  | closing : s.phase = some .closingWebsocket →
      Staged s (.websocketCloses, .done) (s.setPhase .closingController)
  | ended {result out} : s.phase = some .closingController →
      (out = .onRelease ↔ result = .returned () ∧ s.hasOnRelease) →
      Staged s (.controllerCloses result, out) (s.endCleanup result)

theorem staged_attempt {s s' : Lifecycle} {e : LifecycleEvent} {out : LifecycleOutput}
    {r : Option Lifecycle} (he : ¬ e.CleansUp) (hx : s.attempt r = (s', out))
    (h : ∀ s', r = some s' → s'.stage = s.stage) : Staged s (e, out) s' := by
  cases r with
  | none =>
    cases hx
    exact .kept he (by simp) rfl
  | some s'' =>
    cases hx
    exact .kept he (by simp) (h _ rfl)

theorem staged_release {s s' : Lifecycle} {e : LifecycleEvent} {out : LifecycleOutput} {t : ℕ}
    {reason : String} (he : ¬ e.CleansUp) (hx : answer (s.release t reason) = (s', out)) :
    Staged s (e, out) s' := by
  rcases hr : s.release t reason with ⟨s'', result⟩
  rw [hr] at hx
  rcases release_cases hr with ⟨hnone, rfl, rfl⟩ | ⟨-, -, rfl, rfl⟩ | ⟨x, -, rfl, rfl⟩
  · cases hx
    exact .fenced he hnone fence_stage
  · cases hx
    exact .kept he (by simp) rfl
  · cases hx
    exact .kept he (by simp) rfl

theorem staged_releaseUnless {s s' : Lifecycle} {e : LifecycleEvent} {out : LifecycleOutput} {t : ℕ}
    {reason : String} (he : ¬ e.CleansUp) (hx : s.releaseUnless t reason = (s', out)) :
    Staged s (e, out) s' := by
  unfold releaseUnless at hx
  split at hx
  · cases hx
    exact .kept he (by simp) rfl
  · exact staged_release he hx

/-- **What a step can do to the release of a lease.** -/
theorem step_stage {s s' : Lifecycle} {label : LifecycleLabel} (h : Step s label s') :
    Staged s label s' := by
  obtain ⟨e, out⟩ := label
  obtain ⟨hen, hx⟩ := h
  cases e with
  | starts => cases hx; exact .kept id (by simp) start_stage
  | begins => cases hx; exact .kept id (by simp) rfl
  | schedules reason => cases hx; exact .kept id (by simp) rfl
  | attaches current replace => exact staged_attempt id hx fun _ h => attach_stage h
  | detaches a current => cases hx; exact .kept id (by simp) detach_stage
  | reads => exact staged_attempt id hx fun _ h => startLocal_stage h
  | mutates => exact staged_attempt id hx fun _ h => startLocal_stage h
  | registersOutbound t a => exact staged_attempt id hx fun _ h => registerOutbound_stage h
  | unregistersOutbound t a => cases hx; exact .kept id (by simp) rfl
  | ends t => cases hx; exact .kept id (by simp) rfl
  | discards t => cases hx; exact .kept id (by simp) rfl
  | cancels t => cases hx; exact .kept id (by simp) rfl
  | pumpStops reason =>
    simp only [perform] at hx
    split at hx
    · cases hx
      exact .kept id (by simp) rfl
    · exact staged_releaseUnless id hx
  | overflows => cases hx; exact .kept id (by simp) rfl
  | expires t => exact staged_releaseUnless id hx
  | runs t =>
    simp only [perform] at hx
    split at hx
    · exact staged_release id hx
    · cases hx
      exact .kept id (by simp) rfl
  | calls t reason => exact staged_release id hx
  | cleansUp =>
    obtain ⟨r, hr, hphase⟩ := Option.map_eq_some_iff.1 hen
    obtain ⟨initiator, phase⟩ := r
    subst hphase
    simp only [perform, hr] at hx
    cases hx
    exact .begun hr
  | joins =>
    cases hx
    obtain ⟨ts, hts, hdone⟩ := (Option.any_eq_true _ _).1 hen
    refine .joined ?_ (by simpa using hdone)
    unfold pending at hts
    split at hts
    · rename_i hp
      cases hts
      exact hp
    · cases hts
  | websocketCloses => cases hx; exact .closing hen
  | controllerCloses result =>
    simp only [perform, Prod.mk.injEq] at hx
    obtain ⟨rfl, rfl⟩ := hx
    refine .ended hen ?_
    split
    · rename_i h
      exact iff_of_true rfl h
    · rename_i h
      exact iff_of_false (by simp) h
  | resumes t =>
    simp only [perform] at hx
    split at hx
    · rename_i kind first waiter cancelling htask
      rcases hr : s.resume t first waiter with ⟨s'', result⟩
      rw [hr] at hx
      rcases resume_cases hr with ⟨-, rfl, rfl⟩ | ⟨x, -, rfl, rfl⟩
      · cases hx
        exact .kept id (by simp) rfl
      · cases hx
        exact .kept id (by simp) rfl
    · cases hx
      exact .kept id (by simp) rfl

/-! ## How often -/

/-- How often `close_controller` is called in a trace. -/
def closings (trace : List LifecycleLabel) : ℕ := trace.countP fun label => label.1 = .websocketCloses

/-- How often `on_release` is called in a trace. -/
def notices (trace : List LifecycleLabel) : ℕ := trace.countP fun label => label.2 = .onRelease

section Counts

variable {s s' : Lifecycle} {label : LifecycleLabel} {trace : List LifecycleLabel}

/-- A trace and its end agree on the release. -/
structure Agrees (trace : List LifecycleLabel) (s : Lifecycle) : Prop where
  closed : closings trace = (s.phase.any ReleasePhase.isClosing).toNat
  told : notices trace = (s.hasOnRelease && s.phase = some (.ended (.returned ()))).toNat
  released : s.released = s.releaseTask.isSome
  succeeded : s.releaseSucceeded = true ↔ s.phase = some (.ended (.returned ()))

theorem phase_of_stage (h : s'.stage = s.stage) : s'.phase = s.phase :=
  congrArg (fun x : Stage => x.releaseTask.map ReleaseTask.phase) h

theorem setPhase_phase {phase p : ReleasePhase} (h : s.phase = some p) :
    (s.setPhase phase).phase = some phase := by
  obtain ⟨r, hr, -⟩ := Option.map_eq_some_iff.1 h
  simp [Lifecycle.phase, setPhase, hr]

theorem joined_phase {p : ReleasePhase} (h : s.phase = some p) :
    s.joined.phase = some .closingWebsocket := setPhase_phase (s := { s with readTasks := [], outboundTasks := [] }) h

theorem beginCleanup_phase {t : ℕ} {p : ReleasePhase} (h : s.phase = some p) :
    (s.beginCleanup t).phase =
      some (if s.owned t = [] then .closingWebsocket else .joining (s.owned t)) := by
  unfold beginCleanup
  dsimp only
  by_cases hp : s.owned t = []
  · rw [if_pos (by simp [hp]), if_pos hp]
    exact joined_phase (s := { s with expiryTask := none, tasks := interrupt s.tasks (s.owned t) }) h
  · rw [if_neg (by simp [hp]), if_neg hp]
    exact setPhase_phase (s := { s with expiryTask := none, tasks := interrupt s.tasks (s.owned t) }) h

theorem endCleanup_phase {result : Ended Unit Unit} {p : ReleasePhase} (h : s.phase = some p) :
    (s.endCleanup result).phase = some (.ended (match result with
      | .returned _ => .returned ()
      | .raised _ => .raised (.session "controller_release_failed")
      | .cancelled => .cancelled)) := by
  unfold endCleanup
  split
  · exact setPhase_phase (s := { s with releaseSucceeded := true }) h
  · exact setPhase_phase h
  · exact setPhase_phase h

theorem closings_snoc {e : LifecycleEvent} {out : LifecycleOutput} :
    closings (trace ++ [(e, out)]) = closings trace + (decide (e = .websocketCloses)).toNat := by
  by_cases he : e = .websocketCloses
  · simp [closings, List.countP_append, he]
  · simp [closings, List.countP_append, he]

theorem notices_snoc {e : LifecycleEvent} {out : LifecycleOutput} :
    notices (trace ++ [(e, out)]) = notices trace + (decide (out = .onRelease)).toNat := by
  by_cases ho : out = .onRelease
  · simp [notices, List.countP_append, ho]
  · simp [notices, List.countP_append, ho]

/-- What the parts of the cleanup leave alone. -/
theorem setPhase_keeps (phase : ReleasePhase) :
    (s.setPhase phase).released = s.released ∧ (s.setPhase phase).hasOnRelease = s.hasOnRelease ∧
      (s.setPhase phase).releaseSucceeded = s.releaseSucceeded ∧
      (s.setPhase phase).releaseTask.isSome = s.releaseTask.isSome := by
  simp [setPhase]

theorem beginCleanup_keeps (t : ℕ) :
    (s.beginCleanup t).released = s.released ∧ (s.beginCleanup t).hasOnRelease = s.hasOnRelease ∧
      (s.beginCleanup t).releaseSucceeded = s.releaseSucceeded ∧
      (s.beginCleanup t).releaseTask.isSome = s.releaseTask.isSome := by
  unfold beginCleanup joined
  dsimp only
  split
  · exact setPhase_keeps _
  · exact setPhase_keeps _

/-- A part of the cleanup that neither calls the controller nor ends. -/
theorem Agrees.part (h : Agrees trace s) {e : LifecycleEvent} {p p' : ReleasePhase}
    (he : e ≠ .websocketCloses) (hp : s.phase = some p) (hp' : s'.phase = some p')
    (hopen : p.isClosing = false) (hopen' : p'.isClosing = false)
    (hkeeps : s'.released = s.released ∧ s'.hasOnRelease = s.hasOnRelease ∧
      s'.releaseSucceeded = s.releaseSucceeded ∧ s'.releaseTask.isSome = s.releaseTask.isSome) :
    Agrees (trace ++ [(e, .done)]) s' := by
  obtain ⟨h1, h2, h3, h4⟩ := hkeeps
  have hend : p ≠ .ended (.returned ()) := by
    rintro rfl
    cases hopen
  have hend' : p' ≠ .ended (.returned ()) := by
    rintro rfl
    cases hopen'
  refine ⟨?_, ?_, ?_, ?_⟩
  · rw [closings_snoc, h.closed, hp, hp']
    simp [hopen, hopen', he]
  · rw [notices_snoc, h.told, hp, hp']
    simp [hend, hend']
  · rw [h1, h4, h.released]
  · rw [h3, h.succeeded, hp, hp']
    simp [hend, hend']

theorem Agrees.step (h : Agrees trace s) (hs : Step s label s') : Agrees (trace ++ [label]) s' := by
  cases step_stage hs with
  | @kept e out s' he hout hst =>
    have hclose : e ≠ .websocketCloses := by
      rintro rfl
      exact he trivial
    have hphase := phase_of_stage hst
    have hhook : s'.hasOnRelease = s.hasOnRelease := congrArg Stage.hasOnRelease hst
    refine ⟨?_, ?_, ?_, ?_⟩
    · rw [closings_snoc, h.closed, hphase]
      simp [hclose]
    · rw [notices_snoc, h.told, hphase, hhook]
      simp [hout]
    · rw [show s'.released = s.released from congrArg Stage.released hst,
        show s'.releaseTask = s.releaseTask from congrArg Stage.releaseTask hst, h.released]
    · rw [show s'.releaseSucceeded = s.releaseSucceeded from congrArg Stage.releaseSucceeded hst,
        h.succeeded, hphase]
  | @fenced e t reason s' he hnone hst =>
    have hclose : e ≠ .websocketCloses := by
      rintro rfl
      exact he trivial
    have hphase : s.phase = none := by simp [Lifecycle.phase, hnone]
    have hphase' : s'.phase = some .created :=
      congrArg (fun x : Stage => x.releaseTask.map ReleaseTask.phase) hst
    refine ⟨?_, ?_, ?_, ?_⟩
    · rw [closings_snoc, h.closed, hphase, hphase']
      simp [hclose, ReleasePhase.isClosing]
    · rw [notices_snoc, h.told, hphase, hphase']
      simp
    · rw [show s'.released = true from congrArg Stage.released hst,
        show s'.releaseTask = some { initiator := t } from congrArg Stage.releaseTask hst]
      rfl
    · rw [show s'.releaseSucceeded = s.releaseSucceeded from congrArg Stage.releaseSucceeded hst,
        h.succeeded, hphase, hphase']
      simp
  | @begun t hr =>
    have hphase : s.phase = some .created := by simp [Lifecycle.phase, hr]
    refine h.part (by simp) hphase (beginCleanup_phase hphase) rfl ?_ (beginCleanup_keeps t)
    split <;> rfl
  | joined hphase _ =>
    refine h.part (by simp) hphase (joined_phase hphase) rfl rfl ?_
    exact setPhase_keeps (s := { s with readTasks := [], outboundTasks := [] }) _
  | closing hphase =>
    obtain ⟨h1, h2, h3, h4⟩ := setPhase_keeps (s := s) .closingController
    refine ⟨?_, ?_, ?_, ?_⟩
    · rw [closings_snoc, h.closed, hphase, setPhase_phase hphase]
      simp [ReleasePhase.isClosing]
    · rw [notices_snoc, h.told, hphase, setPhase_phase hphase]
      simp
    · rw [h1, h4, h.released]
    · rw [h3, h.succeeded, hphase, setPhase_phase hphase]
      simp
  | @ended result out hphase hout =>
    have hphase' := @endCleanup_phase _ result _ hphase
    have hfields : (s.endCleanup result).released = s.released ∧
        (s.endCleanup result).hasOnRelease = s.hasOnRelease ∧
        (s.endCleanup result).releaseTask.isSome = s.releaseTask.isSome := by
      cases result <;> simp [endCleanup, setPhase]
    obtain ⟨h1, h2, h3⟩ := hfields
    refine ⟨?_, ?_, ?_, ?_⟩
    · rw [closings_snoc, h.closed, hphase, hphase']
      simp [ReleasePhase.isClosing]
    · rw [notices_snoc, h.told, hphase, hphase', h2]
      cases result <;> simp [hout]
    · rw [h1, h3, h.released]
    · have hopen := h.succeeded
      rw [hphase] at hopen
      rw [hphase']
      cases result
      · simp [endCleanup, setPhase]
      · simpa [endCleanup, setPhase] using hopen
      · simpa [endCleanup, setPhase] using hopen

theorem Fresh.agrees (h : s.Fresh) : Agrees [] s := by
  have hphase : s.phase = none := by simp [Lifecycle.phase, h.releaseTask]
  exact ⟨by rw [hphase]; rfl, by rw [hphase]; simp [notices], by simp [h.released, h.releaseTask],
    by simp [h.releaseSucceeded, hphase]⟩

theorem agrees_run {s₀ : Lifecycle} (h : s₀.Fresh) (hrun : Run s₀ trace s) : Agrees trace s :=
  hrun.history h.agrees fun _ _ _ _ _ ha hs => ha.step hs

end Counts

/-! ## Steps of a task -/

end Lifecycle

/-- A task that goes on as before, but for requests to cancel it. -/
structure OwnedTask.Alike (task task' : OwnedTask) : Prop where
  kind : task'.kind = task.kind
  cancelling : task.cancelling = true → task'.cancelling = true
  state : task'.state = task.state ∨
    ∃ first waiter waiter', task.state = .releasing first waiter ∧ task'.state = .releasing first waiter'

/-- A task that was just created. -/
def OwnedTask.IsNew (task : OwnedTask) : Prop :=
  task.state = .running ∨ task.state = .created ∧ ∃ reason, task.kind = .release reason

/-- A task that has not ended and does not wait. -/
def OwnedTask.IsActive (task : OwnedTask) : Prop := task.state = .running ∨ task.state = .created

namespace OwnedTask

variable {task task' task'' : OwnedTask}

theorem Alike.refl (task : OwnedTask) : task.Alike task := ⟨rfl, id, .inl rfl⟩

theorem Alike.trans (h : task.Alike task') (h' : task'.Alike task'') : task.Alike task'' := by
  refine ⟨h'.kind.trans h.kind, h'.cancelling ∘ h.cancelling, ?_⟩
  rcases h.state with h1 | ⟨first, w, w', h1, h2⟩
  · rw [← h1]
    exact h'.state
  · rcases h'.state with h3 | ⟨first', v, v', h3, h4⟩
    · exact .inr ⟨first, w, w', h1, h3.trans h2⟩
    · rw [h2] at h3
      cases h3
      exact .inr ⟨first, w, v', h1, h4⟩

theorem cancel_alike (task : OwnedTask) : task.Alike task.cancel := by
  unfold cancel
  split
  · exact .refl _
  · rename_i first waiter h
    exact ⟨rfl, fun _ => rfl, .inr ⟨first, waiter, _, h, rfl⟩⟩
  · exact ⟨rfl, fun _ => rfl, .inl rfl⟩

theorem Alike.isNew (h : task.Alike task') (hnew : task.IsNew) : task'.IsNew := by
  rcases h.state with h1 | ⟨first, w, w', h1, h2⟩
  · unfold IsNew
    rw [h1, h.kind]
    exact hnew
  · rcases hnew with h3 | ⟨h3, -⟩
    · rw [h1] at h3
      cases h3
    · rw [h1] at h3
      cases h3

theorem Alike.isDone (h : task.Alike task') : task'.isDone = task.isDone := by
  unfold OwnedTask.isDone
  rcases h.state with h1 | ⟨first, w, w', h1, h2⟩
  · rw [h1]
  · rw [h1, h2]

theorem IsActive.isDone (h : task.IsActive) : task.isDone = false := by
  unfold OwnedTask.isDone
  rcases h with h | h
  · rw [h]
  · rw [h]

end OwnedTask

namespace Lifecycle

/-- The tasks go on as before, but for requests to cancel them; others may begin. -/
def Quiet (s s' : Lifecycle) : Prop :=
  s.tasks.length ≤ s'.tasks.length ∧ ∀ (t : ℕ) (task' : OwnedTask), s'.tasks[t]? = some task' →
    (∃ task : OwnedTask, s.tasks[t]? = some task ∧ task.Alike task') ∨ s.tasks[t]? = none ∧ task'.IsNew

section Quiet

variable {s s' s'' : Lifecycle} {a t current : ℕ}

theorem Quiet.of_tasks (h : s'.tasks = s.tasks) : Quiet s s' :=
  ⟨by rw [h], fun t task' ht => .inl ⟨task', by rw [← h]; exact ht, .refl _⟩⟩

theorem Quiet.trans (h : Quiet s s') (h' : Quiet s' s'') : Quiet s s'' := by
  refine ⟨h.1.trans h'.1, fun t task'' ht => ?_⟩
  rcases h'.2 t task'' ht with ⟨task', ht', ha'⟩ | ⟨hnone, hnew⟩
  · rcases h.2 t task' ht' with ⟨task, ht, ha⟩ | ⟨hnone, hnew⟩
    · exact .inl ⟨task, ht, ha.trans ha'⟩
    · exact .inr ⟨hnone, ha'.isNew hnew⟩
  · have hlen := List.getElem?_eq_none_iff.1 hnone
    exact .inr ⟨List.getElem?_eq_none_iff.2 (h.1.trans hlen), hnew⟩

theorem modifyTask_getElem {f : OwnedTask → OwnedTask} (u : ℕ) : (s.modifyTask t f).tasks[u]? =
    (s.tasks[u]?).map fun task => if t = u then f task else task := List.getElem?_modify _ _ _ _

theorem modify_quiet {f : OwnedTask → OwnedTask} (hf : ∀ task : OwnedTask, task.Alike (f task)) :
    Quiet s (s.modifyTask t f) := by
  refine ⟨by simp [modifyTask], fun u task' hu => .inl ?_⟩
  rw [modifyTask_getElem, Option.map_eq_some_iff] at hu
  obtain ⟨task, htask, rfl⟩ := hu
  refine ⟨task, htask, ?_⟩
  split
  · exact hf task
  · exact .refl task

theorem create_quiet {kind : TaskKind} {state : TaskState}
    (hnew : OwnedTask.IsNew { kind := kind, state := state }) : Quiet s (s.create kind state) := by
  refine ⟨by simp [create], fun u task' hu => ?_⟩
  rcases Nat.lt_trichotomy u s.tasks.length with hlt | rfl | hgt
  · rw [create, List.getElem?_append_left hlt] at hu
    exact .inl ⟨task', hu, .refl _⟩
  · simp only [create, List.getElem?_concat_length, Option.some.injEq] at hu
    subst hu
    exact .inr ⟨List.getElem?_eq_none_iff.2 le_rfl, hnew⟩
  · rw [List.getElem?_eq_none_iff.2 (by simp [create]; omega)] at hu
    cases hu

theorem interrupt_quiet {ts : List ℕ} (h : s'.tasks = interrupt s.tasks ts) : Quiet s s' := by
  refine ⟨by simp [h, interrupt], fun u task' hu => .inl ?_⟩
  rw [h, interrupt, List.getElem?_mapIdx, Option.map_eq_some_iff] at hu
  obtain ⟨task, htask, rfl⟩ := hu
  refine ⟨task, htask, ?_⟩
  split
  · exact task.cancel_alike
  · exact .refl task

theorem cancelExpiry_quiet : Quiet s s.cancelExpiry := by
  unfold cancelExpiry
  split
  · exact .of_tasks rfl
  · exact (modify_quiet OwnedTask.cancel_alike).trans (.of_tasks rfl)

theorem scheduleExpiry_quiet : Quiet s s.scheduleExpiry := by
  unfold scheduleExpiry
  dsimp only
  split
  · exact cancelExpiry_quiet
  · exact (cancelExpiry_quiet.trans (create_quiet (.inl rfl))).trans (.of_tasks rfl)

theorem start_quiet : Quiet s s.start := by
  unfold start
  split
  · exact .of_tasks rfl
  · have h : Quiet s { s.create .pump .running with pumpTask := some s.next } :=
      (create_quiet (.inl rfl)).trans (.of_tasks rfl)
    exact h.trans scheduleExpiry_quiet

theorem markDetached_quiet : Quiet s (s.markDetached a current) := interrupt_quiet rfl

theorem detach_quiet : Quiet s (s.detach a current) := by
  unfold detach
  refine Quiet.trans ?_ markDetached_quiet
  split
  · have h : Quiet s { s with attachment := none } := .of_tasks rfl
    exact h.trans scheduleExpiry_quiet
  · exact .of_tasks rfl

theorem attach_quiet {replace : Bool} (h : s.attach current replace = some s') : Quiet s s' := by
  unfold attach at h
  split at h
  · cases h
  · split at h
    · rename_i b _
      split at h
      · cases h
        have hmark : Quiet s { s.markDetached b current with
            attachments := (s.markDetached b current).attachments ++ [false]
            attachment := some s.attachments.length } := markDetached_quiet.trans (.of_tasks rfl)
        exact hmark.trans cancelExpiry_quiet
      · cases h
    · cases h
      have hattach : Quiet s { s with
          attachments := s.attachments ++ [false]
          attachment := some s.attachments.length } := .of_tasks rfl
      exact hattach.trans cancelExpiry_quiet

theorem registerOutbound_quiet (h : s.registerOutbound t a = some s') : Quiet s s' := by
  unfold registerOutbound at h
  split at h
  · cases h
  · cases h
    exact .of_tasks rfl

theorem startLocal_quiet {kind : TaskKind} (h : s.startLocal kind = some s') : Quiet s s' := by
  unfold startLocal at h
  split at h
  · cases h
  · cases h
    exact (create_quiet (.inl rfl)).trans (.of_tasks rfl)

theorem fence_quiet {reason : String} : Quiet s (s.fence t reason) := by
  unfold fence
  dsimp only
  split
  · exact .of_tasks rfl
  · exact interrupt_quiet rfl

theorem beginCleanup_quiet : Quiet s (s.beginCleanup t) := by
  unfold beginCleanup
  dsimp only
  split
  · exact interrupt_quiet rfl
  · exact interrupt_quiet rfl

theorem endCleanup_quiet {result : Ended Unit Unit} : Quiet s (s.endCleanup result) := by
  unfold endCleanup
  split <;> exact .of_tasks rfl

end Quiet

/-- What a step can do to the tasks. -/
inductive Tasked (s : Lifecycle) : LifecycleLabel → Lifecycle → Prop
  | quiet {e out s'} : Quiet s s' → (∀ result, out ≠ .released result) → Tasked s (e, out) s'
  | finishes {e t} {task : OwnedTask} : s.tasks[t]? = some task → task.IsActive →
      (task.state = .running ∨ task.cancelling = true) → Tasked s (e, .done) (s.modifyTask t OwnedTask.finish)
  /-- the task `t` calls `release` first -/
  | leads {e t reason} {task : OwnedTask} : s.tasks[t]? = some task → task.IsActive →
      s.releaseTask = none → Tasked s (e, .done) ((s.fence t reason).modifyTask t (·.await true))
  /-- the task `t` calls `release` later -/
  | follows {e t} {task : OwnedTask} : s.tasks[t]? = some task → task.IsActive →
      (task.kind = .outer ∨ ∃ reason, task.kind = .release reason) → s.releaseTask.isSome →
      Tasked s (e, .done) (s.modifyTask t (·.await false))
  | waits {t first waiter} {task : OwnedTask} : s.tasks[t]? = some task →
      task.state = .releasing first waiter → Tasked s (.resumes t, .done)
        (s.modifyTask t fun task => { task with state := .releasing first waiter.resume })
  | leaves {e t x first c} {task : OwnedTask} : s.tasks[t]? = some task → task.isDone = false →
      s.cleanup = some x → Tasked s (e, .released ((x.map fun _ => first).after c))
        (s.modifyTask t (·.leave ((x.map fun _ => first).after c)))

theorem tasked_attempt {s s' : Lifecycle} {e : LifecycleEvent} {out : LifecycleOutput}
    {r : Option Lifecycle} (hx : s.attempt r = (s', out)) (h : ∀ s', r = some s' → Quiet s s') :
    Tasked s (e, out) s' := by
  cases r with
  | none =>
    cases hx
    exact .quiet (.of_tasks rfl) (by simp)
  | some s'' =>
    cases hx
    exact .quiet (h _ rfl) (by simp)

theorem tasked_release {s s' : Lifecycle} {e : LifecycleEvent} {out : LifecycleOutput} {t : ℕ}
    {reason : String} {task : OwnedTask} (ht : s.tasks[t]? = some task) (ha : task.IsActive)
    (hkind : s.releaseTask.isSome → task.kind = .outer ∨ ∃ reason, task.kind = .release reason)
    (hx : answer (s.release t reason) = (s', out)) : Tasked s (e, out) s' := by
  rcases hr : s.release t reason with ⟨s'', result⟩
  rw [hr] at hx
  rcases release_cases hr with ⟨hnone, rfl, rfl⟩ | ⟨hsome, -, rfl, rfl⟩ | ⟨x, hc, rfl, rfl⟩
  · cases hx
    exact .leads ht ha hnone
  · cases hx
    exact .follows ht ha (hkind hsome) hsome
  · cases hx
    have h : Tasked s (e, .released ((x.map fun _ => false).after false))
        (s.modifyTask t (·.leave ((x.map fun _ => false).after false))) := .leaves ht ha.isDone hc
    simpa using h

theorem tasked_releaseUnless {s s' : Lifecycle} {e : LifecycleEvent} {out : LifecycleOutput} {t : ℕ}
    {reason : String} {task : OwnedTask} (hrel : s.released = s.releaseTask.isSome)
    (ht : s.tasks[t]? = some task) (hrun : task.state = .running)
    (hx : s.releaseUnless t reason = (s', out)) : Tasked s (e, out) s' := by
  unfold releaseUnless at hx
  split at hx
  · cases hx
    exact .finishes ht (.inl hrun) (.inl hrun)
  · rename_i hopen
    rw [hrel] at hopen
    exact tasked_release ht (.inl hrun) (fun hsome => absurd hsome hopen) hx

theorem Runs.spec {s : Lifecycle} {t : ℕ} {kinds : List TaskKind} (h : s.Runs t kinds) :
    ∃ task : OwnedTask, s.tasks[t]? = some task ∧ task.IsActive ∧ task.kind ∈ kinds := by
  obtain ⟨task, ht, hk, hr⟩ := h
  exact ⟨task, ht, .inl hr, hk⟩

/-- **What a step can do to the tasks.** -/
theorem step_tasked {s s' : Lifecycle} {label : LifecycleLabel}
    (hrel : s.released = s.releaseTask.isSome) (h : Step s label s') : Tasked s label s' := by
  obtain ⟨e, out⟩ := label
  obtain ⟨hen, hx⟩ := h
  cases e with
  | starts => cases hx; exact .quiet start_quiet (by simp)
  | begins => cases hx; exact .quiet (create_quiet (.inl rfl)) (by simp)
  | schedules reason => cases hx; exact .quiet (create_quiet (.inr ⟨rfl, reason, rfl⟩)) (by simp)
  | attaches current replace => exact tasked_attempt hx fun _ h => attach_quiet h
  | detaches a current => cases hx; exact .quiet detach_quiet (by simp)
  | reads => exact tasked_attempt hx fun _ h => startLocal_quiet h
  | mutates => exact tasked_attempt hx fun _ h => startLocal_quiet h
  | registersOutbound t a => exact tasked_attempt hx fun _ h => registerOutbound_quiet h
  | unregistersOutbound t a => cases hx; exact .quiet (.of_tasks rfl) (by simp)
  | ends t =>
    cases hx
    rcases hen with ⟨task, ht, -, hrun⟩ | ⟨⟨task, ht, -, hrun⟩, -⟩ | ⟨task, ht, hc, hcancel⟩
    · exact .finishes ht (.inl hrun) (.inl hrun)
    · exact .finishes ht (.inl hrun) (.inl hrun)
    · exact .finishes ht (.inr hc) (.inr hcancel)
  | discards t => cases hx; exact .quiet (.of_tasks rfl) (by simp)
  | cancels t => cases hx; exact .quiet (modify_quiet OwnedTask.cancel_alike) (by simp)
  | pumpStops reason =>
    obtain ⟨t, ht, ⟨task, htask, -, hrun⟩, -⟩ := hen
    simp only [perform, show s.pumpTask = some t from ht] at hx
    exact tasked_releaseUnless hrel htask hrun hx
  | overflows => cases hx; exact .quiet (create_quiet (.inr ⟨rfl, _, rfl⟩)) (by simp)
  | expires t =>
    obtain ⟨⟨task, htask, -, hrun⟩, -⟩ := hen
    exact tasked_releaseUnless hrel htask hrun hx
  | runs t =>
    obtain ⟨⟨task, ht, hc⟩, -⟩ := hen
    simp only [perform] at hx
    split at hx
    · rename_i reason state cancelling htask
      obtain rfl : task = ⟨.release reason, state, cancelling⟩ := Option.some.inj (ht.symm.trans htask)
      exact tasked_release ht (.inr hc) (fun _ => .inr ⟨reason, rfl⟩) hx
    · cases hx
      exact .quiet (.of_tasks rfl) (by simp)
  | calls t reason =>
    obtain ⟨task, htask, ha, hk⟩ := hen.1.spec
    exact tasked_release htask ha (fun _ => .inl (by simpa using hk)) hx
  | cleansUp =>
    simp only [perform] at hx
    split at hx
    · cases hx
      exact .quiet (.of_tasks rfl) (by simp)
    · cases hx
      exact .quiet beginCleanup_quiet (by simp)
  | joins => cases hx; exact .quiet (.of_tasks rfl) (by simp)
  | websocketCloses => cases hx; exact .quiet (.of_tasks rfl) (by simp)
  | controllerCloses result =>
    simp only [perform, Prod.mk.injEq] at hx
    obtain ⟨rfl, rfl⟩ := hx
    refine .quiet endCleanup_quiet fun r => ?_
    split <;> simp
  | resumes t =>
    simp only [perform] at hx
    split at hx
    · rename_i kind first waiter cancelling htask
      rcases hr : s.resume t first waiter with ⟨s'', result⟩
      rw [hr] at hx
      rcases resume_cases hr with ⟨-, rfl, rfl⟩ | ⟨x, hc, rfl, rfl⟩
      · cases hx
        exact .waits htask rfl
      · cases hx
        exact .leaves htask rfl hc
    · cases hx
      exact .quiet (.of_tasks rfl) (by simp)

/-! ## Steps of the rosters -/

end Lifecycle

/-- The tasks of a lease, by what they are for. -/
structure Roster where
  reads : List ℕ
  senders : List (ℕ × ℕ)
  pump : Option ℕ
  expiry : Option ℕ

namespace Lifecycle

def roster (s : Lifecycle) : Roster := ⟨s.readTasks, s.outboundTasks, s.pumpTask, s.expiryTask⟩

section Roster

variable {s : Lifecycle} {a t current : ℕ}

/-- The roster with another task that runs `expire`, or none. -/
def Rearmed (s s' : Lifecycle) : Prop :=
  ∃ x, s'.roster = { s.roster with expiry := x } ∧
    ∀ t ∈ x, s.expiryTask = some t ∨ s.tasks.length ≤ t ∧ t < s'.tasks.length

theorem Rearmed.refl (s : Lifecycle) : Rearmed s s := ⟨s.expiryTask, rfl, fun _ h => .inl h⟩

theorem cancelExpiry_rearmed : Rearmed s s.cancelExpiry := by
  unfold cancelExpiry
  split
  · exact .refl s
  · exact ⟨none, rfl, by simp⟩

theorem cancelExpiry_roster : s.cancelExpiry.roster = { s.roster with expiry := none } := by
  unfold cancelExpiry
  split
  · rename_i h
    simp [roster, h]
  · rfl

theorem scheduleExpiry_rearmed : Rearmed s s.scheduleExpiry := by
  unfold scheduleExpiry
  dsimp only
  split
  · exact cancelExpiry_rearmed
  · refine ⟨some s.cancelExpiry.next, ?_, ?_⟩
    · have h := congrArg (fun r : Roster => { r with expiry := some s.cancelExpiry.next })
        (cancelExpiry_roster (s := s))
      exact h
    · rintro t ⟨⟩
      right
      have hlen : s.tasks.length ≤ s.cancelExpiry.tasks.length := cancelExpiry_quiet.1
      exact ⟨hlen, by simp [create, next]⟩

@[simp] theorem markDetached_roster : (s.markDetached a current).roster = s.roster := rfl

theorem detach_rearmed : Rearmed s (s.detach a current) := by
  unfold detach
  have hlen : ∀ m : Lifecycle, (m.markDetached a current).tasks.length = m.tasks.length := fun m => by
    simp [markDetached, interrupt]
  split
  · obtain ⟨x, h1, h2⟩ := scheduleExpiry_rearmed (s := { s with attachment := none })
    exact ⟨x, h1, fun t ht => by rw [hlen]; exact h2 t ht⟩
  · exact ⟨s.expiryTask, rfl, fun _ h => .inl h⟩

theorem attach_rearmed {replace : Bool} {s' : Lifecycle} (h : s.attach current replace = some s') :
    Rearmed s s' := by
  unfold attach at h
  split at h
  · cases h
  · split at h
    · split at h
      · cases h
        exact ⟨none, cancelExpiry_roster, by simp⟩
      · cases h
    · cases h
      exact ⟨none, cancelExpiry_roster, by simp⟩

theorem fence_roster {reason : String} : (s.fence t reason).roster = s.roster := by
  unfold fence
  dsimp only
  split <;> rfl

/-- What a step can do to the rosters. -/
inductive Rostered (s : Lifecycle) : LifecycleLabel → Lifecycle → Prop
  | rearmed {label s'} : Rearmed s s' → Rostered s label s'
  | started {label s' x} : s'.released = false → s.pumpTask = none → s.tasks.length < s'.tasks.length →
      s'.roster = { s.roster with pump := some s.tasks.length, expiry := x } →
      (∀ t ∈ x, s.expiryTask = some t ∨ s.tasks.length ≤ t ∧ t < s'.tasks.length) → Rostered s label s'
  | reading {label s'} : s'.released = false → s.tasks.length < s'.tasks.length →
      s'.roster = { s.roster with reads := s.readTasks ++ [s.tasks.length] } → Rostered s label s'
  | sending {u b : ℕ} {out s'} : s'.released = false → s.Runs u [.outer] →
      s'.roster = { s.roster with senders := s.outboundTasks.insert (u, b) } →
      Rostered s (.registersOutbound u b, out) s'
  | unsending {u b : ℕ} {out s'} :
      s'.roster = { s.roster with senders := s.outboundTasks.filter (· ≠ (u, b)) } →
      Rostered s (.unregistersOutbound u b, out) s'
  | discarded {u : ℕ} {out s'} : s.isDone u = true →
      s'.roster = { s.roster with reads := s.readTasks.filter (· ≠ u) } →
      Rostered s (.discards u, out) s'
  | cleaning {u : ℕ} : s.releaseTask = some ⟨u, .created⟩ →
      Rostered s (.cleansUp, .done) (s.beginCleanup u)
  | joined : Rostered s (.joins, .done) s.joined

theorem rostered_attempt {s' : Lifecycle} {e : LifecycleEvent} {out : LifecycleOutput}
    {r : Option Lifecycle} (hx : s.attempt r = (s', out))
    (h : ∀ s', r = some s' → Rostered s (e, out) s') : Rostered s (e, out) s' := by
  cases r with
  | none =>
    cases hx
    exact .rearmed (.refl s)
  | some s'' =>
    cases hx
    exact h _ rfl

theorem rostered_same {s' : Lifecycle} {label : LifecycleLabel} (h : s'.roster = s.roster) :
    Rostered s label s' := .rearmed ⟨s.expiryTask, h, fun _ h => .inl h⟩

theorem rostered_release {s' : Lifecycle} {e : LifecycleEvent} {out : LifecycleOutput} {reason : String}
    (hx : answer (s.release t reason) = (s', out)) : Rostered s (e, out) s' := by
  rcases hr : s.release t reason with ⟨s'', result⟩
  rw [hr] at hx
  rcases release_cases hr with ⟨-, rfl, rfl⟩ | ⟨-, -, rfl, rfl⟩ | ⟨x, -, rfl, rfl⟩
  · cases hx
    exact rostered_same fence_roster
  · cases hx
    exact rostered_same rfl
  · cases hx
    exact rostered_same rfl

theorem rostered_releaseUnless {s' : Lifecycle} {e : LifecycleEvent} {out : LifecycleOutput}
    {reason : String} (hx : s.releaseUnless t reason = (s', out)) : Rostered s (e, out) s' := by
  unfold releaseUnless at hx
  split at hx
  · cases hx
    exact rostered_same rfl
  · exact rostered_release hx

theorem start_rostered {label : LifecycleLabel} : Rostered s label s.start := by
  unfold start
  split
  · exact rostered_same rfl
  · rename_i h
    obtain ⟨x, h1, h2⟩ := scheduleExpiry_rearmed
      (s := { s.create .pump .running with pumpTask := some s.next })
    have hlen : s.tasks.length < (scheduleExpiry
        { s.create .pump .running with pumpTask := some s.next }).tasks.length := by
      refine Nat.lt_of_lt_of_le ?_ scheduleExpiry_quiet.1
      simp [create]
    have hnew : ∀ t ∈ x, s.expiryTask = some t ∨ s.tasks.length ≤ t ∧ t < (scheduleExpiry
        { s.create .pump .running with pumpTask := some s.next }).tasks.length := by
      intro t ht
      rcases h2 t ht with h | ⟨h, hlt⟩
      · exact .inl h
      · exact .inr ⟨Nat.le_trans (by simp [create]) h, hlt⟩
    have hopen : s.released = false := by simpa using fun hp => h (.inl hp)
    refine .started ?_ (by simpa using fun hp => h (.inr hp)) hlen h1 hnew
    have hstage := congrArg Stage.released (scheduleExpiry_stage
      (s := { s.create .pump .running with pumpTask := some s.next }))
    exact hstage.trans hopen

/-- **What a step can do to the rosters.** -/
theorem step_rostered {s' : Lifecycle} {label : LifecycleLabel} (h : Step s label s') :
    Rostered s label s' := by
  obtain ⟨e, out⟩ := label
  obtain ⟨hen, hx⟩ := h
  cases e with
  | starts => cases hx; exact start_rostered
  | begins => cases hx; exact rostered_same rfl
  | schedules reason => cases hx; exact rostered_same rfl
  | attaches current replace => exact rostered_attempt hx fun _ h => .rearmed (attach_rearmed h)
  | detaches a current => cases hx; exact .rearmed detach_rearmed
  | reads | mutates =>
    refine rostered_attempt hx fun _ h => ?_
    unfold startLocal at h
    split at h
    · cases h
    · rename_i hopen
      cases h
      exact .reading (show s.released = false by simpa using hopen) (by simp [create]) rfl
  | registersOutbound t a =>
    refine rostered_attempt hx fun _ h => ?_
    unfold registerOutbound at h
    split at h
    · cases h
    · rename_i hopen
      cases h
      exact .sending (by simpa using fun hr => hopen (.inr hr)) hen rfl
  | unregistersOutbound t a => cases hx; exact .unsending rfl
  | ends t => cases hx; exact rostered_same rfl
  | discards t => cases hx; exact .discarded hen rfl
  | cancels t => cases hx; exact rostered_same rfl
  | pumpStops reason =>
    simp only [perform] at hx
    split at hx
    · cases hx
      exact rostered_same rfl
    · exact rostered_releaseUnless hx
  | overflows => cases hx; exact rostered_same rfl
  | expires t => exact rostered_releaseUnless hx
  | runs t =>
    simp only [perform] at hx
    split at hx
    · exact rostered_release hx
    · cases hx
      exact rostered_same rfl
  | calls t reason => exact rostered_release hx
  | cleansUp =>
    obtain ⟨r, hr, hphase⟩ := Option.map_eq_some_iff.1 hen
    obtain ⟨initiator, phase⟩ := r
    subst hphase
    simp only [perform, hr] at hx
    cases hx
    exact .cleaning hr
  | joins => cases hx; exact .joined
  | websocketCloses => cases hx; exact rostered_same rfl
  | controllerCloses result =>
    simp only [perform, Prod.mk.injEq] at hx
    obtain ⟨rfl, rfl⟩ := hx
    cases result <;> exact rostered_same rfl
  | resumes t =>
    simp only [perform] at hx
    split at hx
    · rename_i kind first waiter cancelling htask
      rcases hr : s.resume t first waiter with ⟨s'', result⟩
      rw [hr] at hx
      rcases resume_cases hr with ⟨-, rfl, rfl⟩ | ⟨x, -, rfl, rfl⟩
      · cases hx
        exact rostered_same rfl
      · cases hx
        exact rostered_same rfl
    · cases hx
      exact rostered_same rfl

end Roster

/-! ## Who waits for whom -/

/-- The first caller of `release`. -/
def initiator (s : Lifecycle) : Option ℕ := s.releaseTask.map (·.initiator)

section Waits

variable {s s' : Lifecycle} {label : LifecycleLabel} {t : ℕ}

theorem setPhase_initiator (phase : ReleasePhase) : (s.setPhase phase).initiator = s.initiator := by
  unfold initiator setPhase
  rw [Option.map_map]
  rfl

theorem beginCleanup_initiator : (s.beginCleanup t).initiator = s.initiator := by
  unfold beginCleanup
  dsimp only
  split
  · exact setPhase_initiator _
  · exact setPhase_initiator _

theorem initiator_step (hs : Step s label s') (h : s.initiator = some t) : s'.initiator = some t := by
  cases step_stage hs with
  | kept _ _ hst =>
    exact (congrArg (fun x : Stage => x.releaseTask.map ReleaseTask.initiator) hst).trans h
  | fenced _ hnone =>
    simp [initiator, hnone] at h
  | begun => exact beginCleanup_initiator.trans h
  | joined => exact (setPhase_initiator _).trans h
  | closing => exact (setPhase_initiator _).trans h
  | @ended result _ _ _ =>
    cases result with
    | returned => exact (setPhase_initiator _).trans h
    | raised => exact (setPhase_initiator _).trans h
    | cancelled => exact (setPhase_initiator _).trans h

theorem initiator_isSome : s.initiator.isSome = s.releaseTask.isSome := by simp [initiator]

/-- A task stays there, of its kind; requests to cancel it stay, and so does its
    end. -/
theorem Tasked.task (h : Tasked s label s') {task : OwnedTask} (ht : s.tasks[t]? = some task) :
    ∃ task', s'.tasks[t]? = some task' ∧ task'.kind = task.kind ∧
      (task.cancelling = true → task'.cancelling = true) ∧
      (task.isDone = true → task'.isDone = true) := by
  have hquiet : ∀ {m : Lifecycle}, Quiet s m → ∃ task', m.tasks[t]? = some task' ∧ task.Alike task' := by
    rintro m ⟨hlen, hq⟩
    have hlt : t < m.tasks.length := Nat.lt_of_lt_of_le (List.getElem?_eq_some_iff.1 ht).1 hlen
    refine ⟨m.tasks[t], List.getElem?_eq_getElem hlt, ?_⟩
    rcases hq t _ (List.getElem?_eq_getElem hlt) with ⟨old, hold, ha⟩ | ⟨hnone, -⟩
    · obtain rfl : task = old := Option.some.inj (ht.symm.trans hold)
      exact ha
    · rw [ht] at hnone
      cases hnone
  -- one task acts, and only its state changes
  have hact : ∀ {m : Lifecycle} {u : ℕ} {f : OwnedTask → OwnedTask} {old : OwnedTask}, Quiet s m →
      s.tasks[u]? = some old → old.isDone = false →
      (∀ x, (f x).kind = x.kind ∧ (f x).cancelling = x.cancelling) →
      ∃ task', (m.modifyTask u f).tasks[t]? = some task' ∧ task'.kind = task.kind ∧
        (task.cancelling = true → task'.cancelling = true) ∧
        (task.isDone = true → task'.isDone = true) := by
    intro m u f old hq hold hopen hf
    obtain ⟨task', ht', ha⟩ := hquiet hq
    rw [modifyTask_getElem, ht']
    refine ⟨_, rfl, ?_⟩
    split
    · rename_i hu
      subst hu
      obtain rfl : task = old := Option.some.inj (ht.symm.trans hold)
      refine ⟨(hf _).1.trans ha.kind, fun hc => (hf _).2.trans (ha.cancelling hc), fun hd => ?_⟩
      rw [hopen] at hd
      cases hd
    · exact ⟨ha.kind, ha.cancelling, fun hd => ha.isDone.trans hd⟩
  cases h with
  | quiet hq =>
    obtain ⟨task', ht', ha⟩ := hquiet hq
    exact ⟨task', ht', ha.kind, ha.cancelling, fun hd => ha.isDone.trans hd⟩
  | finishes hold ha => exact hact (.of_tasks rfl) hold ha.isDone fun _ => ⟨rfl, rfl⟩
  | leads hold ha => exact hact fence_quiet hold ha.isDone fun _ => ⟨rfl, rfl⟩
  | follows hold ha => exact hact (.of_tasks rfl) hold ha.isDone fun _ => ⟨rfl, rfl⟩
  | waits hold hst =>
    exact hact (.of_tasks rfl) hold (by simp [OwnedTask.isDone, hst]) fun _ => ⟨rfl, rfl⟩
  | leaves hold hopen => exact hact (.of_tasks rfl) hold hopen fun _ => ⟨rfl, rfl⟩

/-- A task is on a roster of those that the cleanup joins. -/
def Registered (s : Lifecycle) (t : ℕ) : Prop :=
  t ∈ s.readTasks ∨ t ∈ s.outboundTasks.map (·.1) ∨ s.pumpTask = some t

theorem mem_owned {i : ℕ} : t ∈ s.owned i ↔
    (s.Registered t ∨ s.expiryTask = some t) ∧ t ≠ i ∧ s.isDone t = false := by
  simp only [owned, Registered, List.mem_filter, List.mem_dedup, List.mem_append, Option.mem_toList,
    decide_eq_true_eq, Bool.not_eq_true', or_assoc, and_assoc]

/-- A task that was interrupted is to end, or did. -/
theorem interrupted {tasks : List OwnedTask} {ts : List ℕ} {task : OwnedTask} (ht : t ∈ ts)
    (h : tasks[t]? = some task) : ∃ task', (interrupt tasks ts)[t]? = some task' ∧
      (task'.cancelling = true ∨ task'.isDone = true) := by
  rw [interrupt, List.getElem?_mapIdx, h]
  refine ⟨_, rfl, ?_⟩
  dsimp only
  by_cases hc : task.cancelling = false
  · rw [if_pos ⟨ht, hc⟩]
    unfold OwnedTask.cancel
    split
    · rename_i hst
      simp [OwnedTask.isDone, hst]
    · exact .inl rfl
    · exact .inl rfl
  · rw [if_neg fun h => hc h.2]
    left
    simpa using hc

theorem Tasked.length (h : Tasked s label s') : s.tasks.length ≤ s'.tasks.length := by
  cases h with
  | quiet hq => exact hq.1
  | @leads e u reason task =>
    have hfence : s.tasks.length ≤ (s.fence u reason).tasks.length := fence_quiet.1
    simpa [modifyTask] using hfence
  | _ => simp [modifyTask]

/-- The tasks on the rosters are there. -/
def Known (s : Lifecycle) : Prop :=
  ∀ t, s.Registered t ∨ s.expiryTask = some t → t < s.tasks.length

theorem beginCleanup_roster : (s.beginCleanup t).roster = ⟨[], [], s.pumpTask, none⟩ ∨
    (s.beginCleanup t).roster = { s.roster with expiry := none } := by
  unfold beginCleanup
  dsimp only
  split
  · exact .inl rfl
  · exact .inr rfl

theorem Known.step (h : Known s) (hs : Step s label s')
    (hlen : s.tasks.length ≤ s'.tasks.length) : Known s' := by
  have hreads : ∀ u ∈ s.readTasks, u < s'.tasks.length := fun u hu =>
    Nat.lt_of_lt_of_le (h u (.inl (.inl hu))) hlen
  have hsenders : ∀ o ∈ s.outboundTasks, o.1 < s'.tasks.length := fun o ho =>
    Nat.lt_of_lt_of_le (h o.1 (.inl (.inr (.inl (List.mem_map_of_mem ho))))) hlen
  have hpump : ∀ u ∈ s.pumpTask, u < s'.tasks.length := fun u hu =>
    Nat.lt_of_lt_of_le (h u (.inl (.inr (.inr hu)))) hlen
  have hexpiry : ∀ u ∈ s.expiryTask, u < s'.tasks.length := fun u hu =>
    Nat.lt_of_lt_of_le (h u (.inr hu)) hlen
  have hof : ∀ {r : Roster}, s'.roster = r → (∀ u ∈ r.reads, u < s'.tasks.length) →
      (∀ o ∈ r.senders, o.1 < s'.tasks.length) → (∀ u ∈ r.pump, u < s'.tasks.length) →
      (∀ u ∈ r.expiry, u < s'.tasks.length) → Known s' := by
    rintro r rfl h1 h2 h3 h4 u ((hu | hu | hu) | hu)
    · exact h1 u hu
    · obtain ⟨o, ho, rfl⟩ := List.mem_map.1 hu
      exact h2 o ho
    · exact h3 u hu
    · exact h4 u hu
  cases step_rostered hs with
  | rearmed hr =>
    obtain ⟨x, hr, hx⟩ := hr
    refine hof hr hreads hsenders hpump fun u hu => ?_
    rcases hx u hu with hu | ⟨-, hu⟩
    · exact hexpiry u hu
    · exact hu
  | started _ _ hlt hr hx =>
    refine hof hr hreads hsenders (fun u hu => ?_) fun u hu => ?_
    · obtain rfl : s.tasks.length = u := Option.some.inj hu
      exact hlt
    · rcases hx u hu with hu | ⟨-, hu⟩
      · exact hexpiry u hu
      · exact hu
  | reading _ hlt hr =>
    refine hof hr (fun u hu => ?_) hsenders hpump hexpiry
    rcases List.mem_append.1 hu with hu | hu
    · exact hreads u hu
    · obtain rfl : u = s.tasks.length := by simpa using hu
      exact hlt
  | sending _ hruns hr =>
    refine hof hr hreads (fun o ho => ?_) hpump hexpiry
    rcases List.mem_insert_iff.1 ho with rfl | ho
    · obtain ⟨task, ht, -⟩ := hruns
      exact Nat.lt_of_lt_of_le (List.getElem?_eq_some_iff.1 ht).1 hlen
    · exact hsenders o ho
  | unsending hr =>
    exact hof hr hreads (fun o ho => hsenders o (List.mem_of_mem_filter ho)) hpump hexpiry
  | discarded _ hr =>
    exact hof hr (fun u hu => hreads u (List.mem_of_mem_filter hu)) hsenders hpump hexpiry
  | cleaning hr =>
    rcases beginCleanup_roster with hroster | hroster
    · exact hof hroster (by simp) (by simp) hpump (by simp)
    · exact hof hroster hreads hsenders hpump (by simp)
  | joined => exact hof (r := ⟨[], [], s.pumpTask, s.expiryTask⟩) rfl (by simp) (by simp) hpump hexpiry

/-- The callers of `release` are in order: the first one is known, and the pump and
    the tasks that run `expire` call it only first. -/
structure Orderly (s : Lifecycle) : Prop where
  known : Known s
  first : ∀ (t : ℕ) (task : OwnedTask) w, s.tasks[t]? = some task → task.state = .releasing true w →
    s.initiator = some t
  later : ∀ (t : ℕ) (task : OwnedTask) w, s.tasks[t]? = some task → task.state = .releasing false w →
    task.kind = .outer ∨ ∃ reason, task.kind = .release reason
  created : ∀ (t : ℕ) (task : OwnedTask), s.tasks[t]? = some task → task.state = .created →
    ∃ reason, task.kind = .release reason
  joining : ∀ ts, s.phase = some (.joining ts) → ∀ t ∈ ts, s.initiator ≠ some t ∧
    ∃ task : OwnedTask, s.tasks[t]? = some task ∧ (task.cancelling = true ∨ task.isDone = true)

/-- Where a task comes from: it is new, went on, stopped, or began to wait. -/
theorem Tasked.origin (h : Tasked s label s') {task' : OwnedTask} (ht' : s'.tasks[t]? = some task') :
    task'.IsNew ∨ (∃ task : OwnedTask, s.tasks[t]? = some task ∧ task.Alike task') ∨
    (∃ result, task'.state = .ended result) ∨
    (∃ w, task'.state = .releasing true w ∧ s'.initiator = some t) ∨
    ∃ w, task'.state = .releasing false w ∧
      (task'.kind = .outer ∨ ∃ reason, task'.kind = .release reason) := by
  have hquiet : ∀ {m : Lifecycle}, Quiet s m → m.tasks[t]? = some task' → task'.IsNew ∨
      ∃ task : OwnedTask, s.tasks[t]? = some task ∧ task.Alike task' := by
    intro m hq hm
    rcases hq.2 t task' hm with h | ⟨-, h⟩
    · exact .inr h
    · exact .inl h
  -- the task that acts, or another one
  have hact : ∀ {m : Lifecycle} {u : ℕ} {f : OwnedTask → OwnedTask}, Quiet s m →
      (m.modifyTask u f).tasks[t]? = some task' →
      (task'.IsNew ∨ ∃ task : OwnedTask, s.tasks[t]? = some task ∧ task.Alike task') ∨
      u = t ∧ ∃ task : OwnedTask, m.tasks[t]? = some task ∧ task' = f task := by
    intro m u f hq hm
    rw [modifyTask_getElem, Option.map_eq_some_iff] at hm
    obtain ⟨task, htask, he⟩ := hm
    by_cases hu : u = t
    · rw [if_pos hu] at he
      exact .inr ⟨hu, task, htask, he.symm⟩
    · rw [if_neg hu] at he
      subst he
      exact .inl (hquiet hq htask)
  cases h with
  | quiet hq =>
    rcases hquiet hq ht' with h | h
    · exact .inl h
    · exact .inr (.inl h)
  | finishes =>
    rcases hact (.of_tasks rfl) ht' with (h | h) | ⟨-, task, -, rfl⟩
    · exact .inl h
    · exact .inr (.inl h)
    · exact .inr (.inr (.inl ⟨none, rfl⟩))
  | @leads e u reason old =>
    rcases hact fence_quiet ht' with (h | h) | ⟨rfl, task, -, rfl⟩
    · exact .inl h
    · exact .inr (.inl h)
    · refine .inr (.inr (.inr (.inl ⟨_, rfl, ?_⟩)))
      exact congrArg (fun x : Stage => x.releaseTask.map ReleaseTask.initiator) (fence_stage (s := s))
  | @follows e u old hold _ hkind =>
    rcases hact (.of_tasks rfl) ht' with (h | h) | ⟨rfl, task, htask, rfl⟩
    · exact .inl h
    · exact .inr (.inl h)
    · obtain rfl : task = old := Option.some.inj (htask.symm.trans hold)
      exact .inr (.inr (.inr (.inr ⟨_, rfl, hkind⟩)))
  | @waits u first w old hold hst =>
    rcases hact (.of_tasks rfl) ht' with (h | h) | ⟨rfl, task, htask, rfl⟩
    · exact .inl h
    · exact .inr (.inl h)
    · obtain rfl : task = old := Option.some.inj (htask.symm.trans hold)
      exact .inr (.inl ⟨task, htask, rfl, id, .inr ⟨first, w, _, hst, rfl⟩⟩)
  | @leaves e u x first c old =>
    rcases hact (.of_tasks rfl) ht' with (h | h) | ⟨rfl, task, htask, rfl⟩
    · exact .inl h
    · exact .inr (.inl h)
    · cases hk : task.kind with
      | outer => exact .inl (.inl (by simp [OwnedTask.leave, hk]))
      | release reason => exact .inr (.inr (.inl ⟨_, by simp [OwnedTask.leave, hk]; rfl⟩))
      | _ => exact .inr (.inr (.inl ⟨none, by simp [OwnedTask.leave, hk]⟩))

theorem Orderly.step (h : Orderly s) (hrel : s.released = s.releaseTask.isSome)
    (hs : Step s label s') : Orderly s' := by
  have hx := step_tasked hrel hs
  have hback : ∀ {task task' : OwnedTask} {first w}, task.Alike task' →
      task'.state = .releasing first w → ∃ v, task.state = .releasing first v := by
    intro task task' first w ha hst
    rcases ha.state with h1 | ⟨first', v, v', h1, h2⟩
    · exact ⟨w, h1.symm.trans hst⟩
    · rw [hst] at h2
      cases h2
      exact ⟨v, h1⟩
  have hnew : ∀ {task : OwnedTask} {first w}, task.IsNew → task.state ≠ .releasing first w := by
    rintro task first w (h | ⟨h, -⟩)
    · simp [h]
    · simp [h]
  refine ⟨h.known.step hs hx.length, fun t task' w ht' hst => ?_, fun t task' w ht' hst => ?_,
    fun t task' ht' hst => ?_, fun ts hphase t ht => ?_⟩
  · rcases hx.origin ht' with hn | ⟨task, ht, ha⟩ | ⟨result, he⟩ | ⟨v, -, hi⟩ | ⟨v, he, -⟩
    · exact absurd hst (hnew hn)
    · obtain ⟨v, hv⟩ := hback ha hst
      exact initiator_step hs (h.first t task v ht hv)
    · cases hst.symm.trans he
    · exact hi
    · cases hst.symm.trans he
  · rcases hx.origin ht' with hn | ⟨task, ht, ha⟩ | ⟨result, he⟩ | ⟨v, he, -⟩ | ⟨v, -, hk⟩
    · exact absurd hst (hnew hn)
    · obtain ⟨v, hv⟩ := hback ha hst
      rw [ha.kind]
      exact h.later t task v ht hv
    · cases hst.symm.trans he
    · cases hst.symm.trans he
    · exact hk
  · rcases hx.origin ht' with (hn | ⟨-, hn⟩) | ⟨task, ht, ha⟩ | ⟨result, he⟩ | ⟨v, he, -⟩ | ⟨v, he, -⟩
    · cases hst.symm.trans hn
    · exact hn
    · rw [ha.kind]
      refine h.created t task ht ?_
      rcases ha.state with h1 | ⟨first, v, v', -, h2⟩
      · exact h1.symm.trans hst
      · cases hst.symm.trans h2
    · cases hst.symm.trans he
    · cases hst.symm.trans he
    · cases hst.symm.trans he
  · -- the cleanup waits on, or begins to
    have hkept : s.phase = some (.joining ts) → s'.initiator = s.initiator → s'.initiator ≠ some t ∧
        ∃ task : OwnedTask, s'.tasks[t]? = some task ∧ (task.cancelling = true ∨ task.isDone = true) := by
      intro hp hi
      obtain ⟨h1, task, ht, h2⟩ := h.joining ts hp t ht
      obtain ⟨task', ht', -, hcancel, hdone⟩ := hx.task ht
      exact ⟨by rw [hi]; exact h1, task', ht', h2.imp hcancel hdone⟩
    cases step_stage hs with
    | kept _ _ hst =>
      rw [phase_of_stage hst] at hphase
      exact hkept hphase (congrArg (fun x : Stage => x.releaseTask.map ReleaseTask.initiator) hst)
    | fenced _ _ hst =>
      have hp : s'.phase = some .created :=
        congrArg (fun x : Stage => x.releaseTask.map ReleaseTask.phase) hst
      cases hp.symm.trans hphase
    | @begun i hr =>
      have hp : s.phase = some .created := by simp [Lifecycle.phase, hr]
      rw [beginCleanup_phase hp] at hphase
      split at hphase
      · cases hphase
      · cases hphase
        obtain ⟨hmem, hne, -⟩ := mem_owned.1 ht
        refine ⟨?_, ?_⟩
        · rw [beginCleanup_initiator]
          simpa [initiator, hr] using fun he => hne he.symm
        · rename_i hpend
          have hlt := h.known t hmem
          have htasks : (s.beginCleanup i).tasks = interrupt s.tasks (s.owned i) := by
            unfold beginCleanup
            dsimp only
            rw [if_neg (by simp [hpend])]
            rfl
          rw [htasks]
          exact interrupted ht (List.getElem?_eq_getElem hlt)
    | joined hp => cases (joined_phase hp).symm.trans hphase
    | closing hp => cases (setPhase_phase hp).symm.trans hphase
    | ended hp => cases (endCleanup_phase hp).symm.trans hphase

/-! ## What is joined -/

theorem isDone_step (hx : Tasked s label s') (h : s.isDone t = true) : s'.isDone t = true := by
  obtain ⟨task, ht, hd⟩ := (Option.any_eq_true _ _).1 h
  obtain ⟨task', ht', -, -, hdone⟩ := hx.task ht
  exact (Option.any_eq_true _ _).2 ⟨task', ht', hdone hd⟩

/-- A task stays on its roster until it is done, unless the cleanup drops it. -/
theorem registered_step (hs : Step s label s') (h : s.Registered t) (hclean : ¬ label.1.CleansUp)
    (hun : ∀ a, label.1 ≠ .unregistersOutbound t a) : s'.Registered t ∨ s.isDone t = true := by
  have hof : ∀ {r : Roster}, s'.roster = r →
      (t ∈ r.reads ∨ t ∈ r.senders.map (·.1) ∨ r.pump = some t) → s'.Registered t := by
    rintro r rfl h
    exact h
  cases step_rostered hs with
  | rearmed hr =>
    obtain ⟨x, hr, -⟩ := hr
    exact .inl (hof hr h)
  | started _ hnone _ hr _ =>
    refine .inl (hof hr ?_)
    rcases h with h | h | h
    · exact .inl h
    · exact .inr (.inl h)
    · rw [hnone] at h
      cases h
  | reading _ _ hr =>
    refine .inl (hof hr ?_)
    rcases h with h | h
    · exact .inl (List.mem_append_left _ h)
    · exact .inr h
  | sending _ _ hr =>
    refine .inl (hof hr ?_)
    rcases h with h | h | h
    · exact .inl h
    · obtain ⟨o, ho, rfl⟩ := List.mem_map.1 h
      exact .inr (.inl (List.mem_map_of_mem (List.mem_insert_of_mem ho)))
    · exact .inr (.inr h)
  | @unsending u b _ _ hr =>
    refine .inl (hof hr ?_)
    rcases h with h | h | h
    · exact .inl h
    · obtain ⟨o, ho, rfl⟩ := List.mem_map.1 h
      refine .inr (.inl (List.mem_map_of_mem (List.mem_filter.2 ⟨ho, ?_⟩)))
      have hne : o ≠ (u, b) := by
        rintro rfl
        exact hun b rfl
      simpa using hne
    · exact .inr (.inr h)
  | @discarded u _ _ hd hr =>
    by_cases hu : t = u
    · exact .inr (hu ▸ hd)
    · refine .inl (hof hr ?_)
      rcases h with h | h
      · exact .inl (List.mem_filter.2 ⟨h, by simpa using hu⟩)
      · exact .inr h
  | cleaning => exact absurd trivial hclean
  | joined => exact absurd trivial hclean

/-- The cleanup joins a task: it is done, on a roster that the cleanup is to read, or
    among the tasks that the cleanup waits for. -/
structure Joins (t : ℕ) (s : Lifecycle) : Prop where
  other : ∃ i, s.initiator = some i ∧ t ≠ i
  joined : s.isDone t = true ∨ s.phase = some .created ∧ s.Registered t ∨
    ∃ ts, s.phase = some (.joining ts) ∧ t ∈ ts

theorem Joins.step (h : Joins t s) (hrel : s.released = s.releaseTask.isSome) (hs : Step s label s')
    (hreg : s.Registered t → ¬ label.1.CleansUp → s'.Registered t ∨ s.isDone t = true) :
    Joins t s' := by
  have hx := step_tasked hrel hs
  obtain ⟨⟨i, hi, hne⟩, hjoined⟩ := h
  refine ⟨⟨i, initiator_step hs hi, hne⟩, ?_⟩
  rcases hjoined with hd | ⟨hp, ht⟩ | ⟨ts, hp, hmem⟩
  · exact .inl (isDone_step hx hd)
  · cases step_stage hs with
    | kept he _ hst =>
      rcases hreg ht he with h | h
      · exact .inr (.inl ⟨(phase_of_stage hst).trans hp, h⟩)
      · exact .inl (isDone_step hx h)
    | fenced _ hnone => simp [initiator, hnone] at hi
    | @begun u hr =>
      obtain rfl : u = i := by simpa [initiator, hr] using hi
      have hp' := beginCleanup_phase (t := u) hp
      by_cases hdone : s.isDone t = true
      · exact .inl (isDone_step hx hdone)
      · have hown : t ∈ s.owned u := mem_owned.2 ⟨.inl ht, hne, by simpa using hdone⟩
        rw [if_neg (List.ne_nil_of_mem hown)] at hp'
        exact .inr (.inr ⟨_, hp', hown⟩)
    | joined h => cases hp.symm.trans h
    | closing h => cases hp.symm.trans h
    | ended h => cases hp.symm.trans h
  · cases step_stage hs with
    | kept _ _ hst => exact .inr (.inr ⟨ts, (phase_of_stage hst).trans hp, hmem⟩)
    | fenced _ hnone => simp [initiator, hnone] at hi
    | begun hr =>
      rw [show s.phase = some .created by simp [Lifecycle.phase, hr]] at hp
      cases hp
    | joined h hdone =>
      cases hp.symm.trans h
      exact .inl (isDone_step hx (hdone t hmem))
    | closing h => cases hp.symm.trans h
    | ended h => cases hp.symm.trans h

/-- A task comes on a roster only while the lease is not released. -/
theorem registered_back (hs : Step s label s') (h : s'.Registered t) :
    s.Registered t ∨ s'.released = false := by
  have hof : ∀ {r : Roster}, s'.roster = r → s'.Registered t →
      t ∈ r.reads ∨ t ∈ r.senders.map (·.1) ∨ r.pump = some t := by
    rintro r rfl h
    exact h
  cases step_rostered hs with
  | rearmed hr =>
    obtain ⟨x, hr, -⟩ := hr
    exact .inl (hof hr h)
  | started hopen => exact .inr hopen
  | reading hopen => exact .inr hopen
  | sending hopen => exact .inr hopen
  | unsending hr =>
    rcases hof hr h with h | h | h
    · exact .inl (.inl h)
    · obtain ⟨o, ho, rfl⟩ := List.mem_map.1 h
      exact .inl (.inr (.inl (List.mem_map_of_mem (List.mem_of_mem_filter ho))))
    · exact .inl (.inr (.inr h))
  | discarded _ hr =>
    rcases hof hr h with h | h
    · exact .inl (.inl (List.mem_of_mem_filter h))
    · exact .inl (.inr h)
  | cleaning hr =>
    left
    rcases beginCleanup_roster with hroster | hroster
    · rcases hof hroster h with h | h | h
      · cases h
      · cases h
      · exact .inr (.inr h)
    · exact hof hroster h
  | joined =>
    left
    rcases h with h | h | h
    · cases h
    · cases h
    · exact .inr (.inr h)

/-- The lease accounts for a task: it is to be joined, unless it is the one that
    releases the lease. -/
def Accounts (t : ℕ) (s : Lifecycle) : Prop :=
  s.releaseTask = none ∧ (s.Registered t ∨ s.isDone t = true) ∨ s.initiator = some t ∨ Joins t s

theorem Accounts.step (h : Accounts t s) (hrel : s.released = s.releaseTask.isSome)
    (hs : Step s label s')
    (hreg : s.Registered t → ¬ label.1.CleansUp → s'.Registered t ∨ s.isDone t = true) :
    Accounts t s' := by
  have hx := step_tasked hrel hs
  rcases h with ⟨hnone, h⟩ | h | h
  · have hphase : s.phase = none := by simp [Lifecycle.phase, hnone]
    have hlater : ¬ label.1.CleansUp → s'.Registered t ∨ s'.isDone t = true := by
      intro he
      rcases h with h | h
      · exact (hreg h he).imp_right (isDone_step hx)
      · exact .inr (isDone_step hx h)
    cases step_stage hs with
    | kept he _ hst => exact .inl ⟨(congrArg Stage.releaseTask hst).trans hnone, hlater he⟩
    | @fenced e u reason _ he _ hst =>
      have htask : s'.releaseTask = some { initiator := u } := congrArg Stage.releaseTask hst
      have hi : s'.initiator = some u := by simp [initiator, htask]
      by_cases hu : t = u
      · exact .inr (.inl (hu ▸ hi))
      · refine .inr (.inr ⟨⟨u, hi, hu⟩, ?_⟩)
        rcases hlater he with h | h
        · exact .inr (.inl ⟨by simp [Lifecycle.phase, htask], h⟩)
        · exact .inl h
    | begun hr => cases hnone.symm.trans hr
    | joined hp => cases hphase.symm.trans hp
    | closing hp => cases hphase.symm.trans hp
    | ended hp => cases hphase.symm.trans hp
  · exact .inr (.inl (initiator_step hs h))
  · exact .inr (.inr (h.step hrel hs hreg))

/-- The lease accounts for those on its rosters. -/
theorem accounts_step (h : ∀ t, s.Registered t → Accounts t s)
    (hrel : s.released = s.releaseTask.isSome) (hrel' : s'.released = s'.releaseTask.isSome)
    (hs : Step s label s') (t : ℕ) (ht : s'.Registered t) : Accounts t s' := by
  rcases registered_back hs ht with hold | hopen
  · exact (h t hold).step hrel hs fun _ _ => .inl ht
  · refine .inl ⟨?_, .inl ht⟩
    rw [hopen] at hrel'
    simpa using hrel'.symm

end Waits

/-! ## Runs -/

section Runs

variable {s₀ s s' : Lifecycle} {trace : List LifecycleLabel} {label : LifecycleLabel} {t : ℕ}

/-- The cleanup waits for the task `t`. -/
def CleanupAwaits (s : Lifecycle) (t : ℕ) : Prop :=
  ∃ ts, s.phase = some (.joining ts) ∧ t ∈ ts ∧ s.isDone t = false

/-- The task `t` waits for the cleanup. -/
def AwaitsCleanup (s : Lifecycle) (t : ℕ) : Prop :=
  ∃ task ∈ s.tasks[t]?, ∃ first waiter, task.state = .releasing first waiter

/-- What holds of the release of a lease at the end of a run. -/
structure ReleasedOnce (s₀ : Lifecycle) (trace : List LifecycleLabel) (s : Lifecycle) : Prop where
  /-- the controller is closed at most once -/
  closed : closings trace ≤ 1
  /-- `on_release` is called at most once, when the controller was closed -/
  told : notices trace ≤ 1 ∧ ∀ before label after, trace = before ++ label :: after →
    label.2 = .onRelease → closings before = 1 ∧ label.1 = .controllerCloses (.returned ())
  /-- when the controller is closed, those that were on a roster are done, but for the
      first caller and those that left their roster -/
  joined : ∀ before since closing after (m n n' : Lifecycle) (t : ℕ),
    trace = (before ++ since) ++ closing :: after → Run s₀ before m → Run m since n →
    Step n closing n' → closing.1 = .websocketCloses → m.Registered t → n.initiator ≠ some t →
    (∀ label ∈ since, ∀ a, label.1 ≠ .unregistersOutbound t a) → n.isDone t = true
  /-- a call of `release` ends when the cleanup is done, with its failure if it failed -/
  answered : ∀ before label after result, trace = before ++ label :: after →
    label.2 = .released result → closings before = 1 ∧
    ∃ m x, Run s₀ before m ∧ m.cleanup = some x ∧ (∀ e, x = .raised e → result = .raised e) ∧
      ∀ b, result = .returned b → x = .returned ()
  /-- where the cleanup waits for the pump or a task that runs `expire`, that one does not
      wait for the cleanup, and is to end -/
  acyclic : ∀ (t : ℕ) (task : OwnedTask), s.tasks[t]? = some task →
    task.kind = .pump ∨ task.kind = .expiry → s.CleanupAwaits t →
    ¬ s.AwaitsCleanup t ∧ s.Enabled (.ends t)

theorem Fresh.orderly (h : s.Fresh) : Orderly s := by
  have htask : ∀ (t : ℕ) (task : OwnedTask), s.tasks[t]? ≠ some task := by simp [h.tasks]
  refine ⟨fun t ht => ?_, fun t task _ ht => absurd ht (htask t task),
    fun t task _ ht => absurd ht (htask t task), fun t task ht => absurd ht (htask t task),
    fun ts hts => ?_⟩
  · simp [Registered, h.readTasks, h.outboundTasks, h.pumpTask, h.expiryTask] at ht
  · simp [Lifecycle.phase, h.releaseTask] at hts

theorem orderly_run (h : s₀.Fresh) (hrun : Run s₀ trace s) : Orderly s :=
  (hrun.history (I := fun trace s => Agrees trace s ∧ Orderly s) ⟨h.agrees, h.orderly⟩
    fun _ _ _ _ _ hi hs => ⟨hi.1.step hs, hi.2.step hi.1.released hs⟩).2

theorem accounts_run (h : s₀.Fresh) (hrun : Run s₀ trace s) (ht : s.Registered t) : Accounts t s := by
  have h0 : ∀ t, ¬ s₀.Registered t := fun t ht => by
    simp [Registered, h.readTasks, h.outboundTasks, h.pumpTask] at ht
  exact (hrun.history (I := fun trace s => Agrees trace s ∧ ∀ t, s.Registered t → Accounts t s)
    ⟨h.agrees, fun t ht => absurd ht (h0 t)⟩ fun _ _ _ _ _ hi hs =>
    ⟨hi.1.step hs, accounts_step hi.2 hi.1.released (hi.1.step hs).released hs⟩).2 t ht

theorem accounts_since {m : Lifecycle} {since : List LifecycleLabel} (hagrees : Agrees trace m)
    (hrun : Run m since s) (h : Accounts t m)
    (hun : ∀ label ∈ since, ∀ a, label.1 ≠ .unregistersOutbound t a) : Accounts t s := by
  have hinv : (∃ trace, Agrees trace s) ∧ Accounts t s := by
    refine hrun.invariant_mem (I := fun s => (∃ trace, Agrees trace s) ∧ Accounts t s) ?_
      ⟨⟨trace, hagrees⟩, h⟩
    rintro n label hlabel n' ⟨⟨trace', ha⟩, hacc⟩ hs
    exact ⟨⟨_, ha.step hs⟩, hacc.step ha.released hs fun ht he =>
      registered_step hs ht he (hun label hlabel)⟩
  exact hinv.2

/-- When the controller is closed, the lease accounts for no task that is not done. -/
theorem Accounts.isDone (h : Accounts t s) (hphase : s.phase = some .closingWebsocket)
    (hi : s.initiator ≠ some t) : s.isDone t = true := by
  rcases h with ⟨hnone, -⟩ | h | h
  · simp [Lifecycle.phase, hnone] at hphase
  · exact absurd h hi
  · rcases h.joined with hd | ⟨hp, -⟩ | ⟨ts, hp, -⟩
    · exact hd
    · cases hphase.symm.trans hp
    · cases hphase.symm.trans hp

theorem cleanup_phase {x : Ended LeaseFault Unit} : s.cleanup = some x ↔ s.phase = some (.ended x) := by
  unfold cleanup Lifecycle.phase
  cases s.releaseTask with
  | none => simp
  | some r =>
    obtain ⟨i, p⟩ := r
    cases p <;> simp

/-- The cleanup waits for no pump and no task that runs `expire` that waits for it. -/
theorem Orderly.acyclic (h : Orderly s) {task : OwnedTask} (ht : s.tasks[t]? = some task)
    (hkind : task.kind = .pump ∨ task.kind = .expiry) (hawaits : s.CleanupAwaits t) :
    ¬ s.AwaitsCleanup t ∧ s.Enabled (.ends t) := by
  obtain ⟨ts, hphase, hmem, hopen⟩ := hawaits
  obtain ⟨hi, task', ht', hcancel⟩ := h.joining ts hphase t hmem
  obtain rfl : task = task' := Option.some.inj (ht.symm.trans ht')
  have hdone : task.isDone = false := by simpa [isDone, ht] using hopen
  have hno : ∀ first w, task.state ≠ .releasing first w := by
    intro first w hst
    cases first with
    | true => exact hi (h.first t task w ht hst)
    | false =>
      rcases h.later t task w ht hst with ho | ⟨reason, ho⟩
      · rcases hkind with hk | hk
        · cases hk.symm.trans ho
        · cases hk.symm.trans ho
      · rcases hkind with hk | hk
        · cases hk.symm.trans ho
        · cases hk.symm.trans ho
  constructor
  · rintro ⟨task', ht', first, w, hst⟩
    obtain rfl : task = task' := Option.some.inj (ht.symm.trans ht')
    exact hno first w hst
  · have hc : task.cancelling = true := by simpa [hdone] using hcancel
    have hrunning : task.state = .running := by
      cases hst : task.state with
      | created =>
        obtain ⟨reason, ho⟩ := h.created t task ht hst
        rcases hkind with hk | hk
        · cases hk.symm.trans ho
        · cases hk.symm.trans ho
      | running => rfl
      | releasing first w => exact absurd hst (hno first w)
      | ended result => simp [OwnedTask.isDone, hst] at hdone
    refine .inr (.inl ⟨⟨task, ht, ?_, hrunning⟩, fun hfree => ?_⟩)
    · simpa using hkind
    · rw [hfree task ht] at hc
      cases hc

/-- **A lease is released once**, when all that it owns is done, and each caller is told
    how it went. -/
theorem released_once (hfresh : s₀.Fresh) (hrun : Run s₀ trace s) : ReleasedOnce s₀ trace s := by
  have hagrees := agrees_run hfresh hrun
  -- the step of a label of the trace, and what the run before it comes to
  have hat : ∀ {before label after}, trace = before ++ label :: after →
      ∃ m m', Run s₀ before m ∧ Step m label m' ∧ Agrees before m := by
    rintro before label after rfl
    obtain ⟨m, hm, hrest⟩ := hrun.split
    cases hrest with
    | cons hs _ => exact ⟨m, _, hm, hs, agrees_run hfresh hm⟩
  refine ⟨?_, ⟨?_, ?_⟩, ?_, ?_, ?_⟩
  · rw [hagrees.closed]
    exact Bool.toNat_le _
  · rw [hagrees.told]
    exact Bool.toNat_le _
  · intro before label after htrace hout
    obtain ⟨m, m', hm, hs, ha⟩ := hat htrace
    cases step_stage hs with
    | kept _ hno => exact absurd hout hno
    | @ended result out hphase hiff =>
      refine ⟨?_, by rw [(hiff.1 hout).1]⟩
      rw [ha.closed, hphase]
      rfl
    | _ => cases hout
  · intro before since closing after m n n' t htrace hm hn hs hclose hreg hi hun
    have hphase : n.phase = some .closingWebsocket := by
      have hen := hs.1
      rw [hclose] at hen
      exact hen
    exact (accounts_since (agrees_run hfresh hm) hn (accounts_run hfresh hm hreg) hun).isDone hphase hi
  · intro before label after result htrace hout
    obtain ⟨m, m', hm, hs, ha⟩ := hat htrace
    cases step_tasked ha.released hs with
    | quiet _ hno => exact absurd hout (hno result)
    | @leaves e u x first c task _ _ hcleanup =>
      cases hout
      refine ⟨?_, m, x, hm, hcleanup, ?_, ?_⟩
      · rw [ha.closed, cleanup_phase.1 hcleanup]
        rfl
      · rintro e rfl
        rfl
      · intro b hb
        obtain ⟨⟨⟩, rfl, -⟩ := map_returned.1 (after_returned.1 hb).1
        rfl
    | _ => cases hout
  · intro t task ht hkind hawaits
    exact (orderly_run hfresh hrun).acyclic ht hkind hawaits

/-- The pump, a sender and a task that reads are joined, while a caller of `release` is
    cancelled. -/
def releaseRun : List LifecycleEvent :=
  [.starts, .begins, .attaches 2 false, .registersOutbound 2 0, .reads, .begins,
    .calls 4 "device_revoked", .cancels 4, .resumes 4, .cleansUp, .ends 0, .ends 2, .ends 3, .joins,
    .websocketCloses, .controllerCloses (.returned ()), .resumes 4]

theorem releaseRun_executes : (execution Enabled perform { hasOnRelease := true } releaseRun).any
    (fun r => decide (closings r.2 = 1 ∧ notices r.2 = 1 ∧ r.1.releaseSucceeded = true ∧
      (.resumes 4, .released .cancelled) ∈ r.2)) = true := by decide

theorem released_once_cancelled : ∃ trace s, Run { hasOnRelease := true } trace s ∧
    closings trace = 1 ∧ notices trace = 1 ∧ s.releaseSucceeded = true ∧
    (.resumes 4, .released .cancelled) ∈ trace ∧ ReleasedOnce { hasOnRelease := true } trace s := by
  obtain ⟨r, hr, h⟩ := (Option.any_eq_true _ _).1 releaseRun_executes
  obtain ⟨h1, h2, h3, h4⟩ := of_decide_eq_true h
  have hrun : Run { hasOnRelease := true } r.2 r.1 := run_of_execution hr
  exact ⟨r.2, r.1, hrun, h1, h2, h3, h4,
    released_once ⟨rfl, rfl, rfl, rfl, rfl, rfl, rfl, rfl, rfl, rfl⟩ hrun⟩

end Runs

/-! ## The release of the lease -/

section Refines

variable {s₀ s s' : Lifecycle} {l : Lease} {trace : List LifecycleLabel} {label : LifecycleLabel}

/-- The lease sees of its release what there is to see. -/
structure Refines (s : Lifecycle) (l : Lease) : Prop where
  released : l.released = s.released
  reason : l.releaseReason = s.releaseReason
  succeeded : l.releaseSucceeded = s.releaseSucceeded

theorem Refines.of_stage (h : s.Refines l) (hst : s'.stage = s.stage) : s'.Refines l :=
  ⟨h.released.trans (congrArg Stage.released hst).symm,
    h.reason.trans (congrArg Stage.releaseReason hst).symm,
    h.succeeded.trans (congrArg Stage.releaseSucceeded hst).symm⟩

/-- What happened to the lease: it was released, and then that came to an end. -/
def story (s : Lifecycle) : List LeaseEvent :=
  s.releaseReason.toList.map .release ++
    s.cleanup.toList.map fun x => .finishRelease (x = .returned ())

theorem story_of_stage (h : s'.stage = s.stage) : s'.story = s.story := by
  have hreason : s'.releaseReason = s.releaseReason := congrArg Stage.releaseReason h
  have htask : s'.releaseTask = s.releaseTask := congrArg Stage.releaseTask h
  unfold story cleanup
  rw [hreason, htask]

theorem cleanup_eq_none {p : ReleasePhase} (h : s.phase = some p) (hp : ∀ x, p ≠ .ended x) :
    s.cleanup = none := by
  rw [Option.eq_none_iff_forall_ne_some]
  intro x hx
  exact hp x (Option.some.inj (h.symm.trans (cleanup_phase.1 hx)))

/-- A step within the cleanup. -/
theorem story_of_phase {p p' : ReleasePhase} (hreason : s'.releaseReason = s.releaseReason)
    (h : s.phase = some p) (hp : ∀ x, p ≠ .ended x) (h' : s'.phase = some p')
    (hp' : ∀ x, p' ≠ .ended x) : s'.story = s.story := by
  unfold story
  rw [hreason, cleanup_eq_none h hp, cleanup_eq_none h' hp']

/-- A run of the lease tells its story, and the lease sees what there is to see. -/
structure Tells (l : Lease) (s : Lifecycle) : Prop where
  reason : s.releaseReason.isSome = s.releaseTask.isSome
  told : ∃ labels l', Lease.Run l labels l' ∧ labels.map Prod.fst = s.story ∧ s.Refines l'

theorem Tells.of_stage (h : Tells l s) (hst : s'.stage = s.stage) : Tells l s' := by
  obtain ⟨labels, l', hrun, hstory, href⟩ := h.told
  refine ⟨?_, labels, l', hrun, hstory.trans (story_of_stage hst).symm, href.of_stage hst⟩
  have hreason : s'.releaseReason = s.releaseReason := congrArg Stage.releaseReason hst
  have htask : s'.releaseTask = s.releaseTask := congrArg Stage.releaseTask hst
  rw [hreason, htask]
  exact h.reason

theorem beginCleanup_reason {t : ℕ} : (s.beginCleanup t).releaseReason = s.releaseReason := by
  unfold beginCleanup
  dsimp only
  split
  · rfl
  · rfl

/-- The first call of `release`, as the lease takes it. -/
theorem Refines.fence {reason : String} (h : s.Refines l) (hopen : s.released = false)
    (h1 : s'.released = true) (h2 : s'.releaseReason = some reason)
    (h3 : s'.releaseSucceeded = s.releaseSucceeded) : s'.Refines (l.release reason) := by
  have hl : l.released = false := h.released.trans hopen
  unfold Lease.release
  rw [if_neg (by simp [hl])]
  dsimp only
  split
  · exact ⟨h1.symm, h2.symm, h.succeeded.trans h3.symm⟩
  · exact ⟨h1.symm, h2.symm, h.succeeded.trans h3.symm⟩

/-- The end of the cleanup, as the lease takes it. -/
theorem Refines.finish {result : Ended Unit Unit} (h : s.Refines l) :
    (s.endCleanup result).Refines (l.finishRelease (result = .returned ())) := by
  cases result with
  | returned => exact ⟨h.released, h.reason, by simp [Lease.finishRelease, endCleanup, setPhase]⟩
  | raised e =>
    exact ⟨h.released, h.reason, by simp [Lease.finishRelease, endCleanup, setPhase, h.succeeded]⟩
  | cancelled =>
    exact ⟨h.released, h.reason, by simp [Lease.finishRelease, endCleanup, setPhase, h.succeeded]⟩

/-- A step within the cleanup tells nothing. -/
theorem Tells.part (h : Tells l s) {p p' : ReleasePhase} (hp : s.phase = some p)
    (hne : ∀ x, p ≠ .ended x) (hp' : s'.phase = some p') (hne' : ∀ x, p' ≠ .ended x)
    (hkeeps : s'.released = s.released ∧ s'.hasOnRelease = s.hasOnRelease ∧
      s'.releaseSucceeded = s.releaseSucceeded ∧ s'.releaseTask.isSome = s.releaseTask.isSome)
    (hreason : s'.releaseReason = s.releaseReason) : Tells l s' := by
  obtain ⟨labels, l', hrun, hstory, href⟩ := h.told
  obtain ⟨h1, -, h3, h4⟩ := hkeeps
  refine ⟨by rw [hreason, h4, h.reason], labels, l', hrun, ?_, ?_⟩
  · rw [hstory, story_of_phase hreason hp hne hp' hne']
  · exact ⟨href.released.trans h1.symm, href.reason.trans hreason.symm,
      href.succeeded.trans h3.symm⟩

theorem Tells.step (h : Tells l s) (hrel : s.released = s.releaseTask.isSome)
    (hs : Step s label s') : Tells l s' := by
  cases step_stage hs with
  | kept _ _ hst => exact h.of_stage hst
  | @fenced e u reason _ _ hnone hst =>
    obtain ⟨labels, l', hrun, hstory, href⟩ := h.told
    have h1 : s'.released = true := congrArg Stage.released hst
    have h2 : s'.releaseReason = some reason := congrArg Stage.releaseReason hst
    have h3 : s'.releaseTask = some { initiator := u } := congrArg Stage.releaseTask hst
    have hnew : s.releaseReason = none := by
      have hreason := h.reason
      rw [hnone] at hreason
      simpa using hreason
    have hrelease : Lease.Step l' (.release reason, .done) (l'.release reason) := ⟨trivial, rfl⟩
    refine ⟨by simp [h2, h3], labels ++ [(.release reason, .done)], l'.release reason,
      hrun.snoc hrelease, ?_,
      href.fence (by simp [hrel, hnone]) h1 h2 (congrArg Stage.releaseSucceeded hst)⟩
    rw [List.map_append, hstory]
    simp [story, cleanup, hnew, hnone, h2, h3]
  | @begun u hr =>
    have hp : s.phase = some .created := by simp [Lifecycle.phase, hr]
    refine h.part hp nofun (beginCleanup_phase hp) (fun x => ?_) (beginCleanup_keeps u)
      beginCleanup_reason
    split
    · nofun
    · nofun
  | joined hp => exact h.part hp nofun (joined_phase hp) nofun (setPhase_keeps _) rfl
  | closing hp => exact h.part hp nofun (setPhase_phase hp) nofun (setPhase_keeps _) rfl
  | @ended result out hp =>
    obtain ⟨labels, l', hrun, hstory, href⟩ := h.told
    have hsome : s.releaseTask.isSome = true := by
      obtain ⟨r, hr, -⟩ := Option.map_eq_some_iff.1 hp
      simp [hr]
    have hl : l'.released = true := href.released.trans (hrel.trans hsome)
    have hreason : (s.endCleanup result).releaseReason = s.releaseReason := by
      cases result <;> rfl
    have hfinish : Lease.Step l' (.finishRelease (result = .returned ()), .done)
        (l'.finishRelease (result = .returned ())) := ⟨hl, rfl⟩
    refine ⟨?_, labels ++ [(.finishRelease (result = .returned ()), .done)],
      l'.finishRelease (result = .returned ()), hrun.snoc hfinish, ?_, href.finish⟩
    · rw [hreason, h.reason]
      cases result <;> simp [endCleanup, setPhase]
    · rw [List.map_append, hstory]
      unfold story
      rw [hreason, cleanup_eq_none hp nofun, cleanup_phase.2 (endCleanup_phase hp)]
      cases result <;> simp

/-- **For the lease, it is a release and then its end.** -/
theorem refines_run (hfresh : s₀.Fresh) (hrun : Run s₀ trace s) (h : s₀.Refines l) :
    ∃ labels l', Lease.Run l labels l' ∧ labels.map Prod.fst = s.story ∧ s.Refines l' := by
  have h0 : Tells l s₀ := by
    refine ⟨by simp [hfresh.releaseReason, hfresh.releaseTask], [], l, .nil, ?_, h⟩
    simp [story, hfresh.releaseReason, cleanup, hfresh.releaseTask]
  exact (hrun.history (I := fun trace s => Agrees trace s ∧ Tells l s) ⟨hfresh.agrees, h0⟩
    fun _ _ _ _ _ hi hs => ⟨hi.1.step hs, hi.2.step hi.1.released hs⟩).2.told

end Refines

end Lifecycle

end MercuryRelay
