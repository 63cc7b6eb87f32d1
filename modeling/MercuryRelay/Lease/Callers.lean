/-
  A task of which the whole body is a call of `release`, as `_release_all` makes
  them.

  It is on none of the rosters of its lease, so it is cancelled only from
  outside.  Where it is not, it calls `release`, and ends with what that comes
  to.
-/
import MercuryRelay.Lease.Release

set_option autoImplicit false

namespace MercuryRelay

open Shield Transition

namespace Lifecycle

section Cancelling

variable {s s' : Lifecycle} {label : LifecycleLabel} {a t current : ℕ}

/-- The task `t` is on no roster. -/
def Apart (s : Lifecycle) (t : ℕ) : Prop := ¬ s.Registered t ∧ s.expiryTask ≠ some t

/-- Whether the cancellation of a task was requested. -/
def cancelling (s : Lifecycle) (t : ℕ) : Option Bool := (s.tasks[t]?).map (·.cancelling)

theorem modifyTask_cancelling {f : OwnedTask → OwnedTask} (u : ℕ)
    (hf : ∀ task, (f task).cancelling = task.cancelling) :
    (s.modifyTask u f).cancelling t = s.cancelling t := by
  unfold cancelling
  rw [modifyTask_getElem, Option.map_map]
  congr 1
  funext task
  by_cases hu : u = t
  · simp [hu, hf]
  · simp [hu]

theorem cancel_cancelling {u : ℕ} (h : u ≠ t) :
    ({ s with tasks := s.tasks.modify u OwnedTask.cancel } : Lifecycle).cancelling t =
      s.cancelling t := by
  unfold cancelling
  simp only [List.getElem?_modify, if_neg h]
  simp

theorem create_cancelling {kind : TaskKind} {state : TaskState} (ht : t < s.tasks.length) :
    (s.create kind state).cancelling t = s.cancelling t := by
  unfold cancelling create
  rw [List.getElem?_append_left ht]

theorem cancelExpiry_cancelling (h : s.expiryTask ≠ some t) :
    s.cancelExpiry.cancelling t = s.cancelling t := by
  unfold cancelExpiry
  split
  · rfl
  · rename_i u hu
    refine cancel_cancelling (s := { s with expiryTask := none }) ?_
    rintro rfl
    exact h hu

theorem scheduleExpiry_cancelling (h : s.expiryTask ≠ some t) (ht : t < s.tasks.length) :
    s.scheduleExpiry.cancelling t = s.cancelling t := by
  unfold scheduleExpiry
  dsimp only
  split
  · exact cancelExpiry_cancelling h
  · have hlen : s.tasks.length ≤ s.cancelExpiry.tasks.length := cancelExpiry_quiet.1
    exact (create_cancelling (Nat.lt_of_lt_of_le ht hlen)).trans (cancelExpiry_cancelling h)

theorem start_cancelling (h : s.expiryTask ≠ some t) (ht : t < s.tasks.length) :
    s.start.cancelling t = s.cancelling t := by
  unfold start
  split
  · rfl
  · have hlt : t < (s.create .pump .running).tasks.length := by
      simp only [create, List.length_append, List.length_singleton]
      omega
    exact (scheduleExpiry_cancelling
      (s := { s.create .pump .running with pumpTask := some s.next }) h hlt).trans
      (create_cancelling ht)

theorem interrupt_cancelling {ts : List ℕ} (h : t ∉ ts) :
    ({ s with tasks := interrupt s.tasks ts } : Lifecycle).cancelling t = s.cancelling t := by
  unfold cancelling interrupt
  rw [List.getElem?_mapIdx, Option.map_map]
  simp [Function.comp_def, h]

theorem markDetached_cancelling (h : t ∉ s.outboundTasks.map (·.1)) :
    (s.markDetached a current).cancelling t = s.cancelling t := by
  refine interrupt_cancelling fun hm => h ?_
  obtain ⟨o, ho, rfl⟩ := List.mem_map.1 hm
  exact List.mem_map_of_mem (List.mem_of_mem_filter ho)

theorem Apart.outbound (h : s.Apart t) : t ∉ s.outboundTasks.map (·.1) :=
  fun ht => h.1 (.inr (.inl ht))

theorem scheduleExpiry_outboundTasks : s.scheduleExpiry.outboundTasks = s.outboundTasks := by
  obtain ⟨x, hr, -⟩ := scheduleExpiry_rearmed (s := s)
  exact congrArg Roster.senders hr

theorem detach_cancelling (h : s.Apart t) (ht : t < s.tasks.length) :
    (s.detach a current).cancelling t = s.cancelling t := by
  unfold detach
  split
  · have hout : t ∉ (scheduleExpiry { s with attachment := none }).outboundTasks.map (·.1) := by
      rw [scheduleExpiry_outboundTasks]
      exact h.outbound
    exact (markDetached_cancelling hout).trans
      (scheduleExpiry_cancelling (s := { s with attachment := none }) h.2 ht)
  · exact markDetached_cancelling h.outbound

theorem attach_cancelling {replace : Bool} (hx : s.attach current replace = some s')
    (h : s.Apart t) : s'.cancelling t = s.cancelling t := by
  unfold attach at hx
  split at hx
  · cases hx
  · split at hx
    · rename_i b _
      split at hx
      · cases hx
        exact (cancelExpiry_cancelling (s := { s.markDetached b current with
          attachments := (s.markDetached b current).attachments ++ [false]
          attachment := some s.attachments.length }) h.2).trans (markDetached_cancelling h.outbound)
      · cases hx
    · cases hx
      exact cancelExpiry_cancelling (s := { s with
        attachments := s.attachments ++ [false]
        attachment := some s.attachments.length }) h.2

theorem fence_cancelling {u : ℕ} {reason : String} (h : s.Apart t) :
    (s.fence u reason).cancelling t = s.cancelling t := by
  unfold fence
  dsimp only
  split
  · rfl
  · exact markDetached_cancelling (s := { s with
      released := true, releaseReason := some reason, releaseTask := some { initiator := u }
      attachment := none }) h.outbound

theorem answer_cancelling {u : ℕ} {reason : String} {out : LifecycleOutput}
    (hx : answer (s.release u reason) = (s', out)) (h : s.Apart t) :
    s'.cancelling t = s.cancelling t := by
  rcases hr : s.release u reason with ⟨s'', result⟩
  rw [hr] at hx
  rcases release_cases hr with ⟨-, rfl, rfl⟩ | ⟨-, -, rfl, rfl⟩ | ⟨x, -, rfl, rfl⟩
  · cases hx
    have hawait : ∀ task : OwnedTask, (task.await true).cancelling = task.cancelling := fun _ => rfl
    exact (modifyTask_cancelling u hawait).trans (fence_cancelling h)
  · cases hx
    exact modifyTask_cancelling u fun _ => rfl
  · cases hx
    exact modifyTask_cancelling u fun _ => rfl

theorem releaseUnless_cancelling {u : ℕ} {reason : String} {out : LifecycleOutput}
    (hx : s.releaseUnless u reason = (s', out)) (h : s.Apart t) :
    s'.cancelling t = s.cancelling t := by
  unfold releaseUnless at hx
  split at hx
  · cases hx
    exact modifyTask_cancelling u fun _ => rfl
  · exact answer_cancelling hx h

theorem beginCleanup_cancelling {i : ℕ} (h : s.Apart t) :
    (s.beginCleanup i).cancelling t = s.cancelling t := by
  have howned : t ∉ s.owned i := fun ht => (mem_owned.1 ht).1.elim h.1 h.2
  have hint : ({ s with expiryTask := none, tasks := interrupt s.tasks (s.owned i) } :
      Lifecycle).cancelling t = s.cancelling t :=
    interrupt_cancelling (s := { s with expiryTask := none }) howned
  unfold beginCleanup
  dsimp only
  split
  · exact hint
  · exact hint

theorem attempt_cancelling {r : Option Lifecycle} {out : LifecycleOutput}
    (hx : s.attempt r = (s', out)) (h : ∀ m, r = some m → m.cancelling t = s.cancelling t) :
    s'.cancelling t = s.cancelling t := by
  cases r with
  | none =>
    cases hx
    rfl
  | some m =>
    cases hx
    exact h _ rfl

/-- **A task that is on no roster is cancelled only from outside.** -/
theorem cancelling_step (hs : Step s label s') (h : s.Apart t) (ht : t < s.tasks.length)
    (hne : label.1 ≠ .cancels t) : s'.cancelling t = s.cancelling t := by
  obtain ⟨e, out⟩ := label
  obtain ⟨hen, hx⟩ := hs
  cases e with
  | starts => cases hx; exact start_cancelling h.2 ht
  | begins => cases hx; exact create_cancelling ht
  | schedules reason => cases hx; exact create_cancelling ht
  | attaches current replace => exact attempt_cancelling hx fun _ hm => attach_cancelling hm h
  | detaches a current => cases hx; exact detach_cancelling h ht
  | reads | mutates =>
    refine attempt_cancelling hx fun m hm => ?_
    unfold startLocal at hm
    split at hm
    · cases hm
    · cases hm
      exact create_cancelling ht
  | registersOutbound u a =>
    refine attempt_cancelling hx fun m hm => ?_
    unfold registerOutbound at hm
    split at hm
    · cases hm
    · cases hm
      rfl
  | unregistersOutbound u a => cases hx; rfl
  | ends u => cases hx; exact modifyTask_cancelling u fun _ => rfl
  | discards u => cases hx; rfl
  | cancels u =>
    cases hx
    refine cancel_cancelling fun hu => hne ?_
    rw [hu]
  | pumpStops reason =>
    simp only [perform] at hx
    split at hx
    · cases hx
      rfl
    · exact releaseUnless_cancelling hx h
  | overflows => cases hx; exact create_cancelling ht
  | expires u => exact releaseUnless_cancelling hx h
  | runs u =>
    simp only [perform] at hx
    split at hx
    · exact answer_cancelling hx h
    · cases hx
      rfl
  | calls u reason => exact answer_cancelling hx h
  | cleansUp =>
    simp only [perform] at hx
    split at hx
    · cases hx
      rfl
    · cases hx
      exact beginCleanup_cancelling h
  | joins => cases hx; rfl
  | websocketCloses => cases hx; rfl
  | controllerCloses result =>
    simp only [perform, Prod.mk.injEq] at hx
    obtain ⟨rfl, -⟩ := hx
    cases result <;> rfl
  | resumes u =>
    simp only [perform] at hx
    split at hx
    · rename_i kind first waiter cancelling htask
      rcases hr : s.resume u first waiter with ⟨s'', result⟩
      rw [hr] at hx
      rcases resume_cases hr with ⟨-, rfl, rfl⟩ | ⟨x, -, rfl, rfl⟩
      · cases hx
        exact modifyTask_cancelling u fun _ => rfl
      · cases hx
        exact modifyTask_cancelling u fun _ => rfl
    · cases hx
      rfl

end Cancelling

section Child

variable {s s' : Lifecycle} {label : LifecycleLabel} {t : ℕ}

theorem Apart.step (h : s.Apart t) (hs : Step s label s') {task : OwnedTask}
    (ht : s.tasks[t]? = some task) (hkind : task.kind ≠ .outer) : s'.Apart t := by
  have hlt : t < s.tasks.length := (List.getElem?_eq_some_iff.1 ht).1
  have hreads : t ∉ s.readTasks := fun hm => h.1 (.inl hm)
  have hsenders : t ∉ s.outboundTasks.map (·.1) := h.outbound
  have hpump : s.pumpTask ≠ some t := fun hm => h.1 (.inr (.inr hm))
  have hof : ∀ {r : Roster}, s'.roster = r → t ∉ r.reads → t ∉ r.senders.map (·.1) →
      r.pump ≠ some t → r.expiry ≠ some t → s'.Apart t := by
    rintro r rfl h1 h2 h3 h4
    refine ⟨?_, h4⟩
    rintro (hm | hm | hm)
    · exact h1 hm
    · exact h2 hm
    · exact h3 hm
  have hnew : ∀ {x : Option ℕ}, (∀ u ∈ x, s.expiryTask = some u ∨ s.tasks.length ≤ u ∧
      u < s'.tasks.length) → x ≠ some t := by
    rintro x hx rfl
    rcases hx t rfl with hm | ⟨hle, -⟩
    · exact h.2 hm
    · omega
  cases step_rostered hs with
  | rearmed hr =>
    obtain ⟨x, hr, hx⟩ := hr
    exact hof hr hreads hsenders hpump (hnew hx)
  | started _ _ _ hr hx =>
    refine hof hr hreads hsenders (fun hm => ?_) (hnew hx)
    obtain rfl : s.tasks.length = t := Option.some.inj hm
    omega
  | reading _ _ hr =>
    refine hof hr (fun hm => ?_) hsenders hpump h.2
    rcases List.mem_append.1 hm with hm | hm
    · exact hreads hm
    · obtain rfl : t = s.tasks.length := by simpa using hm
      omega
  | sending _ hruns hr =>
    refine hof hr hreads (fun hm => ?_) hpump h.2
    obtain ⟨o, ho, rfl⟩ := List.mem_map.1 hm
    rcases List.mem_insert_iff.1 ho with rfl | ho
    · obtain ⟨task', ht', hk, -⟩ := hruns
      obtain rfl : task = task' := Option.some.inj (ht.symm.trans ht')
      exact hkind (by simpa using hk)
    · exact hsenders (List.mem_map_of_mem ho)
  | unsending hr =>
    refine hof hr hreads (fun hm => hsenders ?_) hpump h.2
    obtain ⟨o, ho, rfl⟩ := List.mem_map.1 hm
    exact List.mem_map_of_mem (List.mem_of_mem_filter ho)
  | discarded _ hr =>
    exact hof hr (fun hm => hreads (List.mem_of_mem_filter hm)) hsenders hpump h.2
  | cleaning hr =>
    rcases beginCleanup_roster with hroster | hroster
    · exact hof hroster (by simp) (by simp) hpump (by simp)
    · exact hof hroster hreads hsenders hpump (by simp)
  | joined => exact hof (r := ⟨[], [], s.pumpTask, s.expiryTask⟩) rfl (by simp) (by simp) hpump h.2

theorem cleanup_step (hs : Step s label s') {x : Ended LeaseFault Unit} (h : s.cleanup = some x) :
    s'.cleanup = some x := by
  have hp := cleanup_phase.1 h
  cases step_stage hs with
  | kept _ _ hst => exact cleanup_phase.2 ((phase_of_stage hst).trans hp)
  | fenced _ hnone => simp [cleanup, hnone] at h
  | begun hr => simp [cleanup, hr] at h
  | joined h' => cases hp.symm.trans h'
  | closing h' => cases hp.symm.trans h'
  | ended h' => cases hp.symm.trans h'

theorem cleanup_releaseTask {x : Ended LeaseFault Unit} (h : s.cleanup = some x) :
    s.releaseTask.isSome = true := by
  obtain ⟨r, hr, -⟩ := Option.map_eq_some_iff.1 (cleanup_phase.1 h)
  simp [hr]

theorem releaseTask_step (hs : Step s label s') (h : s.releaseTask.isSome = true) :
    s'.releaseTask.isSome = true := by
  rw [← initiator_isSome, Option.isSome_iff_exists] at h ⊢
  obtain ⟨i, hi⟩ := h
  exact ⟨i, initiator_step hs hi⟩

theorem releaseSucceeded_step (hs : Step s label s') (h : s.releaseSucceeded = true) :
    s'.releaseSucceeded = true := by
  cases step_stage hs with
  | kept _ _ hst => exact (congrArg Stage.releaseSucceeded hst).trans h
  | fenced _ _ hst => exact (congrArg Stage.releaseSucceeded hst).trans h
  | begun hr => exact (beginCleanup_keeps _).2.2.1.trans h
  | joined => exact h
  | closing => exact h
  | @ended result =>
    cases result with
    | returned => rfl
    | raised => exact h
    | cancelled => exact h

/-- How far a task is of which the whole body is a call of `release`, if it is not
    cancelled from outside. -/
inductive Progress (s : Lifecycle) (task : OwnedTask) : Prop
  | created : task.state = .created → task.cancelling = false → Progress s task
  | waiting {first w} : s.releaseTask.isSome = true → task.state = .releasing first w → Progress s task
  | ended {x first c} : s.cleanup = some x →
      task.state = .ended (some ((x.map fun _ => first).after c)) → Progress s task

/-- Such a task, on no roster. -/
structure Child (t : ℕ) (s : Lifecycle) : Prop where
  apart : s.Apart t
  progress : ∃ task reason, s.tasks[t]? = some task ∧ task.kind = .release reason ∧ s.Progress task

/-- **It calls `release`, and ends with what that comes to.** -/
theorem Child.step (h : Child t s) (hrel : s.released = s.releaseTask.isSome)
    (hs : Step s label s') (hne : label.1 ≠ .cancels t) : Child t s' := by
  obtain ⟨hapart, task, reason, ht, hkind, hprog⟩ := h
  have hx := step_tasked hrel hs
  have hlt : t < s.tasks.length := (List.getElem?_eq_some_iff.1 ht).1
  obtain ⟨task', ht', hkind', -, -⟩ := hx.task ht
  refine ⟨hapart.step hs ht (by simp [hkind]), task', reason, ht', hkind'.trans hkind, ?_⟩
  have hcancel : task'.cancelling = task.cancelling := by
    have hc := cancelling_step hs hapart hlt hne
    simpa [cancelling, ht, ht'] using hc
  -- the task goes on as before
  have hsame : task.Alike task' → s'.Progress task' := by
    intro ha
    cases hprog with
    | created hst hf =>
      rcases ha.state with h1 | ⟨first, w, w', h1, -⟩
      · exact .created (h1.trans hst) (hcancel.trans hf)
      · cases hst.symm.trans h1
    | waiting hsome hst =>
      rcases ha.state with h1 | ⟨first, w, w', -, h2⟩
      · exact .waiting (releaseTask_step hs hsome) (h1.trans hst)
      · exact .waiting (releaseTask_step hs hsome) h2
    | ended hc hst =>
      rcases ha.state with h1 | ⟨first, w, w', h1, -⟩
      · exact .ended (cleanup_step hs hc) (h1.trans hst)
      · cases hst.symm.trans h1
  have hquiet : ∀ {m : Lifecycle}, Quiet s m → m.tasks[t]? = some task' → task.Alike task' := by
    intro m hq hm
    rcases hq.2 t task' hm with ⟨old, hold, ha⟩ | ⟨hnone, -⟩
    · obtain rfl : task = old := Option.some.inj (ht.symm.trans hold)
      exact ha
    · rw [ht] at hnone
      cases hnone
  -- another task acts
  have hother : ∀ {m : Lifecycle} {u : ℕ} {f : OwnedTask → OwnedTask}, Quiet s m → u ≠ t →
      (m.modifyTask u f).tasks[t]? = some task' → s'.Progress task' := by
    intro m u f hq hu hm
    rw [modifyTask_getElem, Option.map_eq_some_iff] at hm
    obtain ⟨old, hold, rfl⟩ := hm
    rw [if_neg hu] at hquiet hsame ⊢
    exact hsame (hquiet hq hold)
  -- the task itself acts
  have hself : ∀ {m : Lifecycle} {f : OwnedTask → OwnedTask},
      (m.modifyTask t f).tasks[t]? = some task' → ∃ old, m.tasks[t]? = some old ∧ task' = f old := by
    intro m f hm
    rw [modifyTask_getElem, Option.map_eq_some_iff] at hm
    obtain ⟨old, hold, rfl⟩ := hm
    exact ⟨old, hold, by rw [if_pos rfl]⟩
  have hactive : task.IsActive → task.state = .created ∧ task.cancelling = false := by
    intro ha
    cases hprog with
    | created hst hf => exact ⟨hst, hf⟩
    | waiting _ hst => rcases ha with ha | ha <;> cases hst.symm.trans ha
    | ended _ hst => rcases ha with ha | ha <;> cases hst.symm.trans ha
  cases hx with
  | quiet hq => exact hsame (hquiet hq ht')
  | @finishes e u old hold ha hwhy =>
    by_cases hu : u = t
    · subst hu
      obtain rfl : task = old := Option.some.inj (ht.symm.trans hold)
      obtain ⟨hst, hf⟩ := hactive ha
      rcases hwhy with hr | hc
      · cases hst.symm.trans hr
      · cases hf.symm.trans hc
    · exact hother (.of_tasks rfl) hu ht'
  | @leads e u r old hold ha hnone =>
    by_cases hu : u = t
    · subst hu
      obtain ⟨old', -, rfl⟩ := hself ht'
      refine .waiting ?_ rfl
      have hfence := congrArg Stage.releaseTask (@fence_stage s u r)
      exact (congrArg Option.isSome hfence).trans rfl
    · exact hother fence_quiet hu ht'
  | @follows e u old hold ha hk hsome =>
    by_cases hu : u = t
    · subst hu
      obtain ⟨old', -, rfl⟩ := hself ht'
      exact .waiting hsome rfl
    · exact hother (.of_tasks rfl) hu ht'
  | @waits u first w old hold hst =>
    by_cases hu : u = t
    · subst hu
      obtain rfl : task = old := Option.some.inj (ht.symm.trans hold)
      obtain ⟨old', -, rfl⟩ := hself ht'
      cases hprog with
      | created hc => cases hc.symm.trans hst
      | waiting hsome => exact .waiting hsome rfl
      | ended _ he => cases he.symm.trans hst
    · exact hother (.of_tasks rfl) hu ht'
  | @leaves e u x first c old hold hopen hcleanup =>
    by_cases hu : u = t
    · subst hu
      obtain ⟨old', hold', rfl⟩ := hself ht'
      obtain rfl : task = old' := Option.some.inj (ht.symm.trans hold')
      exact @Progress.ended _ _ x first c hcleanup (by simp only [OwnedTask.leave, hkind])
    · exact hother (.of_tasks rfl) hu ht'

theorem Child.run {trace labels : List LifecycleLabel} (h : Child t s) (ha : Agrees trace s)
    (hrun : Run s labels s') (hne : ∀ label ∈ labels, label.1 ≠ .cancels t) : Child t s' := by
  have hinv : (∃ trace, Agrees trace s') ∧ Child t s' := by
    refine hrun.invariant_mem (I := fun s => (∃ trace, Agrees trace s) ∧ Child t s) ?_ ⟨⟨trace, ha⟩, h⟩
    rintro m label hlabel m' ⟨⟨trace', ha⟩, h⟩ hs
    exact ⟨⟨_, ha.step hs⟩, h.step ha.released hs (hne label hlabel)⟩
  exact hinv.2

theorem releaseSucceeded_run {labels : List LifecycleLabel} (hrun : Run s labels s')
    (h : s.releaseSucceeded = true) : s'.releaseSucceeded = true :=
  hrun.invariant (I := fun s => s.releaseSucceeded = true) (fun _ _ _ h hs => releaseSucceeded_step hs h) h

/-- It begins on no roster. -/
theorem Known.child (h : Known s) {reason : String} :
    Child s.next (s.create (.release reason) .created) := by
  have hno : ¬ (s.Registered s.next ∨ s.expiryTask = some s.next) := fun hm => by
    have hlt := h s.next hm
    simp [next] at hlt
  have htask : (s.create (.release reason) .created).tasks[s.next]? =
      some { kind := .release reason, state := .created } := by simp [create, next]
  exact ⟨⟨fun hm => hno (.inl hm), fun hm => hno (.inr hm)⟩, _, reason, htask, rfl, .created rfl rfl⟩

/-- The lease is released, or the task may run, and then it is. -/
theorem Child.fences (h : Child t s) (hrel : s.released = s.releaseTask.isSome) :
    s.released = true ∨ s.Enabled (.runs t) ∧ (s.perform (.runs t)).1.released = true := by
  obtain ⟨-, task, reason, ht, hkind, hprog⟩ := h
  cases hprog with
  | waiting hsome => exact .inl (hrel.trans hsome)
  | @ended x first c hc =>
    exact .inl (hrel.trans (cleanup_releaseTask hc))
  | created hst hf =>
    right
    have henabled : s.Enabled (.runs t) := by
      refine ⟨⟨task, ht, hst⟩, fun task' ht' => ?_⟩
      obtain rfl : task = task' := Option.some.inj (ht.symm.trans ht')
      exact hf
    obtain ⟨kind, state, cancelling⟩ := task
    obtain rfl : kind = .release reason := hkind
    have hperform : s.perform (.runs t) = answer (s.release t reason) := by
      simp only [perform, ht]
    refine ⟨henabled, ?_⟩
    rw [hperform]
    rcases hr : s.release t reason with ⟨m, result⟩
    rcases release_cases hr with ⟨-, rfl, rfl⟩ | ⟨hsome, -, rfl, rfl⟩ | ⟨x, hc, rfl, rfl⟩
    · exact congrArg Stage.released (fence_stage (s := s) (t := t))
    · exact hrel.trans hsome
    · exact hrel.trans (cleanup_releaseTask hc)

end Child

end Lifecycle

end MercuryRelay
