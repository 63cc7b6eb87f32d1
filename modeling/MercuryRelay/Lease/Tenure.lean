/-
  Who holds a lease, and when it expires (session_lease.py, `attach`, `detach`,
  `_schedule_expiry`).

  `Tenure` is the part of a lease that says who holds it.  It is abstract: one
  attachment after another holds the lease, and a timer runs while none does.
  Every step of a lease is a series of changes of its tenure.

  * `one_current_attachment`: an attachment is the current one as long as it is
    not detached, and one that lost its place or its lease gets nothing more.
  * `expiry_armed`: the timer runs while no attachment holds the lease.
-/
import Mathlib.Logic.Relation
import MercuryRelay.Lease.Delivery

set_option autoImplicit false

namespace MercuryRelay

open Python Lease

/-! ## Timers -/

namespace ExpiryTimer

/-- A task that is not done, and was not asked to end. -/
def Live (x : ExpiryTimer) (t : ℕ) : Prop :=
  ∃ task ∈ x.tasks[t]?, task.phase ≠ .done ∧ task.cancelling = false

/-- The task in `_expiry_task` is the one that is live. -/
def Sole (x : ExpiryTimer) : Prop := ∀ t, x.Live t ↔ x.task = some t

/-- A task that was created, and is live no more. -/
def Spent (x : ExpiryTimer) (t : ℕ) : Prop := t < x.tasks.length ∧ ¬ x.Live t

variable {x : ExpiryTimer} {t u : ℕ}

/-- What a change of task `u` does to the tasks that are live. -/
theorem live_modify {f : ExpiryTask → ExpiryTask} {task : Option ℕ} :
    Live ⟨x.tasks.modify u f, task⟩ t ↔
      ∃ old ∈ x.tasks[t]?, (if u = t then f old else old).phase ≠ .done ∧
        (if u = t then f old else old).cancelling = false := by
  unfold Live
  simp only [List.getElem?_modify, Option.mem_def, Option.map_eq_map, Option.map_eq_some_iff]
  constructor
  · rintro ⟨_, ⟨old, ho, rfl⟩, h⟩
    exact ⟨old, ho, h⟩
  · rintro ⟨old, ho, h⟩
    exact ⟨_, ⟨old, ho, rfl⟩, h⟩

/-- A change that revives no task. -/
theorem live_of_modify {f : ExpiryTask → ExpiryTask} {task : Option ℕ}
    (hf : ∀ old, (f old).phase ≠ .done → (f old).cancelling = false →
      old.phase ≠ .done ∧ old.cancelling = false)
    (h : Live ⟨x.tasks.modify u f, task⟩ t) : x.Live t := by
  obtain ⟨old, ho, h1, h2⟩ := live_modify.1 h
  split at h1
  · rename_i hu
    rw [if_pos hu] at h2
    exact ⟨old, ho, hf old h1 h2⟩
  · rename_i hu
    rw [if_neg hu] at h2
    exact ⟨old, ho, h1, h2⟩

theorem cancel_task : x.cancel.task = none := by
  unfold cancel
  split
  · assumption
  · rfl

theorem cancel_length : x.cancel.tasks.length = x.tasks.length := by
  unfold cancel
  split
  · rfl
  · exact List.length_modify _ _ _

theorem live_of_cancel (h : x.cancel.Live t) : x.Live t := by
  unfold cancel at h
  split at h
  · exact h
  · refine live_of_modify (fun old h1 h2 => ?_) h
    unfold ExpiryTask.cancel at h1 h2
    split at h1
    · exact absurd ‹_› h1
    · rename_i hd
      rw [if_neg hd] at h2
      cases h2

/-- The current task is not live once it is cancelled. -/
theorem cancel_not_live (hx : x.task = some t) : ¬ x.cancel.Live t := by
  intro h
  unfold cancel at h
  rw [hx] at h
  obtain ⟨old, -, h1, h2⟩ := live_modify.1 h
  simp only [if_true, ExpiryTask.cancel] at h1 h2
  split at h1
  · exact h1 ‹_›
  · rename_i hd
    rw [if_neg hd] at h2
    cases h2

theorem Sole.cancel (h : x.Sole) : x.cancel.Sole := by
  intro t
  rw [cancel_task]
  refine iff_of_false (fun hl => ?_) (by simp)
  exact cancel_not_live ((h t).1 (live_of_cancel hl)) hl

theorem create_live : x.create.Live t ↔ x.Live t ∨ t = x.tasks.length := by
  unfold Live create
  rcases Nat.lt_trichotomy t x.tasks.length with h | h | h
  · simp [List.getElem?_append_left h, Nat.ne_of_lt h]
  · subst h
    simp
  · rw [List.getElem?_eq_none (l := x.tasks) (by omega),
      List.getElem?_eq_none (by simp; omega)]
    simp
    omega

theorem Sole.create (h : x.Sole) (hx : x.task = none) : x.create.Sole := by
  intro t
  rw [create_live, h t, hx]
  show _ ↔ some x.tasks.length = some t
  simp [eq_comm]

theorem elapse_live (hs : ∃ task ∈ x.tasks[u]?, task.phase = .sleeping) :
    (x.elapse u).Live t ↔ x.Live t := by
  unfold elapse
  rw [live_modify]
  constructor
  · rintro ⟨old, ho, h1, h2⟩
    split at h2
    · rename_i hu
      subst hu
      obtain ⟨task, ht, hp⟩ := hs
      obtain rfl := Option.mem_unique ho ht
      exact ⟨old, ho, by simp [hp], h2⟩
    · rename_i hu
      rw [if_neg hu] at h1
      exact ⟨old, ho, h1, h2⟩
  · rintro ⟨old, ho, h1, h2⟩
    refine ⟨old, ho, ?_⟩
    split
    · exact ⟨by simp, h2⟩
    · exact ⟨h1, h2⟩

theorem live_of_finish (h : (x.finish u).Live t) : x.Live t :=
  live_of_modify (fun _ h1 _ => absurd rfl h1) h

/-- The end of a cancelled task leaves the live ones. -/
theorem Sole.finish (h : x.Sole) (hu : ¬ x.Live u) : (x.finish u).Sole := by
  intro t
  show _ ↔ x.task = some t
  rw [← h t]
  refine ⟨live_of_finish, fun ht => ?_⟩
  obtain ⟨task, hm, h1, h2⟩ := ht
  have hne : u ≠ t := fun he => hu (he ▸ ⟨task, hm, h1, h2⟩)
  exact live_modify.2 ⟨task, hm, by simp [hne, h1, h2]⟩

theorem finishAll_not_live : ¬ x.finishAll.Live t := by
  rintro ⟨task, hm, h1, -⟩
  obtain ⟨old, -, rfl⟩ := by simpa [finishAll] using hm
  exact h1 rfl

theorem Spent.cancel (h : x.Spent t) : x.cancel.Spent t :=
  ⟨by rw [cancel_length]; exact h.1, fun hl => h.2 (live_of_cancel hl)⟩

theorem Spent.create (h : x.Spent t) : x.create.Spent t := by
  constructor
  · exact h.1.trans_le (by simp [ExpiryTimer.create])
  · intro hl
    rcases create_live.1 hl with hl | rfl
    · exact h.2 hl
    · exact Nat.lt_irrefl _ h.1

theorem Spent.elapse (h : x.Spent t) (hs : ∃ task ∈ x.tasks[u]?, task.phase = .sleeping) :
    (x.elapse u).Spent t :=
  ⟨by simpa [ExpiryTimer.elapse] using h.1, fun hl => h.2 ((elapse_live hs).1 hl)⟩

theorem Spent.finish (h : x.Spent t) : (x.finish u).Spent t :=
  ⟨by simpa [ExpiryTimer.finish] using h.1, fun hl => h.2 (live_of_finish hl)⟩

theorem Spent.finishAll (h : x.Spent t) : x.finishAll.Spent t :=
  ⟨by simpa [ExpiryTimer.finishAll] using h.1, finishAll_not_live⟩

end ExpiryTimer

/-! ## Tenure -/

/-- What of a lease says who holds it, and when it expires. -/
@[ext]
structure Tenure where
  opened : ℕ
  attachment : Option ℕ
  released : Bool
  detached : ℕ → Bool
  pumpStarted : Bool
  expiry : ExpiryTimer

namespace Tenure

/-- The timer starts anew, if the lease wants one. -/
def schedule (x : Tenure) : Tenure :=
  { x with expiry :=
      if x.released ∨ x.attachment.isSome then x.expiry.cancel else x.expiry.cancel.create }

def mark (x : Tenure) (a : ℕ) : Tenure :=
  { x with detached := fun b => if b = a then true else x.detached b }

def detach (x : Tenure) (a : ℕ) : Tenure :=
  (if x.attachment = some a then schedule { x with attachment := none } else x).mark a

/-- A new attachment holds the lease, and the one before it no more. -/
def publish (x : Tenure) : Tenure :=
  { x with
    expiry := x.expiry.cancel
    opened := x.opened + 1
    attachment := some x.opened
    detached := fun b => if b = x.opened then false
      else if x.attachment = some b then true else x.detached b }

def release (x : Tenure) : Tenure :=
  { x with
    released := true
    attachment := none
    detached := fun b => if x.attachment = some b then true else x.detached b }

/-- What may happen to the tenure of a lease. -/
inductive Change : Tenure → Tenure → Prop
  | detach {x} (a) : Change x (x.detach a)
  | publish {x} : x.released = false → Change x x.publish
  | release {x} : x.released = false → Change x x.release
  | finish {x} : x.released = true → Change x { x with expiry := x.expiry.finishAll }
  | start {x} : x.released = false → x.pumpStarted = false →
      Change x { x with pumpStarted := true }.schedule
  | elapse {x} {t} : (∃ task ∈ x.expiry.tasks[t]?, task.phase = .sleeping) →
      Change x { x with expiry := x.expiry.elapse t }
  | ended {x} {t} : x.released = true ∨ ¬ x.expiry.Live t →
      Change x { x with expiry := x.expiry.finish t }
  | expired {x} {t} : x.released = false → x.expiry.Live t →
      Change x { x with expiry := x.expiry.finish t }.release

/-- A series of changes. -/
abbrev Changes := Relation.ReflTransGen Change

/-- What holds of every tenure: the current attachment is the one that is not
    detached, and while the lease is not released the timer runs if and only if
    there is none. -/
structure Valid (x : Tenure) : Prop where
  current : ∀ a, x.attachment = some a ↔ a < x.opened ∧ x.detached a = false
  released : x.released = true → x.attachment = none
  sole : x.released = false → x.expiry.Sole
  idle : x.released = false → x.attachment.isSome → x.expiry.task = none
  armed : x.released = false → x.pumpStarted = true → x.attachment = none → x.expiry.task.isSome

namespace Valid

variable {x y : Tenure}

theorem schedule (hc : ∀ a, x.attachment = some a ↔ a < x.opened ∧ x.detached a = false)
    (hr : x.released = true → x.attachment = none) (hs : x.released = false → x.expiry.Sole) :
    Valid x.schedule where
  current := hc
  released := hr
  sole h := by
    have hx := (hs h).cancel
    unfold Tenure.schedule
    dsimp only
    split
    · exact hx
    · exact hx.create ExpiryTimer.cancel_task
  idle _ h := by
    unfold Tenure.schedule
    dsimp only
    rw [if_pos (.inr h)]
    exact ExpiryTimer.cancel_task
  armed h _ hn := by
    have hn' : x.attachment = none := hn
    have h' : x.released = false := h
    simp [Tenure.schedule, hn', h', ExpiryTimer.create]

theorem detach (h : x.Valid) (a : ℕ) : Valid (x.detach a) := by
  unfold Tenure.detach
  split
  · rename_i ha
    refine schedule (x := { x with attachment := none }.mark a) (fun b => ?_) (fun _ => rfl) h.sole
    refine iff_of_false (by simp [mark]) ?_
    rintro ⟨hb, hd⟩
    by_cases hba : b = a
    · simp [mark, hba] at hd
    · have hd' : x.detached b = false := by simpa [mark, hba] using hd
      have hcur := (h.current b).2 ⟨hb, hd'⟩
      rw [ha] at hcur
      exact hba (Option.some.inj hcur).symm
  · rename_i ha
    refine ⟨fun b => ?_, h.released, h.sole, h.idle, h.armed⟩
    show x.attachment = some b ↔ b < x.opened ∧ (if b = a then true else x.detached b) = false
    rw [h.current b]
    by_cases hba : b = a
    · subst hba
      refine iff_of_false (fun hb => ha ((h.current b).2 hb)) (by simp)
    · rw [if_neg hba]

theorem publish (h : x.Valid) (hr : x.released = false) : Valid x.publish := by
  have hx := (h.sole hr).cancel
  refine ⟨fun b => ?_, fun hc => ?_, fun _ => hx, fun _ _ => ExpiryTimer.cancel_task,
    fun _ _ hn => by cases hn⟩
  · show some x.opened = some b ↔ b < x.opened + 1 ∧
      (if b = x.opened then false else if x.attachment = some b then true else x.detached b) = false
    by_cases hb : b = x.opened
    · simp [hb]
    · rw [if_neg hb]
      refine iff_of_false (fun he => hb (Option.some.inj he).symm) ?_
      rintro ⟨hlt, hd⟩
      split at hd
      · cases hd
      · rename_i hne
        exact hne ((h.current b).2 ⟨by omega, hd⟩)
  · exact absurd (hc.symm.trans hr) (by simp)

theorem release (hc : ∀ a, a < x.opened → x.detached a = false → x.attachment = some a) :
    Valid x.release := by
  refine ⟨fun b => ?_, fun _ => rfl, nofun, nofun, nofun⟩
  show none = some b ↔ b < x.opened ∧ (if x.attachment = some b then true else x.detached b) = false
  refine iff_of_false (by simp) ?_
  rintro ⟨hlt, hd⟩
  split at hd
  · cases hd
  · rename_i hne
    exact hne (hc b hlt hd)

/-- What a change keeps. -/
theorem change (h : x.Valid) (hc : Change x y) : y.Valid := by
  cases hc with
  | detach a => exact h.detach a
  | publish hr => exact h.publish hr
  | release => exact release fun a hlt hd => (h.current a).2 ⟨hlt, hd⟩
  | finish hr =>
    exact ⟨h.current, h.released, fun h' => by simp [hr] at h', fun h' => by simp [hr] at h',
      fun h' => by simp [hr] at h'⟩
  | start => exact schedule h.current h.released h.sole
  | elapse hs =>
    exact ⟨h.current, h.released, fun hr t => (ExpiryTimer.elapse_live hs).trans (h.sole hr t),
      h.idle, h.armed⟩
  | ended hcase =>
    refine ⟨h.current, h.released, fun hr => (h.sole hr).finish ?_, h.idle, h.armed⟩
    exact hcase.resolve_left (by simp [show x.released = false from hr])
  | expired => exact release fun a hlt hd => (h.current a).2 ⟨hlt, hd⟩

theorem changes (h : x.Valid) (hc : Changes x y) : y.Valid := by
  induction hc with
  | refl => exact h
  | tail _ hs ih => exact ih.change hs

end Valid

/-- A task that is spent stays so. -/
theorem spent_change {x y : Tenure} {t : ℕ} (h : x.expiry.Spent t) (hc : Change x y) :
    y.expiry.Spent t := by
  cases hc with
  | detach a =>
    unfold detach
    split
    · show (if _ then _ else _ : ExpiryTimer).Spent t
      split
      · exact h.cancel
      · exact h.cancel.create
    · exact h
  | publish => exact h.cancel
  | release => exact h
  | finish => exact h.finishAll
  | start =>
    show (if _ then _ else _ : ExpiryTimer).Spent t
    split
    · exact h.cancel
    · exact h.cancel.create
  | elapse hs => exact h.elapse hs
  | ended => exact h.finish
  | expired => exact h.finish

theorem spent_changes {x y : Tenure} {t : ℕ} (h : x.expiry.Spent t) (hc : Changes x y) :
    y.expiry.Spent t := by
  induction hc with
  | refl => exact h
  | tail _ hs ih => exact spent_change ih hs

/-- An attachment that holds the lease later held it before, or was opened since. -/
theorem held_changes {x y : Tenure} {a : ℕ} (hc : Changes x y) (h : y.attachment = some a) :
    x.opened ≤ y.opened ∧ (x.attachment = some a ∨ x.opened ≤ a) := by
  have hstep : ∀ {x y : Tenure}, Change x y → x.opened ≤ y.opened ∧
      ∀ a, y.attachment = some a → x.attachment = some a ∨ x.opened ≤ a := by
    intro x y hc
    cases hc with
    | detach b =>
      unfold detach
      split
      · exact ⟨le_rfl, fun a ha => by cases ha⟩
      · exact ⟨le_rfl, fun a ha => .inl ha⟩
    | publish => exact ⟨Nat.le_succ _, fun a ha => .inr (Option.some.inj ha).le⟩
    | release => exact ⟨le_rfl, fun a ha => by cases ha⟩
    | finish => exact ⟨le_rfl, fun a ha => .inl ha⟩
    | start => exact ⟨le_rfl, fun a ha => .inl ha⟩
    | elapse => exact ⟨le_rfl, fun a ha => .inl ha⟩
    | ended => exact ⟨le_rfl, fun a ha => .inl ha⟩
    | expired => exact ⟨le_rfl, fun a ha => by cases ha⟩
  induction hc using Relation.ReflTransGen.head_induction_on with
  | refl => exact ⟨le_rfl, .inl h⟩
  | head hxz _ ih =>
    obtain ⟨h1, h2⟩ := hstep hxz
    refine ⟨h1.trans ih.1, ?_⟩
    rcases ih.2 with hz | hz
    · exact h2 a hz
    · exact .inr (h1.trans hz)

/-- An attachment that is detached stays so. -/
theorem detached_changes {x y : Tenure} {a : ℕ} (hc : Changes x y) (ha : a < x.opened) :
    a < y.opened ∧ (x.detached a = true → y.detached a = true) := by
  induction hc with
  | refl => exact ⟨ha, id⟩
  | @tail y z _ hstep ih =>
    obtain ⟨hlt, hkept⟩ := ih
    have hne : a ≠ y.opened := by omega
    cases hstep with
    | detach b =>
      unfold detach
      refine ⟨?_, fun h => ?_⟩
      · split <;> exact hlt
      · show (if a = b then true else _) = true
        split
        · rfl
        · split <;> exact hkept h
    | publish =>
      refine ⟨Nat.lt_succ_of_lt hlt, fun h => ?_⟩
      show (if a = y.opened then false else if y.attachment = some a then true else y.detached a) = true
      rw [if_neg hne, hkept h, ite_self]
    | release =>
      refine ⟨hlt, fun h => ?_⟩
      show (if y.attachment = some a then true else y.detached a) = true
      rw [hkept h, ite_self]
    | finish => exact ⟨hlt, hkept⟩
    | start => exact ⟨hlt, hkept⟩
    | elapse => exact ⟨hlt, hkept⟩
    | ended => exact ⟨hlt, hkept⟩
    | expired =>
      refine ⟨hlt, fun h => ?_⟩
      show (if y.attachment = some a then true else y.detached a) = true
      rw [hkept h, ite_self]

end Tenure

/-! ## The tenure of a lease -/

namespace Lease

def tenure (l : Lease) : Tenure :=
  ⟨l.opened, l.attachment, l.released, fun a => (l.heap a).detached, l.pumpStarted, l.expiry⟩

variable {l l' : Lease}

theorem tenure_markDetached (a : ℕ) (reason : DetachReason) :
    (l.modifyAttachment a (·.markDetached reason)).tenure = l.tenure.mark a := by
  refine Tenure.ext rfl rfl rfl ?_ rfl rfl
  funext b
  show (if b = a then (l.heap a).markDetached reason else l.heap b).detached =
    if b = a then true else (l.heap b).detached
  split
  · exact markDetached_detached _ _
  · rfl

theorem tenure_detach (a : ℕ) (reason : DetachReason) :
    (l.detach a reason).tenure = l.tenure.detach a := by
  unfold detach Tenure.detach
  rw [tenure_markDetached]
  show Tenure.mark (tenure (if l.attachment = some a then _ else l)) a =
    (if l.attachment = some a then _ else _ : Tenure).mark a
  split <;> rfl

/-- An attachment that changes, and is detached as before. -/
theorem tenure_modify {a : ℕ} {f : LeaseAttachment → LeaseAttachment}
    (hf : (f (l.heap a)).detached = (l.heap a).detached) :
    (l.modifyAttachment a f).tenure = l.tenure := by
  refine Tenure.ext rfl rfl rfl ?_ rfl rfl
  funext b
  show (if b = a then f (l.heap a) else l.heap b).detached = (l.heap b).detached
  split
  · rename_i hb
    rw [hf, hb]
  · rfl

theorem tenure_upkeep (h : l'.upkeep = l.upkeep) : l'.tenure = l.tenure :=
  Tenure.ext (congrArg (·.delivery.opened) h) (congrArg (·.delivery.attachment) h)
    (congrArg (·.delivery.released) h)
    (congrArg (fun u : Upkeep => fun a => (u.delivery.heap a).detached) h)
    (congrArg (·.pumpStarted) h) (congrArg (·.expiry) h)

theorem tenure_release (reason : String) (h : l.released = false) :
    (l.release reason).tenure = l.tenure.release := by
  unfold release
  rw [if_neg (by simp [h])]
  dsimp only
  split
  · rename_i hn
    refine Tenure.ext rfl hn rfl ?_ rfl rfl
    funext b
    simp [tenure, Tenure.release, hn]
  · rename_i a ha
    rw [tenure_markDetached]
    refine Tenure.ext rfl rfl rfl ?_ rfl rfl
    funext b
    simp [tenure, Tenure.release, Tenure.mark, ha, eq_comm]

theorem deliver_changes (a : ℕ) (item : LiveText) :
    Tenure.Changes l.tenure (l.deliver a item).tenure := by
  unfold deliver
  split
  · rw [tenure_detach]
    exact .single (.detach a)
  · rw [tenure_modify rfl]

theorem release_changes (reason : String) :
    Tenure.Changes l.tenure (l.release reason).tenure := by
  by_cases h : l.released = true
  · unfold release
    rw [if_pos h]
  · have hr : l.released = false := by simpa using h
    rw [tenure_release reason hr]
    exact .single (.release hr)

theorem answered_changes {P : AnswerCause → Json → ℕ → Prop} (h : Answered P l l') :
    Tenure.Changes l.tenure l'.tenure := by
  induction h with
  | quiet h => rw [tenure_upkeep h]
  | answer => exact deliver_changes _ _
  | trans _ _ ih ih' => exact ih.trans ih'

theorem appendEvent_changes (event : RetainedEvent) :
    Tenure.Changes l.tenure (l.appendEvent event).tenure := by
  unfold appendEvent
  dsimp only
  split
  · exact .refl
  · split
    · exact .refl
    · exact deliver_changes (l := l.ringed event) _ _

/-- A snapshot changes no tenure. -/
theorem snapshot_tenure {env : Surroundings} {now : ℚ} {recovery : Bool} {m : Lease}
    {snapshot : List (Str × Json)} (h : (l.trim now).1.takeSnapshot env recovery = (m, snapshot)) :
    m.tenure = l.tenure := by
  have hu := takeSnapshot_upkeep (l.trim now).1 env recovery
  rw [h] at hu
  exact tenure_upkeep (l := (l.trim now).1) hu

theorem tenure_publish {att : LeaseAttachment} (h : att.detached = false) :
    (l.publish att).tenure = l.tenure.publish := by
  refine Tenure.ext rfl rfl rfl ?_ rfl rfl
  funext b
  show (if b = l.opened then att else l.replaceAttachment.heap b).detached =
    if b = l.opened then false else if l.attachment = some b then true else (l.heap b).detached
  split
  · exact h
  · unfold replaceAttachment
    split
    · rename_i hn
      simp [hn]
    · rename_i a ha
      rw [ha]
      by_cases hb : b = a
      · rw [hb, modifyAttachment_heap_self, markDetached_detached, if_pos rfl]
      · rw [modifyAttachment_heap_of_ne _ _ _ hb, if_neg (by simpa using Ne.symm hb)]

theorem start_changes : Tenure.Changes l.tenure l.start.tenure := by
  unfold start
  split
  · exact .refl
  · rename_i h
    have hr : l.released = false := by simpa using fun hr => h (.inl hr)
    have hp : l.pumpStarted = false := by simpa using fun hp => h (.inr hp)
    exact .single (.start hr hp)

/-- A task that runs `expire` and resumes releases the lease if it is live. -/
theorem resumeExpiry_changes {t : ℕ} (hen : l.Enabled (.expiryResumes t)) :
    Tenure.Changes l.tenure (l.resumeExpiry t).tenure := by
  obtain ⟨task, ht, hp, -⟩ := hen
  have hfinish : ∀ (_ : l.released = true ∨ ¬ l.expiry.Live t),
      Tenure.Changes l.tenure (tenure { l with expiry := l.expiry.finish t }) :=
    fun h => .single (.ended h)
  unfold resumeExpiry
  rw [Option.mem_def.1 ht]
  dsimp only
  split
  · rename_i hcancel
    refine hfinish (.inr ?_)
    rintro ⟨task', ht', -, hc⟩
    obtain rfl := Option.mem_unique ht ht'
    simp [hcancel] at hc
  · rename_i hcancel
    by_cases hr : l.released = true
    · unfold release
      rw [if_pos hr]
      exact hfinish (.inl hr)
    · have hr' : l.released = false := by simpa using hr
      rw [tenure_release (l := { l with expiry := l.expiry.finish t }) _ hr']
      exact .single (.expired hr' ⟨task, ht, hp, by simpa using hcancel⟩)

/-- **Every step is a series of changes of the tenure.** -/
theorem step_changes {label : LeaseLabel} (hs : Step l label l') :
    Tenure.Changes l.tenure l'.tenure := by
  cases step_moves hs with
  | answered _ hl => exact answered_changes hl
  | detached =>
    rw [tenure_detach]
    exact .single (.detach _)
  | released => exact release_changes _
  | finished hr => exact .single (.finish hr)
  | @retained env now text m size hl =>
    have hm : Tenure.Changes l.stamp.tenure m.tenure := answered_changes hl
    exact hm.trans (appendEvent_changes _)
  | @failed env now text m fault hl =>
    have hm : Tenure.Changes l.stamp.tenure m.tenure := answered_changes hl
    exact hm.trans (release_changes _)
  | took _ hdet _ => rw [tenure_modify hdet]
  | @attached env now request m snapshot href hsnap =>
    rw [tenure_publish rfl, snapshot_tenure hsnap]
    exact .single (.publish (attachRefused_none href).1)
  | started => exact start_changes
  | elapsed hen => exact .single (.elapse hen)
  | resumed hen => exact resumeExpiry_changes hen

theorem Fresh.tenure_valid (h : l.Fresh) : l.tenure.Valid where
  current a := iff_of_false (by simp [tenure, h.attachment]) (by simp [tenure, h.opened])
  released _ := h.attachment
  sole _ t := by
    show l.expiry.Live t ↔ l.expiry.task = some t
    simp [h.expiry, ExpiryTimer.Live]
  idle _ hs := by
    have hn : l.tenure.attachment = none := h.attachment
    simp [hn] at hs
  armed _ hp _ := by
    have hf : l.tenure.pumpStarted = false := h.pumpStarted
    simp [hf] at hp

theorem run_changes {trace : List LeaseLabel} (hrun : Run l trace l') :
    Tenure.Changes l.tenure l'.tenure :=
  hrun.relates (r := fun l l' => Tenure.Changes l.tenure l'.tenure) (fun _ => .refl)
    (fun _ _ _ => Relation.ReflTransGen.trans) fun _ _ _ => step_changes

end Lease

/-! ## Attachments that lost their place -/

/-- The attachment has lost its place, and nothing waits for its consumer. -/
structure Emptied (l : Lease) (a : ℕ) : Prop where
  opened : a < l.opened
  pending : (l.heap a).pending l.leaseId = []
  gone : l.attachment ≠ some a

/-- An attachment that is replaced drops what it had queued. -/
theorem pending_replaced (leaseId : Str) (att : LeaseAttachment) :
    (att.markDetached .attachmentReplaced).pending leaseId = [] := by
  unfold LeaseAttachment.markDetached
  dsimp only
  rw [if_pos (Or.inr rfl)]
  split <;> rfl

namespace Emptied

variable {l l' : Lease} {a : ℕ}

theorem detach (h : Emptied l a) (b : ℕ) (reason : DetachReason) : Emptied (l.detach b reason) a := by
  have hlog := detach_sameLog l b reason
  refine ⟨hlog.opened ▸ h.opened, ?_, ?_⟩
  · rw [hlog.leaseId]
    by_cases hb : a = b
    · subst hb
      rw [detach_heap_self]
      rcases pending_markDetached l.leaseId (l.heap a) reason with hp | hp
      · rw [hp, h.pending]
      · exact hp
    · rw [detach_heap_of_ne l b reason hb, h.pending]
  · rw [detach_attachment]
    split
    · simp
    · exact h.gone

theorem quiet (h : Emptied l a) (hd : l'.delivery = l.delivery) : Emptied l' a := by
  have hheap : l'.heap = l.heap := congrArg Delivery.heap hd
  refine ⟨(delivery_sameLog hd).opened ▸ h.opened, ?_, ?_⟩
  · rw [(delivery_sameLog hd).leaseId, hheap]
    exact h.pending
  · rw [show l'.attachment = l.attachment from congrArg Delivery.attachment hd]
    exact h.gone

/-- Another attachment changes. -/
theorem modify (h : Emptied l a) {b : ℕ} {f : LeaseAttachment → LeaseAttachment} (hb : a ≠ b) :
    Emptied (l.modifyAttachment b f) a :=
  ⟨h.opened, by rw [modifyAttachment_heap_of_ne l b f hb]; exact h.pending, h.gone⟩

theorem deliver (h : Emptied l a) {b : ℕ} (hb : l.attachment = some b) (item : LiveText) :
    Emptied (l.deliver b item) a := by
  unfold Lease.deliver
  split
  · exact h.detach b _
  · exact h.modify fun he => h.gone (he ▸ hb)

theorem answered {P : AnswerCause → Json → ℕ → Prop} (hl : Answered P l l') (h : Emptied l a) :
    Emptied l' a := by
  induction hl with
  | quiet hd => exact h.quiet (congrArg Upkeep.delivery hd)
  | answer hcur => exact h.deliver hcur _
  | trans _ _ ih ih' => exact ih' (ih h)

theorem appendEvent (h : Emptied l a) (event : RetainedEvent) : Emptied (l.appendEvent event) a := by
  have hring : Emptied (l.ringed event) a := ⟨h.opened, h.pending, h.gone⟩
  rcases appendEvent_spec l event with ⟨-, hd⟩ | ⟨b, hb, hd⟩
  · exact hring.quiet hd
  · rw [hd]
    exact hring.deliver hb _

/-- While the lease is not released, an attachment that lost its place stays
    where it is. -/
theorem step (h : Emptied l a) {label : LeaseLabel} (hs : Step l label l')
    (hr : l'.released = false) : Emptied l' a := by
  cases step_moves hs with
  | answered _ hl => exact h.answered hl
  | detached => exact h.detach _ _
  | released => exact absurd hr (by simp [release_released])
  | finished hl => exact absurd (hl.symm.trans hr) (by simp)
  | @retained env now text m size hl =>
    have hstamp : Emptied l.stamp a := ⟨h.opened, h.pending, h.gone⟩
    exact (hstamp.answered hl).appendEvent _
  | failed => exact absurd hr (by simp [release_released])
  | @took b item att _ _ hpend =>
    refine h.modify fun hb => ?_
    rw [← hb, h.pending] at hpend
    cases hpend
  | @attached env now request m snapshot _ hsnap =>
    have hd := takeSnapshot_delivery (l.trim now).1 env request.recovery
    rw [hsnap] at hd
    have hm : Emptied m a := quiet (l := (l.trim now).1) ⟨h.opened, h.pending, h.gone⟩ hd
    have hne : a ≠ m.opened := Nat.ne_of_lt hm.opened
    refine ⟨Nat.lt_succ_of_lt hm.opened, ?_, fun he => hne (Option.some.inj he).symm⟩
    show (if a = m.opened then _ else m.replaceAttachment.heap a).pending m.leaseId = []
    rw [if_neg hne]
    unfold replaceAttachment
    split
    · exact hm.pending
    · rename_i b hb
      have hab : a ≠ b := fun he => hm.gone (he ▸ hb)
      rw [modifyAttachment_heap_of_ne _ _ _ hab]
      exact hm.pending
  | started => exact h.quiet (start_delivery l)
  | elapsed => exact h.quiet rfl
  | @resumed t =>
    rcases resumeExpiry_spec l t with he | he
    · rw [he]
      exact h.quiet rfl
    · rw [he, release_released] at hr
      cases hr

end Emptied

/-- The step ends the tenure of `a`: another attachment takes its place, or the
    lease is released. -/
def Displaces (a : ℕ) (l : Lease) (label : LeaseLabel) (l' : Lease) : Prop :=
  l.attachment = some a ∧
    ((∃ env now request b gap, label = (.attach env now request, .attached b gap)) ∨
      l.released = false ∧ l'.released = true)

section Displaced

variable {l l' : Lease} {a : ℕ} {label : LeaseLabel} {trace : List LeaseLabel}

/-- An attachment that is replaced has nothing left. -/
theorem replaced_emptied (hv : l.tenure.Valid) (ha : l.attachment = some a) {env : Surroundings}
    {now : ℚ} {request : AttachRequest} {b : ℕ} {gap : Bool}
    (hs : Step l (.attach env now request, .attached b gap) l') : Emptied l' a := by
  have hlt : a < l.opened := ((hv.current a).1 ha).1
  cases step_moves hs with
  | answered hsilent => exact hsilent.elim
  | @attached _ _ _ m snapshot _ hsnap =>
    have hd := takeSnapshot_delivery (l.trim now).1 env request.recovery
    rw [hsnap] at hd
    have hop : m.opened = l.opened := congrArg Delivery.opened hd
    have hatt : m.attachment = some a := (congrArg Delivery.attachment hd).trans ha
    have hne : a ≠ m.opened := by omega
    refine ⟨by rw [← hop] at hlt; exact Nat.lt_succ_of_lt hlt, ?_,
      fun he => hne (Option.some.inj he).symm⟩
    show (if a = m.opened then _ else m.replaceAttachment.heap a).pending m.leaseId = []
    rw [if_neg hne]
    unfold replaceAttachment
    rw [hatt]
    dsimp only
    rw [modifyAttachment_heap_self]
    exact pending_replaced _ _

theorem not_received {item : Received} (h : l.released = true ∨ Emptied l a)
    (hs : Step l (.next a, .received item) l') : False := by
  obtain ⟨-, hx⟩ := hs
  rcases hn : l.nextText a with ⟨m, r⟩
  simp only [perform, hn] at hx
  rcases h with hr | he
  · rw [nextText, if_pos hr] at hn
    cases hn
    cases hx
  · rcases nextText_spec hn with ⟨item', att, -, -, -, -, hp⟩ | ⟨rfl, hnone⟩
    · rw [he.pending] at hp
      cases hp
    · rcases r with fault | _ | item'
      · cases hx
      · cases hx
      · exact hnone item' rfl

/-- Nothing more comes to the consumer of an attachment that lost its place, or
    its lease. -/
theorem receivedBy_nil (hrun : Run l trace l') (h : l.released = true ∨ Emptied l a) :
    receivedBy a trace = [] := by
  induction hrun with
  | nil => rfl
  | @cons l label m trace l' hs _ ih =>
    have hm : m.released = true ∨ Emptied m a := by
      cases hrel : m.released with
      | true => exact .inl rfl
      | false =>
        refine .inr ((h.resolve_left fun hr => ?_).step hs hrel)
        have hr' := released_step (step_moves hs) hr
        rw [hrel] at hr'
        cases hr'
    have hsplit : receivedBy a (label :: trace) = receivedBy a [label] ++ receivedBy a trace :=
      receivedBy_append a [label] trace
    rw [hsplit, ih hm, List.append_nil]
    obtain ⟨e, out⟩ := label
    cases e with
    | next b =>
      cases out with
      | received item =>
        by_cases hb : b = a
        · subst hb
          exact (not_received h hs).elim
        · simp [receivedBy, hb]
      | _ => rfl
    | _ => rfl

end Displaced

/-! ## What holds of every run -/

section Runs

variable {l₀ l l₁ l₂ : Lease} {trace : List LeaseLabel}

/-- **One current attachment.**  In every state of a lease, an attachment that
    was opened is the current one if and only if it is not detached; to detach
    one that lost its place changes neither the current one nor the timer; an
    attach that raises changes nothing; and an attachment that is replaced, or
    whose lease is released, gives its consumer nothing more. -/
theorem one_current_attachment (hfresh : l₀.Fresh) (hrun : Run l₀ trace l) :
    (∀ a < l.opened, (l.heap a).detached = false ↔ l.attachment = some a) ∧
    (∀ a reason, (l.heap a).detached = true →
      (l.detach a reason).attachment = l.attachment ∧ (l.detach a reason).expiry = l.expiry ∧
      ∀ b, l.attachment = some b → (l.detach a reason).heap b = l.heap b) ∧
    (∀ env now request fault l', Step l (.attach env now request, .raised fault) l' → l' = l) ∧
    (∀ a label l' after l'', Step l label l' → Displaces a l label l' → Run l' after l'' →
      receivedBy a after = []) := by
  have hv : l.tenure.Valid := hfresh.tenure_valid.changes (run_changes hrun)
  refine ⟨fun a ha => ?_, fun a reason hdet => ?_, fun env now request fault l' hs => ?_,
    fun a label l' after l'' hs hd hafter => ?_⟩
  · exact ⟨fun h => (hv.current a).2 ⟨ha, h⟩, fun h => ((hv.current a).1 h).2⟩
  · have hne : l.attachment ≠ some a := fun h => by
      have := ((hv.current a).1 h).2
      exact absurd (this.symm.trans hdet) (by simp)
    unfold detach
    rw [if_neg hne]
    exact ⟨rfl, rfl, fun b hb => modifyAttachment_heap_of_ne l a _ fun he => hne (he ▸ hb)⟩
  · obtain ⟨-, hx⟩ := hs
    simp only [perform] at hx
    split at hx
    · cases hx
    · rename_i hatt
      cases hx
      unfold attach at hatt
      split at hatt
      · cases hatt
        rfl
      · cases hatt
  · obtain ⟨ha, ⟨env, now, request, b, gap, rfl⟩ | ⟨-, hrel⟩⟩ := hd
    · exact receivedBy_nil hafter (.inr (replaced_emptied hv ha hs))
    · exact receivedBy_nil hafter (.inl hrel)

/-- A device attaches, and attaches again when the sleep of the first timer is
    over. -/
def handoff : List LeaseEvent :=
  [.start, .sleepElapses 0, .attach (.standing 0 fun _ => true) 0 { recovery := true },
   .attach (.standing 0 fun _ => true) 1 { recovery := true, replaceAttached := true }, .expiryResumes 0]

theorem handoff_executes : (execute {} handoff).isSome := by decide

theorem one_current_attachment_handoff : ∃ trace l, Run {} trace l ∧
    l.attachment = some 1 ∧ (l.heap 0).detached = true ∧
    (l.detach 0 .detached).attachment = some 1 := by
  have hrun := run_of_execute (Option.some_get handoff_executes).symm
  have h := one_current_attachment
    ⟨rfl, rfl, rfl, rfl, rfl, rfl, rfl, rfl, rfl, rfl, rfl, rfl, rfl, rfl⟩ hrun
  exact ⟨_, _, hrun, by decide, by decide,
    (h.2.1 0 .detached (by decide)).1.trans (by decide)⟩

/-- **The expiry is armed when it is needed.**  In every state of a lease that
    was started and not released, exactly one task is live to release it if it
    has no attachment, and none if it has one; and a task there was when an
    attachment was opened never releases the lease. -/
theorem expiry_armed (hfresh : l₀.Fresh) (hrun : Run l₀ trace l) :
    (l.pumpStarted = true → l.released = false →
      (l.attachment = none → ∃! t, l.expiry.Live t) ∧
      (l.attachment.isSome → ∀ t, ¬ l.expiry.Live t)) ∧
    (∀ env now request a gap l₁ t mid l₂ l₃,
      Step l (.attach env now request, .attached a gap) l₁ → t < l.expiry.tasks.length →
      Run l₁ mid l₂ → Step l₂ (.expiryResumes t, .done) l₃ → l₃.released = l₂.released) := by
  have hv : l.tenure.Valid := hfresh.tenure_valid.changes (run_changes hrun)
  constructor
  · intro hp hr
    have hsole : ∀ t, l.expiry.Live t ↔ l.expiry.task = some t := hv.sole hr
    constructor
    · intro hnone
      obtain ⟨t, ht⟩ := Option.isSome_iff_exists.1 (hv.armed hr hp hnone)
      refine ⟨t, (hsole t).2 ht, fun u hu => ?_⟩
      exact Option.some.inj (((hsole u).1 hu).symm.trans ht)
    · intro hsome t ht
      have hidle : l.expiry.task = none := hv.idle hr hsome
      rw [hsole t, hidle] at ht
      cases ht
  · intro env now request a gap l₁ t mid l₂ l₃ hattach ht hmid hres
    have hspent : l₁.tenure.expiry.Spent t := by
      cases step_moves hattach with
      | answered hsilent => exact hsilent.elim
      | @attached _ _ _ m snapshot href hsnap =>
        rw [tenure_publish rfl, snapshot_tenure hsnap]
        have hsole := hv.sole (attachRefused_none href).1
        have hlen : l.expiry.cancel.tasks.length = l.expiry.tasks.length :=
          ExpiryTimer.cancel_length
        refine ⟨?_, fun hlive => ?_⟩
        · show t < l.expiry.cancel.tasks.length
          omega
        · exact ExpiryTimer.cancel_not_live ((hsole t).1 (ExpiryTimer.live_of_cancel hlive)) hlive
    have hspent₂ := Tenure.spent_changes hspent (run_changes hmid)
    obtain ⟨⟨task, htask, hphase, -⟩, hx⟩ := hres
    have hcancel : task.cancelling = true := by
      by_contra hc
      exact hspent₂.2 ⟨task, htask, hphase, by simpa using hc⟩
    cases hx
    unfold resumeExpiry
    rw [Option.mem_def.1 htask]
    dsimp only
    rw [if_pos hcancel]

theorem expiry_armed_handoff : ∃ trace l, Run {} trace l ∧
    l.pumpStarted = true ∧ l.released = false ∧ ∀ t, ¬ l.expiry.Live t := by
  have hrun := run_of_execute (Option.some_get handoff_executes).symm
  have h := expiry_armed
    ⟨rfl, rfl, rfl, rfl, rfl, rfl, rfl, rfl, rfl, rfl, rfl, rfl, rfl, rfl⟩ hrun
  exact ⟨_, _, hrun, by decide, by decide,
    (h.1 (by decide) (by decide)).2 (by decide)⟩

end Runs

end MercuryRelay
