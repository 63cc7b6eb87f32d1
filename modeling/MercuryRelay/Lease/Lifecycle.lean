/-
  The tasks a lease owns, and its release (session_lease.py, `_pump`,
  `_schedule_expiry`, `release`, `_finish_release`).

  Here `release` is taken apart: the fence that its first caller runs, the task
  that cleans up, and the callers that wait for it.  Tasks are known by number,
  in the order they are created.
-/
import Mathlib.Data.List.Dedup
import MercuryRelay.Lease.State
import MercuryRelay.Lib.Run
import MercuryRelay.Lib.Shield

set_option autoImplicit false

namespace MercuryRelay

open Shield

inductive TaskKind where
  | pump
  | expiry
  | read
  | mutation
  /-- a task of which the whole body is a call of `release` -/
  | release (reason : String)
  /-- a task of the surroundings: an admission, a transport, the manager -/
  | outer
  deriving DecidableEq

/-- What a call of `release` comes to. -/
abbrev Released := Ended LeaseFault Bool

inductive TaskState where
  /-- it has not run yet -/
  | created
  | running
  /-- it waits in `release`; `first` says whether it is the first caller -/
  | releasing (first : Bool) (waiter : Shielded)
  /-- it is done; `result` is what `release` came to, if that was its body -/
  | ended (result : Option Released)
  deriving DecidableEq

/-- A task, and whether its cancellation was ever requested. -/
structure OwnedTask where
  kind : TaskKind
  state : TaskState := .running
  cancelling : Bool := false
  deriving DecidableEq

/-- How far `_finish_release` is. -/
inductive ReleasePhase where
  /-- it has not run yet -/
  | created
  /-- it waits for tasks to end -/
  | joining (pending : List ℕ)
  | closingWebsocket
  /-- `close_controller` was called -/
  | closingController
  | ended (result : Ended LeaseFault Unit)
  deriving DecidableEq

/-- `_release_task`, and the task that made it. -/
structure ReleaseTask where
  initiator : ℕ
  phase : ReleasePhase := .created
  deriving DecidableEq

/-- What of a lease its tasks and its release depend on.  An attachment is known by
    number, and `attachments` says whether it is detached. -/
structure Lifecycle where
  tasks : List OwnedTask := []
  released : Bool := false
  releaseReason : Option String := none
  attachments : List Bool := []
  attachment : Option ℕ := none
  pumpTask : Option ℕ := none
  expiryTask : Option ℕ := none
  readTasks : List ℕ := []
  /-- the tasks that send, and the attachments they send for -/
  outboundTasks : List (ℕ × ℕ) := []
  hasOnRelease : Bool := false
  releaseTask : Option ReleaseTask := none
  releaseSucceeded : Bool := false

/-! ## Tasks -/

namespace OwnedTask

/-- `task.done()`. -/
def isDone (task : OwnedTask) : Bool :=
  match task.state with
  | .ended _ => true
  | _ => false

/-- `task.cancel()`. -/
def cancel (task : OwnedTask) : OwnedTask :=
  match task.state with
  | .ended _ => task
  | .releasing first waiter =>
    { task with cancelling := true, state := .releasing first waiter.cancel }
  | _ => { task with cancelling := true }

/-- The task waits in `release`. -/
def await (task : OwnedTask) (first : Bool) : OwnedTask :=
  { task with state := .releasing first {} }

/-- The task goes on after `release`: a task of the surroundings does as it likes,
    and the others end. -/
def leave (task : OwnedTask) (result : Released) : OwnedTask :=
  { task with state :=
      match task.kind with
      | .outer => .running
      | .release _ => .ended (some result)
      | _ => .ended none }

/-- The task ends, with nothing to say. -/
def finish (task : OwnedTask) : OwnedTask := { task with state := .ended none }

/-- A caller of `release` may resume: its cancellation is due, or the cleanup is
    done. -/
def Resumable (task : OwnedTask) (done : Bool) : Prop :=
  match task.state with
  | .releasing _ waiter => waiter.requested = true ∨ done = true
  | _ => False

instance (task : OwnedTask) (done : Bool) : Decidable (task.Resumable done) := by
  unfold Resumable
  split <;> infer_instance

end OwnedTask

/-- Cancel some tasks, but none whose cancellation was requested before. -/
def interrupt (tasks : List OwnedTask) (ts : List ℕ) : List OwnedTask :=
  tasks.mapIdx fun t task => if t ∈ ts ∧ task.cancelling = false then task.cancel else task

namespace Lifecycle

def modifyTask (s : Lifecycle) (t : ℕ) (f : OwnedTask → OwnedTask) : Lifecycle :=
  { s with tasks := s.tasks.modify t f }

/-- `asyncio.create_task`. -/
def create (s : Lifecycle) (kind : TaskKind) (state : TaskState) : Lifecycle :=
  { s with tasks := s.tasks ++ [{ kind := kind, state := state }] }

/-- The number of the next task. -/
def next (s : Lifecycle) : ℕ := s.tasks.length

def isDone (s : Lifecycle) (t : ℕ) : Bool := (s.tasks[t]?).any OwnedTask.isDone

/-- `_cancel_expiry`. -/
def cancelExpiry (s : Lifecycle) : Lifecycle :=
  match s.expiryTask with
  | none => s
  | some t => { s with expiryTask := none, tasks := s.tasks.modify t OwnedTask.cancel }

/-- `_schedule_expiry`. -/
def scheduleExpiry (s : Lifecycle) : Lifecycle :=
  let s := s.cancelExpiry
  if s.released ∨ s.attachment.isSome then s
  else { s.create .expiry .running with expiryTask := some s.next }

/-- `start`. -/
def start (s : Lifecycle) : Lifecycle :=
  if s.released ∨ s.pumpTask.isSome then s
  else { s.create .pump .running with pumpTask := some s.next }.scheduleExpiry

/-- `_mark_detached`, of the attachment `a`, by the task `current`. -/
def markDetached (s : Lifecycle) (a current : ℕ) : Lifecycle :=
  { s with
    tasks := interrupt s.tasks
      ((s.outboundTasks.filter fun o => o.2 = a ∧ o.1 ≠ current).map (·.1))
    attachments := s.attachments.set a true }

/-- `attach`; `replace` says whether a current attachment may be replaced. -/
def attach (s : Lifecycle) (current : ℕ) (replace : Bool) : Option Lifecycle :=
  if s.released then none
  else
    match s.attachment with
    | some a =>
      if replace then
        some { s.markDetached a current with
          attachments := (s.markDetached a current).attachments ++ [false]
          attachment := some s.attachments.length }.cancelExpiry
      else none
    | none =>
      some { s with
        attachments := s.attachments ++ [false]
        attachment := some s.attachments.length }.cancelExpiry

/-- `detach`. -/
def detach (s : Lifecycle) (a current : ℕ) : Lifecycle :=
  (if s.attachment = some a then scheduleExpiry { s with attachment := none } else s).markDetached a
    current

/-- The attachment `a` is detached. -/
def isDetached (s : Lifecycle) (a : ℕ) : Bool := s.attachments[a]?.getD true

/-- `register_outbound`. -/
def registerOutbound (s : Lifecycle) (t a : ℕ) : Option Lifecycle :=
  if s.isDetached a ∨ s.released then none
  else some { s with outboundTasks := s.outboundTasks.insert (t, a) }

/-- `unregister_outbound`. -/
def unregisterOutbound (s : Lifecycle) (t a : ℕ) : Lifecycle :=
  { s with outboundTasks := s.outboundTasks.filter (· ≠ (t, a)) }

/-- A request makes a task that reads, or one for a mutation (`_start_read`,
    `_start_mutation`). -/
def startLocal (s : Lifecycle) (kind : TaskKind) : Option Lifecycle :=
  if s.released then none
  else some { s.create kind .running with readTasks := s.readTasks ++ [s.next] }

/-! ## Release -/

/-- What the first call of `release` does before anything is awaited. -/
def fence (s : Lifecycle) (t : ℕ) (reason : String) : Lifecycle :=
  let s := { s with released := true, releaseReason := some reason,
                    releaseTask := some { initiator := t } }
  match s.attachment with
  | none => s
  | some a => { s with attachment := none }.markDetached a t

/-- What the task that cleans up came to, if it is done. -/
def cleanup (s : Lifecycle) : Option (Ended LeaseFault Unit) :=
  match s.releaseTask with
  | some ⟨_, .ended result⟩ => some result
  | _ => none

/-- `release`, called by the task `t`, up to where it waits; what it comes to, if it
    need not wait. -/
def release (s : Lifecycle) (t : ℕ) (reason : String) : Lifecycle × Option Released :=
  if s.releaseTask.isNone then ((s.fence t reason).modifyTask t (·.await true), none)
  else
    match s.cleanup with
    | none => (s.modifyTask t (·.await false), none)
    | some result =>
      (s.modifyTask t (·.leave (result.map fun _ => false)), some (result.map fun _ => false))

/-- A caller of `release` resumes; what the call comes to, if the cleanup is done. -/
def resume (s : Lifecycle) (t : ℕ) (first : Bool) (waiter : Shielded) : Lifecycle × Option Released :=
  match waiter.resume.result (s.cleanup.map (Ended.map fun _ => first)) with
  | none => (s.modifyTask t fun task => { task with state := .releasing first waiter.resume }, none)
  | some result => (s.modifyTask t (·.leave result), some result)

def setPhase (s : Lifecycle) (phase : ReleasePhase) : Lifecycle :=
  { s with releaseTask := s.releaseTask.map fun r => { r with phase := phase } }

/-- What the lease holds is dropped, and the websocket is to close. -/
def joined (s : Lifecycle) : Lifecycle :=
  { s with readTasks := [], outboundTasks := [] }.setPhase .closingWebsocket

/-- The tasks that `_finish_release` waits for. -/
def owned (s : Lifecycle) (initiator : ℕ) : List ℕ :=
  ((s.readTasks ++ s.outboundTasks.map (·.1) ++ s.pumpTask.toList ++ s.expiryTask.toList).dedup.filter
    (· ≠ initiator)).filter fun t => !s.isDone t

/-- `_finish_release`, up to where it waits for the first time. -/
def beginCleanup (s : Lifecycle) (initiator : ℕ) : Lifecycle :=
  let pending := s.owned initiator
  let s := { s with expiryTask := none, tasks := interrupt s.tasks pending }
  if pending.isEmpty then s.joined else s.setPhase (.joining pending)

/-- The end of `_finish_release`, once `close_controller` came to `result`. -/
def endCleanup (s : Lifecycle) : Ended Unit Unit → Lifecycle
  | .returned _ =>
    { s with releaseSucceeded := true }.setPhase (.ended (.returned ()))
  | .raised _ => s.setPhase (.ended (.raised (.session "controller_release_failed")))
  | .cancelled => s.setPhase (.ended .cancelled)

end Lifecycle

/-! ## Events -/

inductive LifecycleEvent where
  | starts
  /-- a task of the surroundings begins -/
  | begins
  /-- a task is created of which the whole body is a call of `release` -/
  | schedules (reason : String)
  | attaches (current : ℕ) (replace : Bool)
  | detaches (a current : ℕ)
  | reads
  | mutates
  | registersOutbound (t a : ℕ)
  | unregistersOutbound (t a : ℕ)
  /-- a task ends by itself, or of a cancellation -/
  | ends (t : ℕ)
  /-- the callback of a task that reads or mutates, when it is done -/
  | discards (t : ℕ)
  | cancels (t : ℕ)
  /-- the pump's `next_text` or `_retain` raises, and it calls `release` -/
  | pumpStops (reason : String)
  /-- the pump retains a frame that goes beyond the retention cap -/
  | overflows
  /-- the sleep of a task that runs `expire` is over -/
  | expires (t : ℕ)
  /-- a task of which the whole body is a call of `release` runs -/
  | runs (t : ℕ)
  /-- a task of the surroundings calls `release` -/
  | calls (t : ℕ) (reason : String)
  /-- `_finish_release` runs -/
  | cleansUp
  /-- the tasks that `_finish_release` waits for are done -/
  | joins
  /-- the websocket is closed, and `close_controller` is called -/
  | websocketCloses
  /-- `close_controller` is done -/
  | controllerCloses (result : Ended Unit Unit)
  /-- a caller of `release` resumes -/
  | resumes (t : ℕ)
  deriving DecidableEq

inductive LifecycleOutput where
  | done
  /-- the call raised, and nothing happened -/
  | refused
  /-- a call of `release` ended -/
  | released (result : Released)
  /-- `on_release` was called -/
  | onRelease
  deriving DecidableEq

abbrev LifecycleLabel := LifecycleEvent × LifecycleOutput

namespace Lifecycle

/-- The output of a call of `release`. -/
def answer : Lifecycle × Option Released → Lifecycle × LifecycleOutput
  | (s, none) => (s, .done)
  | (s, some result) => (s, .released result)

/-- The output of a call that may be refused. -/
def attempt (s : Lifecycle) : Option Lifecycle → Lifecycle × LifecycleOutput
  | none => (s, .refused)
  | some s' => (s', .done)

/-- A task of the lease calls `release`, unless the lease is released, and ends. -/
def releaseUnless (s : Lifecycle) (t : ℕ) (reason : String) : Lifecycle × LifecycleOutput :=
  if s.released then (s.modifyTask t OwnedTask.finish, .done) else answer (s.release t reason)

/-- The lifecycle after an event, and what the event yields. -/
def perform (s : Lifecycle) : LifecycleEvent → Lifecycle × LifecycleOutput
  | .starts => (s.start, .done)
  | .begins => (s.create .outer .running, .done)
  | .schedules reason => (s.create (.release reason) .created, .done)
  | .attaches current replace => s.attempt (s.attach current replace)
  | .detaches a current => (s.detach a current, .done)
  | .reads => s.attempt (s.startLocal .read)
  | .mutates => s.attempt (s.startLocal .mutation)
  | .registersOutbound t a => s.attempt (s.registerOutbound t a)
  | .unregistersOutbound t a => (s.unregisterOutbound t a, .done)
  | .ends t => (s.modifyTask t OwnedTask.finish, .done)
  | .discards t => ({ s with readTasks := s.readTasks.filter (· ≠ t) }, .done)
  | .cancels t => (s.modifyTask t OwnedTask.cancel, .done)
  | .pumpStops reason =>
    match s.pumpTask with
    | none => (s, .done)
    | some t => s.releaseUnless t reason
  | .overflows => (s.create (.release "retention_cap") .created, .done)
  | .expires t => s.releaseUnless t "expired"
  | .runs t =>
    match s.tasks[t]? with
    | some ⟨.release reason, _, _⟩ => answer (s.release t reason)
    | _ => (s, .done)
  | .calls t reason => answer (s.release t reason)
  | .cleansUp =>
    match s.releaseTask with
    | none => (s, .done)
    | some r => (s.beginCleanup r.initiator, .done)
  | .joins => (s.joined, .done)
  | .websocketCloses => (s.setPhase .closingController, .done)
  | .controllerCloses result =>
    (s.endCleanup result,
      if result = .returned () ∧ s.hasOnRelease then .onRelease else .done)
  | .resumes t =>
    match s.tasks[t]? with
    | some ⟨_, .releasing first waiter, _⟩ => answer (s.resume t first waiter)
    | _ => (s, .done)

/-- The phase of the task that cleans up. -/
def phase (s : Lifecycle) : Option ReleasePhase := s.releaseTask.map (·.phase)

/-- The tasks that the cleanup waits for. -/
def pending (s : Lifecycle) : Option (List ℕ) :=
  match s.phase with
  | some (.joining ts) => some ts
  | _ => none

/-- Those are done. -/
def isJoined (s : Lifecycle) : Bool := s.pending.any fun ts => ts.all s.isDone

/-- A task is there, and goes on by itself. -/
def Runs (s : Lifecycle) (t : ℕ) (kinds : List TaskKind) : Prop :=
  ∃ task ∈ s.tasks[t]?, task.kind ∈ kinds ∧ task.state = .running

instance (s : Lifecycle) (t : ℕ) (kinds : List TaskKind) : Decidable (s.Runs t kinds) := by
  unfold Runs
  infer_instance

/-- Neither is a cancellation of it due. -/
def Free (s : Lifecycle) (t : ℕ) : Prop := ∀ task ∈ s.tasks[t]?, task.cancelling = false

instance (s : Lifecycle) (t : ℕ) : Decidable (s.Free t) := by
  unfold Free
  infer_instance

/-- When an event may happen. -/
def Enabled (s : Lifecycle) : LifecycleEvent → Prop
  | .detaches a _ => a < s.attachments.length
  | .registersOutbound t _ => s.Runs t [.outer]
  | .ends t => s.Runs t [.outer, .read, .mutation] ∨ s.Runs t [.pump, .expiry] ∧ ¬ s.Free t ∨
      ∃ task ∈ s.tasks[t]?, task.state = .created ∧ task.cancelling = true
  | .discards t => s.isDone t
  | .pumpStops _ | .overflows => ∃ t ∈ s.pumpTask, s.Runs t [.pump] ∧ s.Free t
  | .expires t => s.Runs t [.expiry] ∧ s.Free t
  | .runs t => (∃ task ∈ s.tasks[t]?, task.state = .created) ∧ s.Free t
  | .calls t _ => s.Runs t [.outer] ∧ t ∉ s.outboundTasks.map (·.1)
  | .cleansUp => s.phase = some .created
  | .joins => s.isJoined
  | .websocketCloses => s.phase = some .closingWebsocket
  | .controllerCloses _ => s.phase = some .closingController
  | .resumes t => ∃ task ∈ s.tasks[t]?, task.Resumable s.cleanup.isSome
  | _ => True

instance (s : Lifecycle) (e : LifecycleEvent) : Decidable (s.Enabled e) := by
  cases e <;> unfold Enabled <;> infer_instance

/-- One event happens. -/
def Step (s : Lifecycle) (label : LifecycleLabel) (s' : Lifecycle) : Prop :=
  s.Enabled label.1 ∧ s.perform label.1 = (s', label.2)

/-- What happens to the tasks of a lease over time. -/
abbrev Run := Transition.Run Step

/-- A lease as `__init__` makes it. -/
structure Fresh (s : Lifecycle) : Prop where
  tasks : s.tasks = []
  released : s.released = false
  attachment : s.attachment = none
  pumpTask : s.pumpTask = none
  expiryTask : s.expiryTask = none
  readTasks : s.readTasks = []
  outboundTasks : s.outboundTasks = []
  releaseReason : s.releaseReason = none
  releaseTask : s.releaseTask = none
  releaseSucceeded : s.releaseSucceeded = false

end Lifecycle

end MercuryRelay
