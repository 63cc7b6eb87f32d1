/-
  The lease as a state machine: what its surroundings may do to it, and what
  each of these yields.

  Every call of the lease runs without awaiting anything, so an interleaving of
  calls is a sequence of events.
-/
import MercuryRelay.Lease.Submit
import MercuryRelay.Lib.Run

set_option autoImplicit false

namespace MercuryRelay

open Python

inductive LeaseEvent where
  /-- `_pump` takes one output frame of the controller -/
  | frame (env : Surroundings) (now : ℚ) (text : Str)
  | attach (env : Surroundings) (now : ℚ) (request : AttachRequest)
  | detach (a : ℕ) (reason : DetachReason)
  | submit (env : Surroundings) (a : ℕ) (text : Str)
  | taskDone (task : LocalTask) (reply : DispatcherReply)
  | next (a : ℕ)
  | release (reason : String)
  | finishRelease (closed : Bool)
  /-- the controller reads its next request -/
  | controllerReads
  /-- the controller closes the websocket -/
  | controllerCloses (code : ℕ) (reason : String)
  /-- another lease, or a failing disk, changes the shared recovery store -/
  | storeChanges (store : Option RecoveryStore)
  | start
  /-- the sleep of a task that runs `expire` is over -/
  | sleepElapses (t : ℕ)
  /-- a task that runs `expire` resumes -/
  | expiryResumes (t : ℕ)

inductive LeaseOutput where
  | done
  | raised (fault : LeaseFault)
  /-- a request was taken, and the controller was sent its text or not -/
  | submitted (forwarded : Bool)
  | attached (a : ℕ) (replayGap : Bool)
  | received (item : Received)
  | waiting

/-- An event, and what it yielded. -/
abbrev LeaseLabel := LeaseEvent × LeaseOutput

namespace Lease

/-- One turn of `_pump`: what `_retain` raises releases the lease. -/
def pump (l : Lease) (env : Surroundings) (now : ℚ) (text : Str) : Lease × Option LeaseFault :=
  match l.retain env now text with
  | (l, none) => (l, none)
  | (l, some fault) => (l.release "controller_failed", some fault)

/-- The controller was sent a text: it is the last one in its queue now. -/
def sent (l l' : Lease) (text : Str) : Bool :=
  l'.websocket.inbound = l.websocket.inbound ++ [.text text]

/-- What a submitted text yields. -/
def submitOutput (l l' : Lease) (text : Str) : Option LeaseFault → LeaseOutput
  | none => .submitted (l.sent l' text)
  | some fault => .raised fault

/-- The lease after an event, and what the event yields. -/
def perform (l : Lease) : LeaseEvent → Lease × LeaseOutput
  | .frame env now text =>
    match l.pump env now text with
    | (l, none) => (l, .done)
    | (l, some fault) => (l, .raised fault)
  | .attach env now request =>
    match l.attach env now request with
    | (l, .ok a) => (l, .attached a (l.heap a).replayGap)
    | (l, .error fault) => (l, .raised fault)
  | .detach a reason => (l.detach a reason, .done)
  | .submit env a text =>
    let (l', fault) := l.feedText env a text
    (l', l.submitOutput l' text fault)
  | .taskDone task reply => ((l.finishTask task reply).1, .done)
  | .next a =>
    match l.nextText a with
    | (l, .ok (some item)) => (l, .received item)
    | (l, .ok none) => (l, .waiting)
    | (l, .error fault) => (l, .raised fault)
  | .release reason => (l.release reason, .done)
  | .finishRelease closed => (l.finishRelease closed, .done)
  | .controllerReads => (l.withWebsocket l.websocket.receiveText.2, .done)
  | .controllerCloses code reason => (l.withWebsocket (l.websocket.close code reason), .done)
  | .storeChanges store =>
    (l.withProjection { l.recoveryProjection with store := store }, .done)
  | .start => (l.start, .done)
  | .sleepElapses t => (l.elapse t, .done)
  | .expiryResumes t => (l.resumeExpiry t, .done)

/-- When an event may happen: a call names an attachment there is, and a task
    ends that runs.  A lease that was released finishes. -/
def Enabled (l : Lease) : LeaseEvent → Prop
  | .detach a _ | .submit _ a _ | .next a => a < l.opened
  | .taskDone task _ => task ∈ l.readTasks
  | .finishRelease _ => l.released
  | .sleepElapses t => ∃ task ∈ l.expiry.tasks[t]?, task.phase = .sleeping
  | .expiryResumes t => ∃ task ∈ l.expiry.tasks[t]?,
      task.phase ≠ .done ∧ (task.phase = .elapsed ∨ task.cancelling = true)
  | _ => True

instance (l : Lease) (e : LeaseEvent) : Decidable (l.Enabled e) := by
  cases e <;> unfold Enabled <;> infer_instance

/-- One event happens. -/
def Step (l : Lease) (label : LeaseLabel) (l' : Lease) : Prop :=
  l.Enabled label.1 ∧ l.perform label.1 = (l', label.2)

/-- What happens to a lease over time. -/
abbrev Run := Transition.Run Step

/-- A lease as `__init__` makes it. -/
structure Fresh (l : Lease) : Prop where
  ring : l.ring = []
  ringBytes : l.ringBytes = 0
  lastSeq : l.lastSeq = 0
  trimmedThrough : l.trimmedThrough = 0
  opened : l.opened = 0
  attachment : l.attachment = none
  submissions : l.submissions = []
  mutations : l.mutations = []
  readTasks : l.readTasks = []
  expiry : l.expiry = {}
  pumpStarted : l.pumpStarted = false
  capReleaseScheduled : l.capReleaseScheduled = false
  recoveryEnabled : l.recoveryEnabled = false
  released : l.released = false

/-- A text that is taken. -/
theorem submit_step {l : Lease} {env : Surroundings} {a : ℕ} {text : Str} (ha : a < l.opened)
    (h : (l.feedText env a text).2 = none) : Step l
      (.submit env a text, .submitted (l.sent (l.feedText env a text).1 text)) (l.feedText env a text).1 := by
  refine ⟨ha, ?_⟩
  simp only [perform, h, submitOutput]

/-- A frame that is retained. -/
theorem frame_step {l : Lease} {env : Surroundings} {now : ℚ} {text : Str}
    (h : (l.pump env now text).2 = none) :
    Step l (.frame env now text, .done) (l.pump env now text).1 := by
  refine ⟨trivial, ?_⟩
  rcases hp : l.pump env now text with ⟨m, fault⟩
  obtain rfl : fault = none := by rw [← h, hp]
  simp only [perform, hp]

/-- Execute events one after another; `none` where one is not enabled. -/
def execute : Lease → List LeaseEvent → Option (Lease × List LeaseLabel)
  | l, [] => some (l, [])
  | l, e :: es =>
    if l.Enabled e then
      (execute (l.perform e).1 es).map fun r => (r.1, (e, (l.perform e).2) :: r.2)
    else none

/-- An execution is a run. -/
theorem run_of_execute {l : Lease} {es : List LeaseEvent} {r : Lease × List LeaseLabel}
    (h : execute l es = some r) : Run l r.2 r.1 := by
  induction es generalizing l r with
  | nil => cases h; exact .nil
  | cons e es ih =>
    unfold execute at h
    split at h
    · rename_i he
      obtain ⟨r', hr', rfl⟩ := Option.map_eq_some_iff.1 h
      exact .cons ⟨he, rfl⟩ (ih hr')
    · cases h

theorem execute_events {l : Lease} {es : List LeaseEvent} {r : Lease × List LeaseLabel}
    (h : execute l es = some r) : r.2.map Prod.fst = es := by
  induction es generalizing l r with
  | nil => cases h; rfl
  | cons e es ih =>
    unfold execute at h
    split at h
    · obtain ⟨r', hr', rfl⟩ := Option.map_eq_some_iff.1 h
      exact congrArg (e :: ·) (ih hr')
    · cases h

end Lease

/-! ## What a trace holds -/

/-- The frames of a trace, in order. -/
def framesOf (trace : List LeaseLabel) : List Str :=
  trace.filterMap fun label => match label.1 with
    | .frame _ _ text => some text
    | _ => none

/-- What the consumer of `a` got in a trace, in order. -/
def receivedBy (a : ℕ) (trace : List LeaseLabel) : List Received :=
  trace.filterMap fun label => match label with
    | (.next b, .received item) => if b = a then some item else none
    | _ => none

theorem framesOf_append (s t : List LeaseLabel) : framesOf (s ++ t) = framesOf s ++ framesOf t :=
  List.filterMap_append

theorem receivedBy_append (a : ℕ) (s t : List LeaseLabel) :
    receivedBy a (s ++ t) = receivedBy a s ++ receivedBy a t := List.filterMap_append

end MercuryRelay
