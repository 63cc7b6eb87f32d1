/-
  Attachments: what a lease delivers to its outer consumer, and how one ends.
-/
import MercuryRelay.Lease.State

set_option autoImplicit false

namespace MercuryRelay

open Python

/-- The text of a reason. -/
def DetachReason.text : DetachReason → String
  | .leaseReleased => "lease_released"
  | .attachmentReplaced => "attachment_replaced"
  | .attachmentBackpressure => "attachment_backpressure"
  | .detached => "detached"
  | .admissionFailed => "admission_failed"
  | .other reason => reason

/-- `_mark_detached`.  An attachment that lost its lease or its place drops what
    it still had queued. -/
def LeaseAttachment.markDetached (a : LeaseAttachment) (reason : DetachReason) : LeaseAttachment :=
  let a := if reason = .leaseReleased ∨ reason = .attachmentReplaced then
    { a with preamble := none, replayComplete := none, replay := [], live := [], liveBytes := 0 }
  else a
  if a.detached then a else { a with detached := true, detachReason := some reason }

/-- The octets of a text that encodes. -/
def byteSize (text : Str) : ℕ := ((utf8 text).getD []).length

/-- `frame_text`. -/
def frameText (leaseId : Str) (event : RetainedEvent) (replay : Bool) : Str :=
  write compactUnicode (.obj
    [(lit "jsonrpc", .str (lit "2.0")), (lit "method", .str (lit "relay.lease.frame")),
     (lit "params", .obj
       [(lit "lease_id", .str leaseId), (lit "seq", .int event.leaseSeq),
        (lit "replay", .bool replay), (lit "frame", .str event.text)])])

/-- The text that ends the replay of a recovery attachment. -/
def replayCompleteText (leaseId : Str) (lastSeq : ℕ) : Str :=
  write plainAscii (.obj
    [(lit "jsonrpc", .str (lit "2.0")), (lit "method", .str (lit "relay.lease.replay_complete")),
     (lit "params", .obj [(lit "lease_id", .str leaseId), (lit "last_seq", .int lastSeq)])])

/-- What a consumer gets: the preamble, a replayed event, the end of the
    replay, or an item of the live queue. -/
inductive Received where
  | preamble (text : Str)
  | replayed (leaseSeq : ℕ) (text : Str)
  | replayComplete (text : Str)
  | live (item : LiveText)
  deriving DecidableEq

def Received.text : Received → Str
  | .preamble text | .replayed _ text | .replayComplete text => text
  | .live item => item.text

namespace ExpiryTimer

/-- The current task is cancelled.  No task that runs `expire` does this, so that
    the task to cancel is never the one that runs. -/
def cancel (x : ExpiryTimer) : ExpiryTimer :=
  match x.task with
  | none => x
  | some t => { tasks := x.tasks.modify t ExpiryTask.cancel, task := none }

/-- A new task that runs `expire`. -/
def create (x : ExpiryTimer) : ExpiryTimer :=
  { tasks := x.tasks ++ [{}], task := some x.tasks.length }

/-- The sleep of a task is over. -/
def elapse (x : ExpiryTimer) (t : ℕ) : ExpiryTimer :=
  { x with tasks := x.tasks.modify t fun task => { task with phase := .elapsed } }

/-- A task ends. -/
def finish (x : ExpiryTimer) (t : ℕ) : ExpiryTimer :=
  { x with tasks := x.tasks.modify t fun task => { task with phase := .done } }

/-- Every task has ended, and none is current. -/
def finishAll (x : ExpiryTimer) : ExpiryTimer :=
  { tasks := x.tasks.map fun task => { task with phase := .done }, task := none }

end ExpiryTimer

namespace Lease

/-- `_cancel_expiry`. -/
def cancelExpiry (l : Lease) : Lease := { l with expiry := l.expiry.cancel }

/-- `_schedule_expiry`. -/
def scheduleExpiry (l : Lease) : Lease :=
  { l with expiry :=
      if l.released ∨ l.attachment.isSome then l.expiry.cancel else l.expiry.cancel.create }

/-- `start`; the pump itself is the events that give the lease its frames. -/
def start (l : Lease) : Lease :=
  if l.released ∨ l.pumpStarted then l else { l with pumpStarted := true }.scheduleExpiry

/-- Change the attachment with number `a`. -/
def modifyAttachment (l : Lease) (a : ℕ) (f : LeaseAttachment → LeaseAttachment) : Lease :=
  { l with heap := fun b => if b = a then f (l.heap a) else l.heap b }

/-- `detach`. -/
def detach (l : Lease) (a : ℕ) (reason : DetachReason) : Lease :=
  (if l.attachment = some a then scheduleExpiry { l with attachment := none } else l).modifyAttachment
    a (·.markDetached reason)

/-- `_deliver`: an attachment without room is detached instead. -/
def deliver (l : Lease) (a : ℕ) (item : LiveText) : Lease :=
  if l.limits.maxEvents ≤ (l.heap a).live.length ∨
      (l.limits.maxEventBytes : ℤ) < (l.heap a).liveBytes + byteSize item.text then
    l.detach a .attachmentBackpressure
  else l.modifyAttachment a fun att => { att with
    live := att.live ++ [item], liveBytes := att.liveBytes + byteSize item.text }

/-- `_deliver_local`: one synthesized response, to the current attachment only. -/
def deliverLocal (l : Lease) (cause : AnswerCause) (response : Json) (a : ℕ) :
    Lease × Option LeaseFault :=
  if l.released ∨ l.attachment ≠ some a ∨ (l.heap a).detached then (l, none)
  else
    match dumps l.depths compactUnicode response with
    | none => (l, some .recursion)
    | some text =>
      if (utf8 text).isSome then (l.deliver a ⟨text, .answer cause response⟩, none)
      else (l, some .unicode)

/-- A response with an identifier and one more member. -/
def response (requestId : Json) (member : Str × Json) : Json :=
  .obj [(lit "jsonrpc", .str (lit "2.0")), (lit "id", requestId), member]

def outcomeMember : Outcome → Str × Json
  | .result value => (lit "result", value)
  | .error value => (lit "error", value)

/-- `_deliver_outcome`. -/
def deliverOutcome (l : Lease) (cause : AnswerCause) (outcome : Outcome) (waiter : Waiter) :
    Lease × Option LeaseFault :=
  l.deliverLocal cause (response waiter.1 (outcomeMember outcome)) waiter.2

/-- Deliver an outcome to waiters in turn; what raises ends it. -/
def deliverOutcomes (cause : AnswerCause) (outcome : Outcome) : Lease → List Waiter →
    Lease × Option LeaseFault
  | l, [] => (l, none)
  | l, waiter :: waiters =>
    match l.deliverOutcome cause outcome waiter with
    | (l, some fault) => (l, some fault)
    | (l, none) => deliverOutcomes cause outcome l waiters

/-- `next_text`: what the consumer gets, or `none` while it waits. -/
def nextText (l : Lease) (a : ℕ) : Lease × Except LeaseFault (Option Received) :=
  let att := l.heap a
  if l.released then (l, .error .released)
  else
    match att.preamble, att.replay, att.replayComplete, att.live with
    | some text, _, _, _ =>
      (l.modifyAttachment a fun att => { att with preamble := none }, .ok (some (.preamble text)))
    | none, event :: replay, _, _ =>
      (l.modifyAttachment a fun att => { att with replay := replay },
        .ok (some (.replayed event.leaseSeq
          (if att.recovery then frameText l.leaseId event true else event.text))))
    | none, [], some text, _ =>
      (l.modifyAttachment a fun att => { att with replayComplete := none },
        .ok (some (.replayComplete text)))
    | none, [], none, item :: live =>
      (l.modifyAttachment a fun att => { att with
        live := live, liveBytes := att.liveBytes - byteSize item.text }, .ok (some (.live item)))
    | none, [], none, [] =>
      if att.detached then
        (l, .error (if att.detachReason = some .leaseReleased then .released
          else .session ((att.detachReason.map (·.text)).getD "attachment_detached")))
      else (l, .ok none)

/-- The fence of `release`: what happens before anything is awaited. -/
def release (l : Lease) (reason : String) : Lease :=
  if l.released then l
  else
    let l := { l with released := true, releaseReason := some reason }
    match l.attachment with
    | none => l
    | some a => { l with attachment := none }.modifyAttachment a (·.markDetached .leaseReleased)

/-- The sleep of a task that runs `expire` is over. -/
def elapse (l : Lease) (t : ℕ) : Lease := { l with expiry := l.expiry.elapse t }

/-- A task that runs `expire` resumes: with the `CancelledError` that was
    requested, or to release the lease. -/
def resumeExpiry (l : Lease) (t : ℕ) : Lease :=
  let l' := { l with expiry := l.expiry.finish t }
  match l.expiry.tasks[t]? with
  | none => l'
  | some task => if task.cancelling then l' else l'.release "expired"

/-- `_finish_release`; `closed` says whether the controller closed. -/
def finishRelease (l : Lease) (closed : Bool) : Lease :=
  { l with
    expiry := l.expiry.finishAll
    readTasks := []
    ring := []
    ringBytes := 0
    submissions := []
    mutations := []
    websocket := l.websocket.close 1000 "lease_released"
    releaseSucceeded := l.releaseSucceeded || closed }

end Lease

end MercuryRelay
