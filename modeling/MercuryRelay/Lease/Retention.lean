/-
  Retention: what a lease does with one output frame of its controller.
-/
import MercuryRelay.Lease.Attachment

set_option autoImplicit false

namespace MercuryRelay

open Python

/-- Drop events from the front of the ring while a limit is passed. -/
def trimLoop (limits : LeaseLimits) (now : ℚ) : List RetainedEvent → ℤ → ℕ → Bool →
    List RetainedEvent × ℤ × ℕ × Bool
  | [], bytes, trimmed, overflow => ([], bytes, trimmed, overflow)
  | e :: ring, bytes, trimmed, overflow =>
    if limits.maxEvents < ring.length + 1 ∨ (limits.maxEventBytes : ℤ) < bytes ∨
        limits.maxEventAgeSeconds < now - e.storedAt then
      trimLoop limits now ring (bytes - e.size) e.leaseSeq
        (overflow || limits.maxEvents < ring.length + 1 ||
          (limits.maxEventBytes : ℤ) < bytes - e.size + e.size)
    else (e :: ring, bytes, trimmed, overflow)

/-- The outcome a response carries. -/
def outcomeOf (value : List (Str × Json)) : Option Outcome :=
  match Json.lookup value (lit "result"), Json.lookup value (lit "error") with
  | some v, _ => some (.result v)
  | none, some v => some (.error v)
  | none, none => none

/-- The identifier of a response: a parsed object without `method`. -/
def responseId (value : List (Str × Json)) : Option Json :=
  if Json.hasKey value (lit "method") then none
  else
    match Json.lookup value (lit "id") with
    | none | some .null => none
    | some rid => some rid

/-- A record that has its outcome, and no more waiters. -/
def SubmissionRecord.settle (record : SubmissionRecord) (outcome : Outcome) : SubmissionRecord :=
  { record with outcome := some outcome, waiters := [] }

namespace Lease

/-- `_trim`: the lease, and whether it dropped more than old events. -/
def trim (l : Lease) (now : ℚ) : Lease × Bool :=
  let (ring, bytes, trimmed, overflow) :=
    trimLoop l.limits now l.ring l.ringBytes l.trimmedThrough false
  ({ l with ring := ring, ringBytes := bytes, trimmedThrough := trimmed }, overflow)

/-- The record in flight with this request identifier. -/
def pendingRecord (l : Lease) (rid : Json) : Option (Str × SubmissionRecord) :=
  l.submissions.find? fun item => item.2.outcome.isNone && Json.same item.2.requestId rid

/-- The record a parsed frame settles, and the outcome it carries. -/
def settlesValue (l : Lease) : Option Json → Option (Str × SubmissionRecord × Outcome)
  | some (.obj value) =>
    match responseId value with
    | none => none
    | some rid =>
      match l.pendingRecord rid, outcomeOf value with
      | some (sid, record), some outcome => some (sid, record, outcome)
      | _, _ => none
  | _ => none

/-- The record a frame settles, and the outcome it carries. -/
def settles (l : Lease) (text : Str) : Option (Str × SubmissionRecord × Outcome) :=
  if l.submissions = [] then none else l.settlesValue (loadsStrict l.depths text)

/-- `_record_outcome`. -/
def recordOutcome (l : Lease) (text : Str) : Lease × Option LeaseFault :=
  match l.settles text with
  | none => (l, none)
  | some (sid, record, outcome) =>
    deliverOutcomes (.submission sid) outcome
      (l.withSubmissions (l.submissions.set sid (record.settle outcome))) record.waiters

/-- What the current attachment gets of an event. -/
def liveFrame (l : Lease) (a : ℕ) (event : RetainedEvent) : LiveText :=
  ⟨if (l.heap a).recovery then frameText l.leaseId event false else event.text,
    .frame event.leaseSeq⟩

/-- The end of `_retain`: the event is in the ring, which is trimmed, and the
    current attachment gets it. -/
def appendEvent (l : Lease) (event : RetainedEvent) : Lease :=
  let (l, overflow) := { l with
    ring := l.ring ++ [event], ringBytes := l.ringBytes + event.size }.trim event.storedAt
  if overflow ∧ l.attachment = none ∧ ¬ l.recoveryEnabled then { l with capReleaseScheduled := true }
  else
    match l.attachment with
    | none => l
    | some a => l.deliver a (l.liveFrame a event)

/-- `self.last_seq += 1`. -/
def stamp (l : Lease) : Lease := { l with lastSeq := l.lastSeq + 1 }

/-- `_retain`. -/
def retain (l : Lease) (env : Surroundings) (now : ℚ) (text : Str) : Lease × Option LeaseFault :=
  let l := l.stamp
  match utf8 text with
  | none => (l, some .unicode)
  | some bytes =>
    match l.recordOutcome text with
    | (l, some fault) => (l, some fault)
    | (l, none) =>
      match l.recoveryProjection.observe l.depths env text with
      | (projection, some fault) => (l.withProjection projection, some (.observe fault))
      | (projection, none) =>
        ((l.withProjection projection).appendEvent ⟨l.lastSeq, text, bytes.length, now⟩, none)

end Lease

end MercuryRelay
