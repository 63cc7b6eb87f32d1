/-
  The state of a session lease (session_lease.py): the retained ring, the
  attachments, the submission and mutation ledgers.

  Attachments are objects with an identity; `heap` holds them by number, and
  `attachment` is the number of the current one.  An item of a live queue
  carries, besides its text, where it came from; no function reads that.
-/
import Mathlib.Data.Rat.Defs
import MercuryRelay.Identity
import MercuryRelay.Python.Dict
import MercuryRelay.Recovery.Projection
import MercuryRelay.VirtualWebSocket

set_option autoImplicit false

namespace MercuryRelay

open Python

def maxSubmissionIdText : ℕ := 128
def maxCursor : ℤ := 2 ^ 63 - 1
def maxReadsInFlight : ℕ := 8
def maxLocalMutations : ℕ := 8
def maxLocalRequestIdBytes : ℕ := 128

/-- The waiters a submission in flight keeps. -/
def maxWaiters : ℕ := 8

/-- What a call into the lease may raise. -/
inductive LeaseFault where
  | released
  | session (reason : String)
  | attachRejected (reason : String)
  | feed (fault : FeedFault)
  | observe (fault : ObserveFault)
  | unicode
  | recursion
  | typeError
  deriving DecidableEq

/-- `LeaseLimits`, which `validate` has accepted. -/
structure LeaseLimits where
  maxEvents : ℕ := 256
  maxEventBytes : ℕ := 4194304
  maxEventAgeSeconds : ℚ := 600
  detachTtlSeconds : ℚ := 1800
  maxTrackedSubmissions : ℕ := 64
  maxEvents_pos : 1 ≤ maxEvents := by decide
  maxEventBytes_pos : 1 ≤ maxEventBytes := by decide
  maxEventAgeSeconds_pos : 0 < maxEventAgeSeconds := by decide
  detachTtlSeconds_pos : 0 < detachTtlSeconds := by decide
  maxTrackedSubmissions_pos : 1 ≤ maxTrackedSubmissions := by decide

/-- The defaults. -/
def LeaseLimits.standard : LeaseLimits := {}

structure RetainedEvent where
  leaseSeq : ℕ
  text : Str
  size : ℕ
  storedAt : ℚ
  deriving DecidableEq

/-- The `result` or the `error` of a response. -/
inductive Outcome where
  | result (value : Json)
  | error (value : Json)
  deriving DecidableEq

/-- What a synthesized response answers. -/
inductive AnswerCause where
  | submission (submissionId : Str)
  | mutation (identity : Raw)
  | read
  deriving DecidableEq

/-- Where an item of a live queue came from. -/
inductive LiveOrigin where
  | frame (leaseSeq : ℕ)
  | answer (cause : AnswerCause) (response : Json)
  deriving DecidableEq

structure LiveText where
  text : Str
  origin : LiveOrigin
  deriving DecidableEq

inductive DetachReason where
  | leaseReleased | attachmentReplaced | attachmentBackpressure | detached | admissionFailed
  | other (reason : String)
  deriving DecidableEq

structure LeaseAttachment where
  replay : List RetainedEvent := []
  replayGap : Bool := false
  preamble : Option Str := none
  recovery : Bool := false
  replayComplete : Option Str := none
  live : List LiveText := []
  liveBytes : ℤ := 0
  detached : Bool := false
  detachReason : Option DetachReason := none
  deriving DecidableEq

instance : Inhabited LeaseAttachment := ⟨{}⟩

/-- A request that waits for an outcome: its identifier, and the attachment it
    came on. -/
abbrev Waiter := Json × ℕ

structure SubmissionRecord where
  requestId : Json
  outcome : Option Outcome := none
  waiters : List Waiter := []

structure LocalMutationRecord where
  payloadFingerprint : Raw
  outcome : Option Outcome := none
  waiters : List Waiter := []

/-- A task of `_read_tasks` that is not done: what it asks of the dispatcher,
    and where its answer goes. -/
inductive LocalTask where
  | read (method : Str) (params : List (Str × Json)) (requestId : Json) (attachment : ℕ)
  | mutation (method : Str) (params : List (Str × Json)) (identity : Raw)
  deriving DecidableEq

/-- How far a task that runs `expire` got: it sleeps, its sleep is over and it is
    due to resume, or it is done. -/
inductive ExpiryPhase where
  | sleeping | elapsed | done
  deriving DecidableEq

/-- A task that runs `expire`, and whether its cancellation was requested. -/
structure ExpiryTask where
  phase : ExpiryPhase := .sleeping
  cancelling : Bool := false
  deriving DecidableEq

/-- `task.cancel()`, unless it is done. -/
def ExpiryTask.cancel (task : ExpiryTask) : ExpiryTask :=
  if task.phase = .done then task else { task with cancelling := true }

/-- The tasks created for `expire`, and the number of the one in
    `_expiry_task`. -/
structure ExpiryTimer where
  tasks : List ExpiryTask := []
  task : Option ℕ := none
  deriving DecidableEq

structure Lease where
  deviceId : Str := []
  channel : Str := []
  profile : Str := []
  authorizationEpoch : Option ℤ := none
  leaseId : Str := []
  limits : LeaseLimits := .standard
  depths : JsonDepths := ⟨900, 900⟩
  hasReadDispatcher : Bool := false
  websocket : VirtualWebSocket := {}
  recoveryProjection : RecoveryProjection := { profile := [] }
  recoveryEnabled : Bool := false
  ring : List RetainedEvent := []
  ringBytes : ℤ := 0
  lastSeq : ℕ := 0
  trimmedThrough : ℕ := 0
  heap : ℕ → LeaseAttachment := fun _ => default
  opened : ℕ := 0
  attachment : Option ℕ := none
  submissions : Dict Str SubmissionRecord := []
  mutations : Dict Raw LocalMutationRecord := []
  readTasks : List LocalTask := []
  released : Bool := false
  releaseReason : Option String := none
  releaseSucceeded : Bool := false
  pumpStarted : Bool := false
  expiry : ExpiryTimer := {}
  /-- a release for the retention cap is scheduled -/
  capReleaseScheduled : Bool := false

instance : Inhabited Lease := ⟨{}⟩

namespace Lease

def withSubmissions (l : Lease) (submissions : Dict Str SubmissionRecord) : Lease :=
  { l with submissions := submissions }

def withMutations (l : Lease) (mutations : Dict Raw LocalMutationRecord) : Lease :=
  { l with mutations := mutations }

def withTasks (l : Lease) (readTasks : List LocalTask) : Lease := { l with readTasks := readTasks }

def withWebsocket (l : Lease) (websocket : VirtualWebSocket) : Lease :=
  { l with websocket := websocket }

def withProjection (l : Lease) (recoveryProjection : RecoveryProjection) : Lease :=
  { l with recoveryProjection := recoveryProjection }

end Lease

end MercuryRelay
