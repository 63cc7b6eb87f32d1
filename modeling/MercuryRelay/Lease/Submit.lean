/-
  Requests from the device: those the relay answers itself, the submissions it
  tracks, and the rest, which it forwards.
-/
import MercuryRelay.Lease.Attach
import MercuryRelay.Python.Sha256

set_option autoImplicit false

namespace MercuryRelay

open Python

/-- `RELAY_LOCAL_METHODS`. -/
def relayLocalMethods : List Str :=
  [lit "relay.status", lit "relay.sessions.list", lit "relay.session.transcript",
   lit "relay.image.read", lit "relay.folders.list", lit "relay.folders.create",
   lit "relay.push.register", lit "relay.push.preview.register", lit "relay.push.unregister",
   lit "relay.push.resolve", lit "relay.push.inspect"]

/-- `RELAY_MUTATION_METHODS`. -/
def relayMutationMethods : List Str := [lit "relay.folders.create"]

/-- `_valid_local_request_id`, of a text or an integer. -/
def validLocalRequestId : Json → Bool
  | .str s =>
    match utf8 s with
    | some bytes => 1 ≤ bytes.length && bytes.length ≤ maxLocalRequestIdBytes
    | none => false
  | .int n => -(2 ^ 63) ≤ n && n < 2 ^ 63
  | _ => false

/-- The identifier and the parameters of a request the relay answers itself. -/
def localRequest (request : List (Str × Json)) : Option (Json × List (Str × Json)) :=
  let requestId := (Json.lookup request (lit "id")).getD .null
  if Json.lookup request (lit "jsonrpc") ≠ some (.str (lit "2.0")) then none
  else if ¬ request.all (fun m => m.1 ∈ requestFields) then none
  else if ¬ validLocalRequestId requestId then none
  else
    match (Json.lookup request (lit "params")).getD (.obj []) with
    | .obj params => some (requestId, params)
    | _ => none

/-- The error member of a response the relay makes. -/
def relayError (message : Str) : Outcome :=
  .error (.obj [(lit "code", .int (-32000)), (lit "message", .str message)])

/-- How a call of the read dispatcher ended. -/
inductive DispatcherReply where
  | result (value : Json)
  | readsError (reason : Str)
  | failed

def DispatcherReply.outcome : DispatcherReply → Outcome
  | .result value => .result value
  | .readsError reason => relayError reason
  | .failed => relayError (lit "read_failed")

/-- `_parse_submission`. -/
def parseSubmission : Option Json → Except LeaseFault (Option (Str × Json))
  | some (.obj value) =>
    if Json.lookup value (lit "method") ≠ some (.str (lit "prompt.submit")) then .ok none
    else
      match Json.lookup value (lit "params") with
      | some (.obj params) =>
        match Json.lookup params (lit "submission_id") with
        | none => .ok none
        | some (.str sid) =>
          if 1 ≤ sid.length ∧ sid.length ≤ maxSubmissionIdText then
            .ok (some (sid, (Json.lookup value (lit "id")).getD .null))
          else .error (.session "invalid_submission_id")
        | some _ => .error (.session "invalid_submission_id")
      | _ => .ok none
  | _ => .ok none

/-- Drop the first record that has its outcome. -/
def evictFirst {κ α : Type} (settled : α → Bool) : Dict κ α → Option (Dict κ α)
  | [] => none
  | (key, record) :: d =>
    if settled record then some d else (evictFirst settled d).map ((key, record) :: ·)

/-- `(request_id, attachment) in waiters`. -/
def isWaiting (waiters : List Waiter) (requestId : Json) (a : ℕ) : Bool :=
  waiters.any fun w => Json.same w.1 requestId && w.2 = a

/-- A duplicate of a submission in flight finds a place among its waiters while
    there is one, and only once. -/
def SubmissionRecord.await (record : SubmissionRecord) (waiter : Waiter) : SubmissionRecord :=
  if record.waiters.length < maxWaiters ∧ ¬ isWaiting record.waiters waiter.1 waiter.2 then
    { record with waiters := record.waiters ++ [waiter] }
  else record

/-- A record that has its outcome, and no more waiters. -/
def LocalMutationRecord.settle (record : LocalMutationRecord) (outcome : Outcome) :
    LocalMutationRecord :=
  { record with outcome := some outcome, waiters := [] }

/-- A request for a task of the dispatcher, as it is digested. -/
def digestJson (depths : JsonDepths) (v : Json) : Option Raw :=
  if v.finite then (dumps depths compactSorted v).bind fun text => (utf8 text).map sha256 else none

/-- What a mutation does. -/
def payloadFingerprint (depths : JsonDepths) (method : Str) (params : List (Str × Json)) :
    Option Raw :=
  digestJson depths (.obj [(lit "method", .str method), (lit "params", .obj params)])

/-- Which mutation a request asks for, or asks for again. -/
def requestIdentity (depths : JsonDepths) (method : Str) (requestId : Json) : Option Raw :=
  digestJson depths (.obj [(lit "method", .str method), (lit "id", requestId)])

namespace Lease

/-! ## Requests the relay answers itself -/

/-- A response with an error of the relay. -/
def deliverError (l : Lease) (cause : AnswerCause) (message : String) (requestId : Json) (a : ℕ) :
    Lease × Option LeaseFault :=
  l.deliverOutcome cause (relayError (lit message)) (requestId, a)

/-- `_start_read`. -/
def startRead (l : Lease) (a : ℕ) (method : Str) (request : List (Str × Json)) :
    Lease × Option LeaseFault :=
  match localRequest request with
  | none => (l, some (.session "invalid_read_request"))
  | some (requestId, params) =>
    if maxReadsInFlight ≤ l.readTasks.length then
      l.deliverError .read "rate_limited" requestId a
    else (l.withTasks (l.readTasks ++ [.read method params requestId a]), none)

/-- A mutation that was asked for before. -/
def repeatMutation (l : Lease) (a : ℕ) (identity payload : Raw) (record : LocalMutationRecord)
    (requestId : Json) : Lease × Option LeaseFault :=
  let l := l.withMutations (l.mutations.moveToEnd identity)
  if record.payloadFingerprint ≠ payload then
    l.deliverError (.mutation identity) "invalid_params" requestId a
  else
    match record.outcome with
    | some outcome => l.deliverOutcome (.mutation identity) outcome (requestId, a)
    | none =>
      if isWaiting record.waiters requestId a then (l, none)
      else
        -- only the current attachment waits: a reconnect takes the place of its predecessors
        let record := { record with waiters := [(requestId, a)] }
        (l.withMutations (l.mutations.set identity record), none)

/-- A mutation whose record is made. -/
def beginMutation (l : Lease) (a : ℕ) (identity payload : Raw) (method : Str)
    (params : List (Str × Json)) (requestId : Json) : Lease :=
  (l.withMutations (l.mutations.set identity
    { payloadFingerprint := payload, waiters := [(requestId, a)] })).withTasks
    (l.readTasks ++ [.mutation method params identity])

/-- `_start_mutation`. -/
def startMutation (l : Lease) (a : ℕ) (method : Str) (request : List (Str × Json)) :
    Lease × Option LeaseFault :=
  match localRequest request with
  | none => (l, some (.session "invalid_read_request"))
  | some (requestId, params) =>
    match payloadFingerprint l.depths method params, requestIdentity l.depths method requestId with
    | some payload, some identity =>
      match l.mutations.get identity with
      | some record => l.repeatMutation a identity payload record requestId
      | none =>
        if min l.limits.maxTrackedSubmissions maxLocalMutations ≤ l.mutations.length then
          match evictFirst (fun r => r.outcome.isSome) l.mutations with
          | some mutations =>
            ((l.withMutations mutations).beginMutation a identity payload method params requestId,
              none)
          | none => l.deliverError (.mutation identity) "rate_limited" requestId a
        else (l.beginMutation a identity payload method params requestId, none)
    | _, _ => (l, some (.session "invalid_read_request"))

/-- A mutation has its outcome.  One that failed is forgotten when its waiters
    know, so that a new request may try again. -/
def settleMutation (l : Lease) (identity : Raw) (record : LocalMutationRecord) (outcome : Outcome) :
    Lease × Option LeaseFault :=
  match deliverOutcomes (.mutation identity) outcome
      (l.withMutations (l.mutations.set identity (record.settle outcome))) record.waiters with
  | (l, some fault) => (l, some fault)
  | (l, none) =>
    match outcome with
    | .result _ => (l, none)
    | .error _ => (l.withMutations (l.mutations.remove identity), none)

/-- The end of a task of the dispatcher; a fault stays in the task. -/
def finishTask (l : Lease) (task : LocalTask) (reply : DispatcherReply) :
    Lease × Option LeaseFault :=
  let l := l.withTasks (l.readTasks.erase task)
  match task with
  | .read _ _ requestId a => l.deliverOutcome .read reply.outcome (requestId, a)
  | .mutation _ _ identity =>
    if l.released then (l, none)
    else
      match l.mutations.get identity with
      | none => (l, none)
      | some record => l.settleMutation identity record reply.outcome

/-! ## Submissions -/

/-- A new submission is recorded, then forwarded.  The record goes again when
    the websocket refuses the text. -/
def forwardSubmission (l : Lease) (env : Surroundings) (text sid : Str) (requestId : Json) :
    Lease × Option LeaseFault :=
  let l := l.withSubmissions (l.submissions.set sid { requestId := requestId })
  match l.websocket.feedText l.depths env.profileAuthorizer text with
  | (.ok _, websocket) => (l.withWebsocket websocket, none)
  | (.error fault, websocket) =>
    if fault.isVirtual then
      ((l.withWebsocket websocket).withSubmissions (l.submissions.remove sid), some (.feed fault))
    else (l.withWebsocket websocket, some (.feed fault))

/-- A new submission; a full table drops its oldest settled record. -/
def newSubmission (l : Lease) (env : Surroundings) (text sid : Str) (requestId : Json) :
    Lease × Option LeaseFault :=
  if l.limits.maxTrackedSubmissions ≤ l.submissions.length then
    match evictFirst (fun r => r.outcome.isSome) l.submissions with
    | some submissions => (l.withSubmissions submissions).forwardSubmission env text sid requestId
    | none => (l, some (.session "submission_tracking_exhausted"))
  else l.forwardSubmission env text sid requestId

/-- A submission that has a record: its outcome, or a place among the waiters. -/
def repeatSubmission (l : Lease) (a : ℕ) (sid : Str) (record : SubmissionRecord)
    (requestId : Json) : Lease × Option LeaseFault :=
  match record.outcome with
  | some outcome => l.deliverOutcome (.submission sid) outcome (requestId, a)
  | none => (l.withSubmissions (l.submissions.set sid (record.await (requestId, a))), none)

/-- The rest of `submit_text`: a submission, or a request that is forwarded. -/
def submitRequest (l : Lease) (env : Surroundings) (a : ℕ) (text : Str) (value : Option Json) :
    Lease × Option LeaseFault :=
  match parseSubmission value with
  | .error fault => (l, some fault)
  | .ok none =>
    match l.websocket.feedText l.depths env.profileAuthorizer text with
    | (.error fault, websocket) => (l.withWebsocket websocket, some (.feed fault))
    | (.ok _, websocket) =>
      ((l.withWebsocket websocket).withProjection (l.recoveryProjection.request env value), none)
  | .ok (some (sid, requestId)) =>
    match l.submissions.get sid with
    | none => l.newSubmission env text sid requestId
    | some record => l.repeatSubmission a sid record requestId

/-- `submit_text`; `value.get("method") in RELAY_LOCAL_METHODS` hashes the
    method first. -/
def submitText (l : Lease) (env : Surroundings) (a : ℕ) (text : Str) : Lease × Option LeaseFault :=
  if l.released then (l, some .released)
  else if l.attachment ≠ some a then (l, some (.session "attachment_detached"))
  else
    let value := loadsStrict l.depths text
    match value with
    | some (.obj request) =>
      match Json.lookup request (lit "method") with
      | some (.str method) =>
        if method ∈ relayLocalMethods ∧ l.hasReadDispatcher then
          if method ∈ relayMutationMethods then l.startMutation a method request
          else l.startRead a method request
        else l.submitRequest env a text value
      | some method =>
        if method.hashable then l.submitRequest env a text value else (l, some .typeError)
      | none => l.submitRequest env a text value
    | _ => l.submitRequest env a text value

/-- `LeaseAttachment.feed_text`. -/
def feedText (l : Lease) (env : Surroundings) (a : ℕ) (text : Str) : Lease × Option LeaseFault :=
  if (l.heap a).detached then (l, some (.session "attachment_detached"))
  else l.submitText env a text

end Lease

end MercuryRelay
