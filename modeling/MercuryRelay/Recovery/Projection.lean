/-
  What a lease observes of child tasks (lease_recovery.py,
  `RecoveryProjection`).

  `observe` reads every frame of the controller.  It raises where `kind not in
  {...}` meets a list or an object, which have no hash, and where the store's
  write raises.
-/
import MercuryRelay.Recovery.Store

set_option autoImplicit false

namespace MercuryRelay

open Python

/-- What `observe` may raise: a `TypeError`, or what the store's write raised. -/
inductive ObserveFault where
  | unhashable
  | storeWrite
  deriving DecidableEq

/-- What the projection asks its surroundings during one call: the clock of the store, put
    after put, and which profiles exist. -/
structure Surroundings where
  readings : ℕ → Readings
  profileAuthorizer : Str → Bool

namespace Surroundings

/-- The first reading of the clock. -/
def wall (env : Surroundings) : ℚ := (env.readings 0).start

/-- Surroundings whose clock stands. -/
def standing (wall : ℚ) (profileAuthorizer : Str → Bool) : Surroundings :=
  ⟨fun _ => ⟨wall, wall, wall⟩, profileAuthorizer⟩

/-- The surroundings after a put. -/
def next (env : Surroundings) : Surroundings := { env with readings := fun k => env.readings (k + 1) }

end Surroundings

/-- A request identifier `request` remembers: a short text or a 64-bit integer. -/
def pendingId : Option Json → Option Json
  | some (.str s) => if 0 < s.length ∧ s.length ≤ 128 then some (.str s) else none
  | some (.int n) => if -(2 ^ 63) ≤ n ∧ n < 2 ^ 63 then some (.int n) else none
  | _ => none

structure RecoveryProjection where
  profile : Str
  store : Option RecoveryStore := none
  scope : Option Scope := none
  pending : Dict Json Str := []
  bindings : Dict Str Binding := []
  tasks : Dict (Str × Str) TaskEvent := []
  truncated : Bool := false
  revision : ℤ := 0

namespace RecoveryProjection

/-- `while len(d) > MAX_ROWS: d.popitem(last=False)`. -/
def bounded {κ α : Type} (d : Dict κ α) : Dict κ α := d.drop (d.length - maxRows)

/-- `request`, on the parsed text of a request that was forwarded. -/
def request (p : RecoveryProjection) (env : Surroundings) (value : Option Json) :
    RecoveryProjection :=
  match value with
  | some (.obj value) =>
    if Json.lookup value (lit "method") = some (.str (lit "session.create")) ∨
        Json.lookup value (lit "method") = some (.str (lit "session.resume")) then
      match pendingId (Json.lookup value (lit "id")),
        (Json.lookup value (lit "params")).getD (.obj []) with
      | some rid, .obj params =>
        match identifier (Json.lookup params (lit "profile")) with
        | some profile =>
          if env.profileAuthorizer profile then
            let pending := p.pending.set rid profile
            { p with
              pending := bounded pending
              truncated := p.truncated || maxRows < pending.length }
          else p
        | none => p
      | _, _ => p
    else p
  | _ => p

/-- `_persist`: the event with its binding, stored if there is a store. -/
def persist (p : RecoveryProjection) (env : Surroundings) (event : TaskEvent) :
    RecoveryProjection × TaskEvent × Option ObserveFault :=
  match p.bindings.get event.sessionId with
  | none => (p, event, none)
  | some binding =>
    if ¬ env.profileAuthorizer binding.profile then (p, event, none)
    else
      let event := { event with
        recoveryBinding := some binding
        durableSessionId := some binding.durableSessionId
        profile := some binding.profile }
      match p.store, p.scope with
      | some store, some scope =>
        match store.put (env.readings 0) scope binding event with
        | (some revision, event, store) =>
          ({ p with store := some store },
            { event with recoveryRevision := revision, relayEventId := some revision }, none)
        | (none, event, store) => ({ p with store := some store }, event, some .storeWrite)
      | _, _ => (p, event, none)

/-- Persist the events of one runtime session, the others as they are. -/
def persistAll (runtime : Str) : Surroundings → RecoveryProjection → Dict (Str × Str) TaskEvent →
    RecoveryProjection × Dict (Str × Str) TaskEvent × Option ObserveFault
  | _, p, [] => (p, [], none)
  | env, p, (key, event) :: tasks =>
    if key.1 = runtime then
      match p.persist env event with
      | (p, event, some fault) => (p, (key, event) :: tasks, some fault)
      | (p, event, none) =>
        let (p, tasks, fault) := persistAll runtime env.next p tasks
        (p, (key, event) :: tasks, fault)
    else
      let (p, tasks, fault) := persistAll runtime env p tasks
      (p, (key, event) :: tasks, fault)

/-- `a or b` of two `get`s. -/
def orElse (a b : Option Json) : Option Json :=
  match a with
  | some v => if v.truthy then some v else b
  | none => b

/-- `result.get("info", {}).get("profile_name")`, when it is an object. -/
def reportedProfile (result : List (Str × Json)) : Option Json :=
  match Json.lookup result (lit "info") with
  | some (.obj info) => Json.lookup info (lit "profile_name")
  | _ => none

/-- A proven binding, under which the events of its session are persisted: some
    hosts emit them before the reply. -/
def bind (p : RecoveryProjection) (env : Surroundings) (binding : Binding) :
    RecoveryProjection × Option ObserveFault :=
  let bindings := p.bindings.set binding.runtimeSessionId binding
  let p := { p with
    bindings := bounded bindings
    truncated := p.truncated || maxRows < bindings.length }
  let (p, tasks, fault) := persistAll binding.runtimeSessionId env p p.tasks
  ({ p with tasks := tasks }, fault)

/-- The reply to the request that named `profile`. -/
def observeResult (p : RecoveryProjection) (env : Surroundings) (profile : Str)
    (result : List (Str × Json)) : RecoveryProjection × Option ObserveFault :=
  let reported := reportedProfile result
  if (reported.map Json.truthy).getD false ∧ reported ≠ some (.str profile) then
    ({ p with truncated := true }, none)
  else
    match identifier (Json.lookup result (lit "session_id")),
      identifier (orElse (Json.lookup result (lit "stored_session_id"))
        (Json.lookup result (lit "session_key"))) with
    | some runtime, some durable =>
      if env.profileAuthorizer profile then p.bind env ⟨runtime, durable, profile, true⟩
      else (p, none)
    | _, _ => (p, none)

/-- A reply to a remembered request may prove a binding. -/
def observeReply (p : RecoveryProjection) (env : Surroundings) (value : List (Str × Json)) :
    RecoveryProjection × Option ObserveFault :=
  match Json.lookup value (lit "id") with
  | some (.str _) | some (.int _) =>
    let rid := (Json.lookup value (lit "id")).getD .null
    let found := p.pending.get rid
    let p := { p with pending := p.pending.remove rid }
    match found, Json.lookup value (lit "result") with
    | some profile, some (.obj result) => p.observeResult env profile result
    | _, _ => (p, none)
  | _ => (p, none)

/-- The kinds of event that report a child task. -/
def childKinds : List Str :=
  [lit "subagent.start", lit "subagent.progress", lit "subagent.tool", lit "subagent.complete"]

/-- The fields of a payload that are kept, its texts cut to their longest. -/
def cleanPayload (raw : List (Str × Json)) : Payload :=
  (raw.filterMap fun (k, v) =>
    match Dict.get textFields k, v with
    | some longest, .str s => some (k, .str (s.take longest))
    | _, _ => none) ++
  countFields.filterMap fun k => (counter (Json.lookup raw k)).map fun n => (k, .int n)

/-- `merged.update(...)` with the values that are not empty. -/
def mergePayload (previous payload : Payload) : Payload :=
  (payload.filter fun item => item.2 ≠ .str []).foldl (fun d item => Dict.set d item.1 item.2)
    previous

/-- A child event, of a known kind and with a runtime session and a payload. -/
def observeChild (p : RecoveryProjection) (env : Surroundings) (kind runtime : Str)
    (raw : List (Str × Json)) : RecoveryProjection × Option ObserveFault :=
  if identityFields.any fun k => ((Json.lookup raw k).map Json.truthy).getD false &&
      (identifier (Json.lookup raw k)).isNone then
    ({ p with truncated := true }, none)
  else
    let payload := cleanPayload raw
    match childKey payload with
    | none => (p, none)
    | some child =>
      let previous := (p.tasks.get (runtime, child)).map (·.payload)
      if (previous.map hasTerminalStatus).getD false then (p, none)
      else
        let p := { p with revision := p.revision + 1 }
        match p.persist env {
            sessionId := runtime
            kind := kind
            payload := mergePayload (previous.getD []) payload
            recoveryRevision := p.revision } with
        | (p, _, some fault) => (p, some fault)
        | (p, event, none) =>
          let tasks := Dict.moveToEnd (p.tasks.set (runtime, child) event) (runtime, child)
          ({ p with
            tasks := bounded tasks
            truncated := p.truncated || maxRows < tasks.length }, none)

/-- An `event` notification; `kind not in {...}` hashes its type first. -/
def observeEvent (p : RecoveryProjection) (env : Surroundings) (params : List (Str × Json)) :
    RecoveryProjection × Option ObserveFault :=
  let kind := (Json.lookup params (lit "type")).getD .null
  if ¬ kind.hashable then (p, some .unhashable)
  else
    match kind, identifier (Json.lookup params (lit "session_id")),
      Json.lookup params (lit "payload") with
    | .str kind, some runtime, some (.obj raw) =>
      if kind ∈ childKinds then p.observeChild env kind runtime raw else (p, none)
    | _, _, _ => (p, none)

/-- `observe`, on the parsed frame. -/
def observeValue (p : RecoveryProjection) (env : Surroundings) (value : Option Json) :
    RecoveryProjection × Option ObserveFault :=
  match value with
  | some (.obj value) =>
    if ¬ Json.hasKey value (lit "method") then p.observeReply env value
    else
      match Json.lookup value (lit "method"), Json.lookup value (lit "params") with
      | some (.str method), some (.obj params) =>
        if method = lit "event" then p.observeEvent env params else (p, none)
      | _, _ => (p, none)
  | _ => (p, none)

/-- `observe`. -/
def observe (p : RecoveryProjection) (depths : JsonDepths) (env : Surroundings) (text : Str) :
    RecoveryProjection × Option ObserveFault :=
  p.observeValue env (loadsStrict depths text)

/-! ## Snapshots -/

/-- The key under which `snapshot` merges an event. -/
def snapshotKey (e : TaskEvent) : Option Str × Str × Option Str :=
  (e.recoveryBinding.map (·.profile),
    (e.recoveryBinding.map (·.durableSessionId)).getD e.sessionId, childKey e.payload)

/-- A live event over the historical rows, unless it would reopen a finished
    one. -/
def mergeTask (profileAuthorizer : Str → Bool)
    (rows : Dict (Option Str × Str × Option Str) TaskEvent) (e : TaskEvent) :
    Dict (Option Str × Str × Option Str) TaskEvent :=
  if (e.recoveryBinding.map fun b => !profileAuthorizer b.profile).getD false then rows
  else if ((rows.get (snapshotKey e)).map fun prior => hasTerminalStatus prior.payload).getD false
      && !hasTerminalStatus e.payload then rows
  else rows.set (snapshotKey e) e

/-- Drop the oldest tasks until they fit in a snapshot. -/
def fitTasks : List TaskEvent → List TaskEvent × Bool
  | [] => ([], false)
  | e :: tasks =>
    if maxSnapshotBytes < (write plainAscii (.arr ((e :: tasks).map (·.toJson)))).length then
      ((fitTasks tasks).1, true)
    else (e :: tasks, false)

def bindingKey (b : Binding) : Str × Str × Str := (b.runtimeSessionId, b.durableSessionId, b.profile)

/-- `snapshot`: the members it adds to the attach-status frame. -/
def snapshot (p : RecoveryProjection) (env : Surroundings) :
    List (Str × Json) × RecoveryProjection :=
  let (historical, truncated, store) := match p.store, p.scope with
    | some store, some scope =>
      let (events, truncated, store) := store.snapshot env.wall scope env.profileAuthorizer
      (events, truncated, some store)
    | store, _ => ([], false, store)
  let rows := historical.foldl (fun rows e => Dict.set rows (snapshotKey e) e) []
  let rows := (p.tasks.map (·.2)).foldl (mergeTask env.profileAuthorizer) rows
  let tasks := fitTasks ((Dict.last maxRows rows).map (·.2))
  let bindings := (tasks.1.filterMap (·.recoveryBinding)).foldl
    (fun d b => Dict.set d (bindingKey b) b) []
  let bindings := ((p.bindings.map (·.2)).filter fun b => env.profileAuthorizer b.profile).foldl
    (fun d b => Dict.set d (bindingKey b) b) bindings
  ([(lit "task_snapshot", .arr (tasks.1.map (·.toJson))),
    (lit "bindings", .arr ((Dict.last maxRows bindings).map fun b => b.2.toJson)),
    (lit "snapshot_complete", .bool false),
    (lit "snapshot_truncated", .bool (p.truncated || truncated || tasks.2 || maxRows < rows.length))],
   { p with store := store })

end RecoveryProjection

end MercuryRelay
