/-
  Durable recovery rows (lease_recovery.py, `RecoveryStore`).

  A row holds the last event of one child task under its scope and its proven
  binding.  The file is written before an event is delivered; `faults` says
  where the coming writes fail.  Times are the values of floats.
-/
import Mathlib.Data.Rat.Defs
import MercuryRelay.Python.Dict
import MercuryRelay.Python.Json

set_option autoImplicit false

namespace MercuryRelay

open Python

def maxRows : ℕ := 64
def maxStoreRows : ℕ := 256
def maxStoreBytes : ℕ := 2 * 1024 * 1024
def maxSnapshotBytes : ℕ := 128 * 1024

/-- `TERMINAL`. -/
def terminal : List Str :=
  [lit "completed", lit "failed", lit "cancelled", lit "interrupted", lit "error", lit "timeout"]

/-- `TEXT_FIELDS`: the text fields of a payload and their longest values. -/
def textFields : List (Str × ℕ) :=
  [(lit "subagent_id", 128), (lit "child_session_id", 128), (lit "delegation_id", 128),
   (lit "parent_id", 128), (lit "goal", 500), (lit "action", 500), (lit "summary", 500),
   (lit "status", 32), (lit "model", 128), (lit "tool", 128), (lit "tool_name", 128),
   (lit "text", 500)]

/-- `IDENTITY_FIELDS`. -/
def identityFields : List Str :=
  [lit "subagent_id", lit "child_session_id", lit "delegation_id", lit "parent_id"]

/-- The counters of a payload. -/
def countFields : List Str :=
  [lit "task_index", lit "task_count", lit "depth", lit "tool_count"]

/-- `identifier`. -/
def identifier : Option Json → Option Str
  | some (.str s) => if 0 < s.length ∧ s.length ≤ 128 then some s else none
  | _ => none

/-- A counter of a payload: an `int`, not a `bool`, in range. -/
def counter : Option Json → Option ℤ
  | some (.int n) => if 0 ≤ n ∧ n ≤ 10000 then some n else none
  | _ => none

abbrev Payload := List (Str × Json)

/-- `child_key`. -/
def childKey (payload : Payload) : Option Str :=
  match identifier (Json.lookup payload (lit "subagent_id")) with
  | some s => some (lit "subagent_id:" ++ s)
  | none =>
    match identifier (Json.lookup payload (lit "child_session_id")) with
    | some s => some (lit "child_session_id:" ++ s)
    | none =>
      match identifier (Json.lookup payload (lit "delegation_id")),
        counter (Json.lookup payload (lit "task_index")) with
      | some delegation, some index =>
        some (lit "delegation:" ++ delegation ++ 58 :: intRepr index)
      | _, _ => none

/-- `payload.get("status") in TERMINAL`. -/
def hasTerminalStatus (payload : Payload) : Bool :=
  match Json.lookup payload (lit "status") with
  | some (.str s) => s ∈ terminal
  | _ => false

/-- A proven binding of a runtime session. -/
structure Binding where
  runtimeSessionId : Str
  durableSessionId : Str
  profile : Str
  live : Bool
  deriving DecidableEq

def Binding.toJson (b : Binding) : Json :=
  .obj [(lit "runtime_session_id", .str b.runtimeSessionId),
    (lit "durable_session_id", .str b.durableSessionId), (lit "profile", .str b.profile),
    (lit "live", .bool b.live)]

/-- An `event` notification of a child task.  A bound event has the durable
    session and the profile of its binding; a stored one has an event id. -/
structure TaskEvent where
  sessionId : Str
  kind : Str
  payload : Payload
  recoveryRevision : ℤ
  recoveryBinding : Option Binding := none
  durableSessionId : Option Str := none
  profile : Option Str := none
  relayEventId : Option ℤ := none
  deriving DecidableEq

/-- `sys.get_int_max_str_digits()`: a longer revision is not written. -/
def rendered (revision : ℤ) : Bool := (intRepr revision).length ≤ intMaxStrDigits

/-- `f"projection:{revision}"`. -/
def projectionId (revision : ℤ) : Json := .str (lit "projection:" ++ intRepr revision)

def TaskEvent.toJson (e : TaskEvent) : Json :=
  .obj [(lit "jsonrpc", .str (lit "2.0")), (lit "method", .str (lit "event")),
    (lit "params", .obj
      ([(lit "session_id", .str e.sessionId), (lit "type", .str e.kind),
        (lit "payload", .obj e.payload), (lit "recovery_revision", .int e.recoveryRevision)] ++
        (e.recoveryBinding.map fun b => (lit "recovery_binding", b.toJson)).toList ++
        (e.durableSessionId.map fun s => (lit "durable_session_id", .str s)).toList ++
        (e.profile.map fun s => (lit "profile", .str s)).toList ++
        (e.relayEventId.map fun n => (lit "relay_event_id", projectionId n)).toList))]

/-- `scope`: the installation, the device with its channel, and the epoch. -/
structure Scope where
  installation : Str
  device : Str
  epoch : Option ℤ
  deriving DecidableEq

/-- `row["key"]`. -/
structure RowKey where
  scope : Scope
  profile : Str
  durableSessionId : Str
  child : Option Str
  deriving DecidableEq

structure RecoveryRow where
  key : RowKey
  expiresAt : ℚ
  event : TaskEvent

def optionalInt : Option ℤ → Json
  | some n => .int n
  | none => .null

def optionalStr : Option Str → Json
  | some s => .str s
  | none => .null

def RowKey.toJson (k : RowKey) : Json :=
  .arr [.str k.scope.installation, .str k.scope.device, optionalInt k.scope.epoch, .str k.profile,
    .str k.durableSessionId, optionalStr k.child]

def floatJson (q : ℚ) : Json := .float (.ofRat q)

def RecoveryRow.toJson (r : RecoveryRow) : Json :=
  .obj [(lit "key", r.key.toJson), (lit "expires_at", floatJson r.expiresAt),
    (lit "event", r.event.toJson)]

/-- Where `_atomic_write` may raise: the directory, the temporary file, its content, its `fsync`,
    the rename over the old file, and the `fsync` of the directory after it. -/
inductive WriteFault where
  | directory | create | write | fileSync | rename | directorySync
  deriving DecidableEq

/-- The new file is in place: nothing failed before the rename. -/
def renamed : Option WriteFault → Bool
  | none | some .directorySync => true
  | _ => false

/-- What the clock says to the `_prune` of a put, to its new row, and to its `_save`. -/
structure Readings where
  start : ℚ
  stored : ℚ
  saved : ℚ

structure RecoveryStore where
  rows : List RecoveryRow := []
  revision : ℤ := 0
  truncated : Bool := false
  maxRows : ℕ := maxStoreRows
  ttlSeconds : ℚ := 604800
  file : Option Bytes := none
  faults : List (Option WriteFault) := []

namespace RecoveryStore

/-- `_prune` at the clock reading `wall`. -/
def prune (s : RecoveryStore) (wall : ℚ) : RecoveryStore :=
  let kept := s.rows.filter fun r => wall < r.expiresAt
  { s with
    truncated := s.truncated || kept.length != s.rows.length || s.maxRows < kept.length
    rows := kept.drop (kept.length - s.maxRows) }

/-- The file `_save` writes. -/
def encode (s : RecoveryStore) : Str :=
  write ⟨true, lit ",", lit ":", false⟩
    (.obj [(lit "version", .int 1), (lit "revision", .int s.revision),
      (lit "truncated", .bool s.truncated), (lit "rows", .arr (s.rows.map (·.toJson)))])

/-- `.encode()`; the file is ASCII. -/
def raw (s : RecoveryStore) : Bytes := (utf8 s.encode).getD []

/-- Drop the oldest rows until the file fits, `tries` rows at most. -/
def fit : ℕ → RecoveryStore → RecoveryStore
  | 0, s => s
  | tries + 1, s =>
    if maxStoreBytes < s.encode.length ∧ s.rows ≠ [] then
      fit tries { s with rows := s.rows.tail, truncated := true }
    else s

/-- `_save`; `false` is a write that raised, or a revision that is too long to be written. -/
def save (s : RecoveryStore) (wall : ℚ) : Bool × RecoveryStore :=
  let s := s.prune wall
  if ¬ rendered s.revision then (false, s)
  else
    let s := fit s.rows.length s
    let fault := s.faults.headD none
    (fault.isNone, { s with
      faults := s.faults.tail
      file := if renamed fault then some s.raw else s.file })

/-- `put`: the revision, or `none` where it raised, and the event, which gets
    the payload and the kind of a finished row. -/
def put (s : RecoveryStore) (c : Readings) (scope : Scope) (binding : Binding) (event : TaskEvent) :
    Option ℤ × TaskEvent × RecoveryStore :=
  let key : RowKey := ⟨scope, binding.profile, binding.durableSessionId, childKey event.payload⟩
  let pruned := s.prune c.start
  match pruned.rows.find? (·.key = key) with
  | some prior =>
    if hasTerminalStatus prior.event.payload then
      (some prior.event.recoveryRevision,
        { event with payload := prior.event.payload, kind := prior.event.kind }, pruned)
    else append s pruned c key event
  | none => append s pruned c key event
where
  /-- The row written last; a write that raised is undone in memory, an event id that is too long is not. -/
  append (s pruned : RecoveryStore) (c : Readings) (key : RowKey) (event : TaskEvent) :
      Option ℤ × TaskEvent × RecoveryStore :=
    let revision := pruned.revision + 1
    if ¬ rendered revision then (none, event, { pruned with revision := revision })
    else
      let stored := { event with recoveryRevision := revision, relayEventId := some revision }
      let rows := pruned.rows.filter (·.key ≠ key) ++ [⟨key, floatSum c.stored pruned.ttlSeconds, stored⟩]
      let saved := { pruned with revision := revision, rows := rows }.save c.saved
      if saved.1 then (some revision, event, saved.2)
      else (none, event, { s with faults := saved.2.faults, file := saved.2.file })

/-- A row as `snapshot` reports it: not live, and not known to go on. -/
def historical (r : RecoveryRow) : TaskEvent :=
  { r.event with
    recoveryBinding := r.event.recoveryBinding.map fun b => { b with live := false }
    payload := if hasTerminalStatus r.event.payload then r.event.payload
      else Dict.set r.event.payload (lit "status") (.str (lit "unknown")) }

/-- `snapshot`. -/
def snapshot (s : RecoveryStore) (wall : ℚ) (scope : Scope) (profileAuthorizer : Str → Bool) :
    List TaskEvent × Bool × RecoveryStore :=
  let s := s.prune wall
  let result := (s.rows.filter fun r => r.key.scope = scope ∧ profileAuthorizer r.key.profile).map
    historical
  (result.drop (result.length - MercuryRelay.maxRows),
    s.truncated || MercuryRelay.maxRows < result.length, s)

/-- A row of the device, or of one of its channels. -/
def ofDevice (installation device : Str) (r : RecoveryRow) : Bool :=
  r.key.scope.installation = installation &&
    (r.key.scope.device = device || (device ++ lit "/").isPrefixOf r.key.scope.device)

/-- `revoke`; the rows are gone from memory even where the write raised. -/
def revoke (s : RecoveryStore) (wall : ℚ) (installation device : Str) : Bool × RecoveryStore :=
  { s with rows := s.rows.filter fun r => !ofDevice installation device r }.save wall

end RecoveryStore

end MercuryRelay
