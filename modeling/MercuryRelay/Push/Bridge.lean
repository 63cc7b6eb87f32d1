/-
  The push bridge (push.py, `PushBridge`): its rows, the queue of its worker, and
  the wakes that it queues.

  Names of events and nonces are given; what the rest of the host says of a device
  and an epoch is, too.
-/
import MercuryRelay.Push.Preview

set_option autoImplicit false

namespace MercuryRelay

open Python

def pushMaxRows : ℕ := 64
def pushQueueSize : ℕ := 64
def pendingRouteTtl : ℚ := 300
def maxPendingRoutes : ℕ := pushMaxRows
def maxSeen : ℕ := 256

inductive PushStatus where
  | active | pending | debt
  deriving DecidableEq

inductive PushMode where
  | generic | preview
  deriving DecidableEq

/-- The `preview` of a row. -/
structure PreviewRecord where
  keyId : Str
  key : Str
  completion : Bool
  attention : Bool
  includeTitle : Bool
  includeResponseExcerpt : Bool
  deriving DecidableEq

structure PushRow where
  device : Str
  epoch : ℤ
  status : PushStatus
  origin : Option Str
  route : Option Str
  mode : PushMode
  environment : Str
  preview : Option PreviewRecord
  deriving DecidableEq

inductive PushAction where
  | register | unregister | wake | close
  deriving DecidableEq

/-- An item of the queue. -/
structure PushJob where
  action : PushAction
  handle : Str
  fields : List (Str × Json)
  generation : ℕ
  deriving DecidableEq

/-- Where a tap on a notification leads. -/
structure PendingRoute where
  eventId : Str
  device : Str
  epoch : ℤ
  durableSessionId : Str
  profile : Str
  expiresAt : ℚ
  deriving DecidableEq

/-- What the bridge keys the wakes by that it has seen. -/
structure WakeKey where
  device : Str
  epoch : ℤ
  identity : Bytes
  deriving DecidableEq

/-- `PushBridge`. -/
structure PushBridge where
  origin : Str
  route : Str
  rows : Dict Str PushRow := []
  closed : Bool := false
  failed : Bool := false
  /-- the worker was started -/
  started : Bool := false
  queue : List PushJob := []
  /-- the keys of `_seen`, oldest first -/
  seen : List WakeKey := []
  generation : Dict Str ℕ := []
  pendingRoutes : Dict Str PendingRoute := []
  arrivalRoutes : Dict (Str × Str) PendingRoute := []

/-- A route: the durable session id and the profile. -/
abbrev PushRoute := Str × Str

/-- The `preview_data` of a wake. -/
structure PreviewData where
  kind : Str
  attentionKind : Option Str := none
  responseText : Option Str := none
  title : Option Str := none

/-- What a call meets: the clocks, what `authorized` says, and what `secrets` gives for a handle. -/
structure WakeTurn where
  clock : ℚ
  wallClock : ℤ
  authorized : Str → ℤ → Bool
  eventId : Str → Str
  nonce : Str → Bytes

/-- What is outside of the source. -/
structure PushFunctions where
  unicode : UnicodeData
  aead : Chacha20Poly1305

/-- `decode_canonical_b64url`; `none` is its `ValueError`. -/
def decodeCanonicalB64url (value : Str) (size : ℕ) : Option Bytes :=
  match urlsafeB64decode (value ++ List.replicate ((4 - value.length % 4) % 4) 61) with
  | none => none
  | some decoded => if decoded.length ≠ size ∨ canonicalB64url decoded ≠ value then none else some decoded

namespace PushBridge

variable (functions : PushFunctions) (turn : WakeTurn) (b : PushBridge)

def available : Bool := !b.closed && !b.failed

/-- `_authorized`. -/
def isAuthorized (device : Str) (epoch : ℤ) : Bool := b.available && turn.authorized device epoch

/-- `_bound`. -/
def isBound (row : PushRow) : Bool := row.origin = some b.origin && row.route = some b.route

/-- `_valid_scope`. -/
def validScope (row : PushRow) : Bool := b.isBound row && b.isAuthorized turn row.device row.epoch

/-- `_valid`. -/
def isValid (handle : Str) : Bool := (b.rows.get handle).any fun row => row.status = .active && b.validScope turn row

/-! ## The queue -/

/-- `queue.put_nowait` of a job; `none` is `QueueFull`. -/
def put (action : PushAction) (handle : Str) (fields : List (Str × Json)) : Option PushBridge :=
  if pushQueueSize ≤ b.queue.length then none
  else
    some { b with queue := b.queue ++ [{
      action := action
      handle := handle
      fields := fields
      generation := (b.generation.get handle).getD 0 }] }

/-- A handle that is to be unregistered is queued, if there is room. -/
def putUnregister (handle : Str) : PushBridge := (b.put .unregister handle []).getD b

/-- `start`. -/
def start : PushBridge :=
  if b.started || b.closed then b
  else
    let debts := b.rows.filter fun x => x.2.status = .debt && b.isBound x.2
    debts.foldl (fun b x => b.putUnregister x.1) { b with started := true }

/-- `_enqueue`; `none` where it returns `False`. -/
def enqueue (action : PushAction) (handle : Str) (fields : List (Str × Json)) : Option PushBridge :=
  b.start.put action handle fields

/-! ## Routes -/

/-- `_clear_pending`. -/
def clearPending (handle : Str) : PushBridge := { b with pendingRoutes := b.pendingRoutes.remove handle }

/-- `_prune_pending`. -/
def prunePending (now : ℚ) : PushBridge :=
  { b with
    pendingRoutes := b.pendingRoutes.filter fun x => now < x.2.expiresAt
    arrivalRoutes := b.arrivalRoutes.filter fun x => now < x.2.expiresAt }

/-- A member of a route is within its bound; `none` is a `UnicodeEncodeError`. -/
def routeMember (text : Str) (limit : ℕ) : Option Bool :=
  (utf8 text).map fun encoded => decide (1 ≤ encoded.length ∧ encoded.length ≤ limit)

/-- `_route_valid`; `none` is a `UnicodeEncodeError`. -/
def routeValid : Option PushRoute → Option Bool
  | none => some false
  | some (durableSessionId, profile) =>
    match routeMember durableSessionId maxRouteSessionBytes with
    | some true =>
      (routeMember profile maxRouteProfileBytes).map fun fits =>
        fits && !((durableSessionId ++ profile).any fun character => character < 32 || (127 ≤ character && character ≤ 159))
    | verdict => verdict

/-- The route of a wake is kept until a tap, and for each event. -/
def keepRoute (handle eventId device : Str) (epoch : ℤ) : Option PushRoute → PushBridge
  | none => b
  | some (durableSessionId, profile) =>
    let pending : PendingRoute := {
      eventId := eventId
      device := device
      epoch := epoch
      durableSessionId := durableSessionId
      profile := profile
      expiresAt := turn.clock + pendingRouteTtl }
    let b := { b with pendingRoutes := (b.pendingRoutes.set handle pending).moveToEnd handle }
    let b := b.prunePending turn.clock
    { b with
      arrivalRoutes := Dict.last maxPendingRoutes (b.arrivalRoutes.set (handle, eventId) pending)
      pendingRoutes := Dict.last maxPendingRoutes b.pendingRoutes }

/-! ## Wakes -/

/-- What the loop of `wake` makes of a row. -/
inductive WakeFields where
  | sends (fields : List (Str × Json))
  | skips
  /-- a `TypeError` that is not caught -/
  | raises

/-- The route as `build_preview_plaintext` is given it. -/
def routeJson : Option PushRoute → Json
  | none => .null
  | some (durableSessionId, profile) =>
    .obj [(lit "durable_session_id", .str durableSessionId), (lit "profile", .str profile)]

/-- The ciphertext of a preview; `none` where it raises. -/
def sealPreview (row : PushRow) (record : PreviewRecord) (handle eventId : Str) (route : Option PushRoute)
    (preview : PreviewData) : Option Str :=
  match Preview.buildPreviewPlaintext functions.unicode {
      kind := preview.kind
      attentionKind := preview.attentionKind
      responseText := preview.responseText
      title := preview.title
      includeTitle := record.includeTitle
      includeResponseExcerpt := record.includeResponseExcerpt
      route := routeJson route
      now := turn.wallClock } with
  | .error _ => none
  | .ok plaintext =>
    match decodeCanonicalB64url record.key 32 with
    | none => none
    | some key =>
      (encryptPreview functions.aead key (turn.nonce handle) plaintext row.environment handle eventId
        record.keyId).toOption

/-- The fields of the job for a row. -/
def wakeFields (row : PushRow) (handle : Str) (route : Option PushRoute) (preview : PreviewData) : WakeFields :=
  let eventId := turn.eventId handle
  match row.mode with
  | .generic => .sends [(lit "event_id", .str eventId)]
  | .preview =>
    match row.preview with
    | none => .raises
    | some record =>
      let wanted := if preview.kind = lit "completion" then record.completion else record.attention
      if preview.kind ≠ lit "completion" ∧ preview.kind ≠ lit "attention" ∨ ¬ wanted then .skips
      else
        match sealPreview functions turn row record handle eventId route preview with
        | none => .skips
        | some ciphertext =>
          .sends (previewFields eventId record.keyId (turn.nonce handle) ciphertext ++
            [(lit "_preview_expires_at", .int (turn.wallClock + previewTtlSeconds))])

/-- The loop of `wake`. -/
def wakeRows (device : Str) (epoch : ℤ) (route : Option PushRoute) (preview : PreviewData) :
    List Str → PushBridge → PushBridge
  | [], b => b
  | handle :: handles, b =>
    match b.rows.get handle with
    | none => b
    | some row =>
      match wakeFields functions turn row handle route preview with
      | .raises => b
      | .skips => wakeRows device epoch route preview handles b
      | .sends fields =>
        match b.enqueue .wake handle fields with
        | none => wakeRows device epoch route preview handles b.start
        | some b =>
          wakeRows device epoch route preview handles
            ((b.clearPending handle).keepRoute turn handle (turn.eventId handle) device epoch route)

/-- The handles of a device and an epoch that are valid. -/
def validHandles (device : Str) (epoch : ℤ) : List Str :=
  (b.rows.filter fun x => x.2.device = device && x.2.epoch = epoch && b.isValid turn x.1).map (·.1)

/-- A key goes last; the oldest one makes room for it. -/
@[irreducible] def remember (seen : List WakeKey) (key : WakeKey) : List WakeKey :=
  (seen ++ [key]).drop ((seen ++ [key]).length - maxSeen)

/-- A key is put into `_seen`. -/
def see (key : WakeKey) : PushBridge := { b with seen := remember b.seen key }

/-- `wake`, of an identity that has not been seen. -/
def wakeNew (device : Str) (epoch : ℤ) (route : Option PushRoute) (preview : PreviewData) (handles : List Str) :
    PushBridge :=
  match routeValid route with
  | none => b
  | some valid => b.wakeRows functions turn device epoch (if valid then route else none) preview handles

/-- `wake`; where it raises, it does so after what it has done. -/
def wake (device : Str) (epoch : ℤ) (identity : Bytes) (route : Option PushRoute) (preview : PreviewData) :
    PushBridge :=
  let handles := b.validHandles turn device epoch
  if ¬ b.isAuthorized turn device epoch ∨ handles = [] then b
  else if ⟨device, epoch, identity⟩ ∈ b.seen then b
  else (b.see ⟨device, epoch, identity⟩).wakeNew functions turn device epoch route preview handles

end PushBridge

end MercuryRelay
