/-
  The operations of `AuthorizationRepository` (authorization.py), each one a
  transaction over the state file.

  An operation may fail at the lock, at a read, at a write, at the clock or at
  the random source; a write that fails leaves the file as it was.  `StateStore`
  refuses a state whose text does not encode; its size limit no valid state
  reaches (`storedText_fits`).  The X25519 public key of a new host identity is
  a draw.
-/
import Mathlib.Data.List.Sort
import MercuryRelay.Authorization.Storage
import MercuryRelay.Lib.Transaction

set_option autoImplicit false

namespace MercuryRelay

open Python Transaction

inductive AuthError where
  | authorization (reason : String)
  | pairingRejected
  | identity (reason : String)
  deriving DecidableEq

abbrev Repo := Txn AuthState AuthError

/-! ## Access to the file -/

/-- `_transaction_lock`. -/
def transactionLock : Repo Unit := access (.identity "transaction unavailable")

/-- `_load_state_unlocked`. -/
def loadStateUnlocked : Repo AuthState := do
  access (.authorization "authorization state invalid")
  let state ← load
  if ValidAuthState state then pure state
  else throw (.authorization "authorization state invalid")

/-- `_save_state_unlocked`. -/
def saveStateUnlocked (state : AuthState) : Repo Unit := do
  if ValidAuthState state ∧ state.Encodable then
    access (.authorization "authorization state unavailable")
    store state
  else throw (.authorization "authorization state unavailable")

/-- `_now`. -/
def now : Repo ℤ := do
  let value ← clock (.authorization "authorization time unavailable")
  if value < 0 ∨ value > 2 ^ 63 - 1 then throw (.authorization "authorization time unavailable")
  else pure value

/-- `_new_identifier`, with `tries` draws left. -/
def newIdentifierFrom (size : ℕ) (existing : List Str) : ℕ → Repo Str
  | 0 => throw (.authorization "random generation failed")
  | tries + 1 => do
    let b ← draw size (.authorization "random generation failed")
    if b64urlEncode b.1 ∈ existing then newIdentifierFrom size existing tries
    else pure (b64urlEncode b.1)

/-- `_new_identifier`. -/
def newIdentifier (size : ℕ) (existing : List Str) : Repo Str :=
  newIdentifierFrom size existing 8

/-- `HostIdentityStore.load_or_create_unlocked`. -/
def loadOrCreateUnlocked : Repo HostIdentity := do
  access (.identity "host identity state invalid")
  let state ← load
  match state.hostIdentity with
  | some identity => pure identity
  | none =>
    let publicKey ← draw rawBytes (.identity "random generation failed")
    let installationId ← draw rawBytes (.identity "random generation failed")
    let identity : HostIdentity := ⟨installationId, publicKey⟩
    access (.identity "host identity state invalid")
    store { state with hostIdentity := some identity }
    pure identity

/-! ## Edits of the state in memory -/

/-- `next((item for item in devices if item["device_id"] == device_id), None)`. -/
def findDevice (state : AuthState) (deviceId : Str) : Option DeviceRecord :=
  state.devices.find? (·.deviceId = deviceId)

/-- `devices[devices.index(record)] = updated`. -/
def replaceDevice (state : AuthState) (record updated : DeviceRecord) : AuthState :=
  { state with devices := state.devices.set (state.devices.idxOf record) updated }

/-- A pending record that timed out. -/
def timedOut (now maxAge : ℤ) (r : DeviceRecord) : Bool :=
  r.status = .pending && maxAge ≤ now - r.createdAt

/-- A record denied at `now`. -/
def deniedAt (now : ℤ) (r : DeviceRecord) : DeviceRecord :=
  { r with status := .denied, updatedAt := now, epoch := r.epoch + 1 }

/-- `_expire_pending_in_state`: the state and the summaries of what changed. -/
def expirePendingInState (state : AuthState) (now : ℤ) (maxAge : ℤ := maxTtlSeconds) :
    AuthState × List DeviceSummary :=
  ({ state with
      devices := state.devices.map fun r => if timedOut now maxAge r then deniedAt now r else r },
    (state.devices.filter (timedOut now maxAge)).map fun r => summary (deniedAt now r))

/-- The order `_make_device_slot` prunes in: denied before revoked, then by
    the time of the last change, then by identifier. -/
def slotLe (a b : DeviceRecord) : Bool :=
  let ka := a.status != .denied
  let kb := b.status != .denied
  if ka != kb then kb
  else if a.updatedAt ≠ b.updatedAt then a.updatedAt < b.updatedAt
  else strLe a.deviceId b.deviceId

/-- The records `_make_device_slot` may prune. -/
def isHistory (r : DeviceRecord) : Bool := r.status = .denied || r.status = .revoked

/-- `if digest not in evidence: evidence.append(digest)`. -/
def addEvidence (digest : Raw) (evidence : List Raw) : List Raw :=
  if digest ∈ evidence then evidence else evidence ++ [digest]

/-- `state["revoked_key_digests"] = evidence`, which only version 2 may have. -/
def withEvidence (state : AuthState) (evidence : List Raw) : AuthState :=
  { state with revokedKeyDigests := some evidence, schemaVersion := 2 }

/-- `state["devices"].remove(record)`. -/
def removeDevice (state : AuthState) (record : DeviceRecord) : AuthState :=
  { state with devices := state.devices.erase record }

/-- The loop of `_make_device_slot`. -/
def makeDeviceSlotLoop : List DeviceRecord → List Raw → AuthState → AuthState
  | [], _, state => state
  | record :: rest, evidence, state =>
    if record.status = .revoked then
      let digest := sha256 record.devicePublicKey.1
      if digest ∉ evidence ∧ maxRevokedKeyDigests ≤ evidence.length then
        -- the evidence budget is full: keep the full record
        makeDeviceSlotLoop rest evidence state
      else
        let evidence := addEvidence digest evidence
        let state := removeDevice (withEvidence state evidence) record
        if state.devices.length < maxDeviceRecords then state
        else makeDeviceSlotLoop rest evidence state
    else
      let state := removeDevice state record
      if state.devices.length < maxDeviceRecords then state
      else makeDeviceSlotLoop rest evidence state

/-- `_make_device_slot`. -/
def makeDeviceSlot (state : AuthState) : AuthState :=
  if state.devices.length < maxDeviceRecords then state
  else
    makeDeviceSlotLoop ((state.devices.filter isHistory).insertionSort (slotLe · ·))
      state.evidence state

/-- The ban `consume_offer` checks: compact evidence, then revoked records. -/
def revokedKey (state : AuthState) (publicKey : Raw) : Bool :=
  state.evidence.any (· = sha256 publicKey.1) ||
    state.devices.any fun r => r.status = .revoked && r.devicePublicKey = publicKey

/-- `_exact_input` on bytes. -/
def exactInput (value : Bytes) : Option Raw :=
  if h : value.length = rawBytes then some ⟨value, h⟩ else none

/-! ## Operations -/

/-- `PairingOffer`, the capability handed to the local caller. -/
structure PairingOffer where
  offerId : Str
  installationId : Raw
  hostPublicKey : Raw
  expiresAt : ℤ
  capability : Raw
  deriving DecidableEq

/-- A new request supersedes the active offer. -/
def supersedeOffer (state : AuthState) : AuthState :=
  { state with
    pairingOffer := state.pairingOffer.map fun existing =>
      if existing.status = .active then { existing with status := .expired } else existing }

/-- The offer `create_offer` stores at `now`. -/
def activeOffer (offerId : Str) (capability : Raw) (identity : HostIdentity) (now expiresAt : ℤ) :
    PairingOfferRecord where
  offerId := offerId
  capabilityDigest := sha256 capability.1
  installationId := identity.installationId
  hostPublicKey := identity.publicKey
  createdAt := now
  expiresAt := expiresAt
  status := .active
  consumedAt := 0

/-- `create_offer`. -/
def createOffer (ttlSeconds : ℤ := defaultTtlSeconds) : Repo PairingOffer := do
  if ttlSeconds < 1 ∨ ttlSeconds > maxTtlSeconds then throw (.authorization "invalid pairing TTL")
  else
    transactionLock
    let _ ← loadStateUnlocked
    let identity ← loadOrCreateUnlocked
    let state ← loadStateUnlocked
    let now ← now
    let state := makeDeviceSlot (supersedeOffer (expirePendingInState state now).1)
    if state.devices.length ≥ maxDeviceRecords then
      throw (.authorization
        "revocation history full; retain this state and use a new relay profile")
    else
      let offerId ← newIdentifier pairingOfferIdBytes
        [(state.pairingOffer.map (·.offerId)).getD []]
      let capability ← draw rawBytes (.authorization "random generation failed")
      let expiresAt := now + ttlSeconds
      saveStateUnlocked { state with
        pairingOffer := some (activeOffer offerId capability identity now expiresAt) }
      pure ⟨offerId, identity.installationId, identity.publicKey, expiresAt, capability⟩

/-- The record of a device that pairs at `now`. -/
def pairedRecord (deviceId : Str) (publicKey bindingDigest : Raw) (now : ℤ) : DeviceRecord where
  deviceId := deviceId
  devicePublicKey := publicKey
  channelBindingDigest := bindingDigest
  status := .pending
  createdAt := now
  updatedAt := now
  epoch := 0
  capabilities := []

/-- The state with a new record, and its offer consumed. -/
def withPaired (state : AuthState) (offer : PairingOfferRecord) (record : DeviceRecord)
    (now : ℤ) : AuthState :=
  { state with
    pairingOffer := some { offer with status := .consumed, consumedAt := now }
    devices := state.devices ++ [record] }

/-- The end of `consume_offer`, on a usable offer and the state with a slot made. -/
def pairDevice (state : AuthState) (offer : PairingOfferRecord) (publicKey binding : Raw)
    (now : ℤ) : Repo DeviceSummary := do
  if state.devices.countP (·.isActive) ≥ maxActiveDevices ∨ revokedKey state publicKey ∨
      state.devices.length ≥ maxDeviceRecords then
    throw .pairingRejected
  else
    let deviceId ← newIdentifier deviceIdBytes (state.devices.map (·.deviceId))
    let record := pairedRecord deviceId publicKey (sha256 binding.1) now
    saveStateUnlocked (withPaired state offer record now)
    pure (summary record)

/-- The rejection of an offer, which marks it expired when it is due. -/
def rejectOffer (state : AuthState) (offer : PairingOfferRecord) (now : ℤ) :
    Repo DeviceSummary := do
  if offer.status = .active ∧ now ≥ offer.expiresAt then
    saveStateUnlocked { state with pairingOffer := some { offer with status := .expired } }
    throw .pairingRejected
  else throw .pairingRejected

/-- `consume_offer`. -/
def consumeOffer (capability devicePublicKey channelBinding : Bytes) : Repo DeviceSummary := do
  match exactInput capability, exactInput devicePublicKey, exactInput channelBinding with
  | some capability, some publicKey, some binding =>
    transactionLock
    let _ ← loadStateUnlocked
    let identity ← loadOrCreateUnlocked
    let state ← loadStateUnlocked
    match state.pairingOffer with
    | none => throw .pairingRejected
    | some offer =>
      let now ← now
      if sha256 capability.1 = offer.capabilityDigest ∧
          identity.installationId = offer.installationId ∧
          identity.publicKey = offer.hostPublicKey ∧
          offer.status = .active ∧ now < offer.expiresAt then
        pairDevice (makeDeviceSlot (expirePendingInState state now).1) offer publicKey binding now
      else rejectOffer state offer now
  | _, _, _ => throw .pairingRejected

/-- The sweep `approve`, `approve_confirmed` and `list_devices` begin with. -/
def sweepPending (state : AuthState) : Repo AuthState := do
  let now ← now
  let swept := expirePendingInState state now
  if swept.2 ≠ [] then
    saveStateUnlocked swept.1
    pure swept.1
  else pure swept.1

/-- A record authorized at `now`. -/
def authorizedAt (now : ℤ) (r : DeviceRecord) : DeviceRecord :=
  { r with status := .authorized, updatedAt := now, capabilities := clientCapabilities }

/-- The last step of `approve` and `approve_confirmed`. -/
def authorizeRecord (state : AuthState) (record : DeviceRecord) : Repo DeviceSummary := do
  let updated := authorizedAt (← now) record
  saveStateUnlocked (replaceDevice state record updated)
  pure (summary updated)

/-- `approve`. -/
def approve (deviceId : Str) (channelBindingDigest : Bytes) : Repo DeviceSummary := do
  match b64urlDecodeExact deviceId deviceIdBytes, exactInput channelBindingDigest with
  | some _, some suppliedDigest =>
    transactionLock
    let state ← sweepPending (← loadStateUnlocked)
    match findDevice state deviceId with
    | none => throw (.authorization "approval rejected")
    | some record =>
      if suppliedDigest ≠ record.channelBindingDigest ∨ ¬ record.isActive then
        throw (.authorization "approval rejected")
      else if record.status = .authorized then pure (summary record)
      else authorizeRecord state record
  | _, _ => throw (.authorization "approval rejected")

/-- `approve_confirmed`; comparing a fingerprint with characters outside ASCII
    is a `TypeError`, which the lock turns into its own error. -/
def approveConfirmed (deviceId confirmedFingerprint : Str) : Repo DeviceSummary := do
  match b64urlDecodeExact deviceId deviceIdBytes with
  | none => throw (.authorization "approval rejected")
  | some _ =>
    transactionLock
    let state ← sweepPending (← loadStateUnlocked)
    match findDevice state deviceId with
    | none => throw (.authorization "approval rejected")
    | some record =>
      if ¬ confirmedFingerprint.all (· < 128) then throw (.identity "transaction unavailable")
      else if confirmedFingerprint ≠ fingerprint record.channelBindingDigest then
        throw (.authorization "approval rejected")
      else if record.status = .authorized then pure (summary record)
      else if record.status ≠ .pending then throw (.authorization "approval rejected")
      else authorizeRecord state record

/-- `set_label`. -/
def setLabel (deviceId label : Str) : Repo (Option DeviceSummary) := do
  match b64urlDecodeExact deviceId deviceIdBytes with
  | none => throw (.authorization "invalid device identifier")
  | some _ =>
    match (if label = [] then some [] else cleanDeviceText (some label)) with
    | none => throw (.authorization "invalid label")
    | some cleaned =>
      transactionLock
      let state ← loadStateUnlocked
      match findDevice state deviceId with
      | none => pure none
      | some record =>
        let updated := { record with label := some cleaned }
        saveStateUnlocked (replaceDevice state record updated)
        pure (some (summary updated))

/-- `note_device_name`; `name` is `none` when it is not a `str`. -/
def noteDeviceName (deviceId : Str) (devicePublicKey : Bytes) (name : Option Str) : Repo Bool := do
  match cleanDeviceText name with
  | none => pure false
  | some cleaned =>
    match b64urlDecodeExact deviceId deviceIdBytes, exactInput devicePublicKey with
    | some _, some publicKey =>
      transactionLock
      let state ← loadStateUnlocked
      match findDevice state deviceId with
      | none => pure false
      | some record =>
        if ¬ record.isActive then pure false
        else if record.devicePublicKey ≠ publicKey then pure false
        else if record.deviceName.getD [] = cleaned then pure true
        else
          saveStateUnlocked (replaceDevice state record { record with deviceName := some cleaned })
          pure true
    | _, _ => pure false

/-- `deny`. -/
def deny (deviceId : Str) : Repo (Option DeviceSummary) := do
  match b64urlDecodeExact deviceId deviceIdBytes with
  | none => throw (.authorization "invalid device identifier")
  | some _ =>
    transactionLock
    let state ← loadStateUnlocked
    match findDevice state deviceId with
    | none => pure none
    | some record =>
      if record.status = .denied then pure (some (summary record))
      else if record.status ≠ .pending then
        throw (.authorization "device state transition rejected")
      else
        let updated := deniedAt (← now) record
        saveStateUnlocked (replaceDevice state record updated)
        pure (some (summary updated))

/-- `expire_pending`. -/
def expirePending (maxAgeSeconds : ℤ := maxTtlSeconds) : Repo (List DeviceSummary) := do
  if maxAgeSeconds < 1 ∨ maxAgeSeconds > maxTtlSeconds then
    throw (.authorization "invalid pending timeout")
  else
    transactionLock
    let state ← loadStateUnlocked
    let now ← now
    let swept := expirePendingInState state now maxAgeSeconds
    if swept.2 ≠ [] then
      saveStateUnlocked swept.1
      pure swept.2
    else pure swept.2

/-- A record revoked at `now`. -/
def revokedAt (now : ℤ) (r : DeviceRecord) : DeviceRecord :=
  { r with status := .revoked, updatedAt := now, epoch := r.epoch + 1, capabilities := [] }

/-- `revoke`. -/
def revoke (deviceId : Str) : Repo (Option DeviceSummary) := do
  match b64urlDecodeExact deviceId deviceIdBytes with
  | none => throw (.authorization "invalid device identifier")
  | some _ =>
    transactionLock
    let state ← loadStateUnlocked
    match findDevice state deviceId with
    | none => pure none
    | some record =>
      if record.status = .revoked then pure (some (summary record))
      else
        let updated := revokedAt (← now) record
        saveStateUnlocked (replaceDevice state record updated)
        pure (some (summary updated))

/-- `is_authorized`. -/
def isAuthorized (deviceId : Str) (devicePublicKey : Bytes) : Repo Bool := do
  match b64urlDecodeExact deviceId deviceIdBytes, exactInput devicePublicKey with
  | some _, some suppliedKey =>
    transactionLock
    let state ← loadStateUnlocked
    match findDevice state deviceId with
    | none => pure false
    | some record =>
      if record.status ≠ .authorized ∨ record.capabilities ≠ clientCapabilities then pure false
      else pure (record.devicePublicKey = suppliedKey)
  | _, _ => pure false

/-- `list_devices`. -/
def listDevices : Repo (List DeviceSummary) := do
  transactionLock
  let state ← sweepPending (← loadStateUnlocked)
  pure (state.devices.map summary)

/-- `cancel_offer`. -/
def cancelOffer (offerId : Str) : Repo Bool := do
  match b64urlDecodeExact offerId pairingOfferIdBytes with
  | none => throw (.authorization "invalid offer identifier")
  | some _ =>
    transactionLock
    let state ← loadStateUnlocked
    match state.pairingOffer with
    | none => pure false
    | some offer =>
      if offer.offerId ≠ offerId ∨ offer.status ≠ .active then pure false
      else
        saveStateUnlocked { state with pairingOffer := some { offer with status := .expired } }
        pure true

/-! ## Runs -/

/-- A call of an operation. -/
inductive Call where
  | createOffer (ttlSeconds : ℤ)
  | consumeOffer (capability devicePublicKey channelBinding : Bytes)
  | approve (deviceId : Str) (channelBindingDigest : Bytes)
  | approveConfirmed (deviceId confirmedFingerprint : Str)
  | setLabel (deviceId label : Str)
  | noteDeviceName (deviceId : Str) (devicePublicKey : Bytes) (name : Option Str)
  | deny (deviceId : Str)
  | expirePending (maxAgeSeconds : ℤ)
  | revoke (deviceId : Str)
  | isAuthorized (deviceId : Str) (devicePublicKey : Bytes)
  | listDevices
  | cancelOffer (offerId : Str)
  deriving DecidableEq

/-- What an operation returns. -/
inductive Reply where
  | offer (o : PairingOffer)
  | device (s : DeviceSummary)
  | optionalDevice (s : Option DeviceSummary)
  | devices (s : List DeviceSummary)
  | flag (b : Bool)
  deriving DecidableEq

/-- The transaction of a call. -/
def Call.run : Call → Repo Reply
  | .createOffer ttl => .offer <$> MercuryRelay.createOffer ttl
  | .consumeOffer c k b => .device <$> MercuryRelay.consumeOffer c k b
  | .approve d c => .device <$> MercuryRelay.approve d c
  | .approveConfirmed d p => .device <$> MercuryRelay.approveConfirmed d p
  | .setLabel d l => .optionalDevice <$> MercuryRelay.setLabel d l
  | .noteDeviceName d k n => .flag <$> MercuryRelay.noteDeviceName d k n
  | .deny d => .optionalDevice <$> MercuryRelay.deny d
  | .expirePending a => .devices <$> MercuryRelay.expirePending a
  | .revoke d => .optionalDevice <$> MercuryRelay.revoke d
  | .isAuthorized d k => .flag <$> MercuryRelay.isAuthorized d k
  | .listDevices => .devices <$> MercuryRelay.listDevices
  | .cancelOffer o => .flag <$> MercuryRelay.cancelOffer o

/-- A call with what the clock, the random source and the storage answer it. -/
structure Invocation where
  call : Call
  readings : List (Option ℤ) := []
  draws : List (Option Bytes) := []
  faults : List Bool := []

/-- The result of an invocation on a file, and the file it leaves. -/
def Invocation.exec (i : Invocation) (file : AuthState) : Except AuthError Reply × AuthState :=
  Transaction.exec i.call.run ⟨file, i.readings, i.draws, i.faults⟩

/-- The file after a sequence of invocations. -/
def runRepository : AuthState → List Invocation → AuthState
  | file, [] => file
  | file, i :: is => runRepository (i.exec file).2 is

/-- `P` holds of every step of a run, with the file before it. -/
def EachStep (P : AuthState → Invocation → Prop) : AuthState → List Invocation → Prop
  | _, [] => True
  | file, i :: is => P file i ∧ EachStep P (i.exec file).2 is

instance decidableEachStep (P : AuthState → Invocation → Prop) [∀ f i, Decidable (P f i)] :
    ∀ file is, Decidable (EachStep P file is)
  | _, [] => .isTrue trivial
  | file, i :: is =>
    have := decidableEachStep P (i.exec file).2 is
    inferInstanceAs (Decidable (P file i ∧ EachStep P (i.exec file).2 is))

end MercuryRelay
