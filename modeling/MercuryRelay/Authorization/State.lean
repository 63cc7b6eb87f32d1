/-
  The private authorization state (authorization.py): device records, the one
  pairing offer, and the compact evidence of revoked keys, in one file with the
  host identity and the routing issuer.

  Keys and digests are stored as canonical base64 of 32 octets; here they are
  the octets.  `ValidAuthState` is `_validate_auth_state`.
-/
import Mathlib.Data.List.Nodup
import MercuryRelay.Identity
import MercuryRelay.Python.Sha256

set_option autoImplicit false

namespace MercuryRelay

open Python

def maxTtlSeconds : ℤ := 600
def defaultTtlSeconds : ℤ := 300
def maxDeviceRecords : ℕ := 16
def maxRevokedKeyDigests : ℕ := 512
def maxActiveDevices : ℕ := 5
def deviceIdBytes : ℕ := 16
def pairingOfferIdBytes : ℕ := 16
def maxDeviceNameChars : ℕ := 64

/-- The statuses of `_DEVICE_STATUSES`. -/
inductive DeviceStatus where
  | pending | authorized | revoked | denied
  deriving DecidableEq

/-- The statuses of `_PAIRING_STATUSES`. -/
inductive PairingStatus where
  | active | expired | consumed
  deriving DecidableEq

structure DeviceRecord where
  deviceId : Str
  devicePublicKey : Raw
  channelBindingDigest : Raw
  status : DeviceStatus
  createdAt : ℤ
  updatedAt : ℤ
  epoch : ℤ
  capabilities : List Str
  deviceName : Option Str := none
  label : Option Str := none
  deriving DecidableEq

structure PairingOfferRecord where
  offerId : Str
  capabilityDigest : Raw
  installationId : Raw
  hostPublicKey : Raw
  createdAt : ℤ
  expiresAt : ℤ
  status : PairingStatus
  consumedAt : ℤ
  deriving DecidableEq

/-- The record of `routing_issuer`. -/
structure IssuerRecord where
  privateKey : Raw
  publicKey : Raw
  deriving DecidableEq

/-- The state file, `default` being the state of an absent file. -/
structure AuthState where
  schemaVersion : ℕ := 1
  devices : List DeviceRecord := []
  pairingOffer : Option PairingOfferRecord := none
  revokedKeyDigests : Option (List Raw) := none
  hostIdentity : Option HostIdentity := none
  routingIssuer : Option IssuerRecord := none
  deriving DecidableEq

instance : Inhabited AuthState := ⟨{}⟩

/-- `state.get("revoked_key_digests", [])`. -/
def AuthState.evidence (s : AuthState) : List Raw := s.revokedKeyDigests.getD []

/-- The capability list of an authorized device. -/
def clientCapabilities : List Str := [lit "client"]

/-- `_clean_device_text`; `value` is `none` when it is not a `str`. -/
def cleanDeviceText (value : Option Str) : Option Str :=
  match value with
  | none => none
  | some value =>
    let cleaned := joinSpace (split value)
    if cleaned = [] ∨ cleaned.length > maxDeviceNameChars then none
    else if cleaned.any (fun ch => ch < 0x20 || ch == 0x7F) then none
    else some cleaned

/-! ## Validation -/

/-- `_validate_int`. -/
def ValidInt (value : ℤ) : Prop := 0 ≤ value ∧ value ≤ 2 ^ 63 - 1

instance (value : ℤ) : Decidable (ValidInt value) := by unfold ValidInt; infer_instance

/-- The check of an optional display text. -/
def ValidText (value : Option Str) : Prop :=
  ∀ t ∈ value, t = [] ∨ cleanDeviceText (some t) = some t

instance (value : Option Str) : Decidable (ValidText value) := by
  unfold ValidText; infer_instance

/-- The checks of one device record. -/
structure ValidDevice (r : DeviceRecord) : Prop where
  name : ValidText r.deviceName
  label : ValidText r.label
  id : (b64urlDecodeExact r.deviceId deviceIdBytes).isSome
  created : ValidInt r.createdAt
  updated : ValidInt r.updatedAt
  epoch : 0 ≤ r.epoch ∧ r.epoch ≤ 2 ^ 31 - 1
  order : r.createdAt ≤ r.updatedAt
  capabilities : r.capabilities = if r.status = .authorized then clientCapabilities else []

instance (r : DeviceRecord) : Decidable (ValidDevice r) :=
  decidable_of_iff
    (ValidText r.deviceName ∧ ValidText r.label ∧
      (b64urlDecodeExact r.deviceId deviceIdBytes).isSome ∧ ValidInt r.createdAt ∧
      ValidInt r.updatedAt ∧ (0 ≤ r.epoch ∧ r.epoch ≤ 2 ^ 31 - 1) ∧ r.createdAt ≤ r.updatedAt ∧
      r.capabilities = if r.status = .authorized then clientCapabilities else [])
    ⟨fun ⟨a, b, c, d, e, f, g, h⟩ => ⟨a, b, c, d, e, f, g, h⟩,
      fun ⟨a, b, c, d, e, f, g, h⟩ => ⟨a, b, c, d, e, f, g, h⟩⟩

/-- The checks of the pairing offer. -/
structure ValidOffer (o : PairingOfferRecord) : Prop where
  id : (b64urlDecodeExact o.offerId pairingOfferIdBytes).isSome
  created : ValidInt o.createdAt
  expires : ValidInt o.expiresAt
  consumed : ValidInt o.consumedAt
  order : o.createdAt < o.expiresAt ∧ o.expiresAt - o.createdAt ≤ maxTtlSeconds
  status : o.status = .consumed ↔ o.consumedAt ≠ 0

instance (o : PairingOfferRecord) : Decidable (ValidOffer o) :=
  decidable_of_iff
    ((b64urlDecodeExact o.offerId pairingOfferIdBytes).isSome ∧ ValidInt o.createdAt ∧
      ValidInt o.expiresAt ∧ ValidInt o.consumedAt ∧
      (o.createdAt < o.expiresAt ∧ o.expiresAt - o.createdAt ≤ maxTtlSeconds) ∧
      (o.status = .consumed ↔ o.consumedAt ≠ 0))
    ⟨fun ⟨a, b, c, d, e, f⟩ => ⟨a, b, c, d, e, f⟩, fun ⟨a, b, c, d, e, f⟩ => ⟨a, b, c, d, e, f⟩⟩

/-- Pending and authorized records count against the active-device limit. -/
def DeviceRecord.isActive (r : DeviceRecord) : Bool :=
  r.status = .pending || r.status = .authorized

/-- `_validate_auth_state`. -/
structure ValidAuthState (s : AuthState) : Prop where
  version : s.schemaVersion = 1 ∨ s.schemaVersion = 2
  evidence_iff : s.revokedKeyDigests.isSome ↔ s.schemaVersion = 2
  evidence_le : s.evidence.length ≤ maxRevokedKeyDigests
  evidence_nodup : s.evidence.Nodup
  devices_le : s.devices.length ≤ maxDeviceRecords
  ids_nodup : (s.devices.map (·.deviceId)).Nodup
  devices : ∀ r ∈ s.devices, ValidDevice r
  active_le : s.devices.countP (·.isActive) ≤ maxActiveDevices
  offer : ∀ o ∈ s.pairingOffer, ValidOffer o

instance (s : AuthState) : Decidable (ValidAuthState s) :=
  decidable_of_iff
    ((s.schemaVersion = 1 ∨ s.schemaVersion = 2) ∧
      (s.revokedKeyDigests.isSome ↔ s.schemaVersion = 2) ∧
      s.evidence.length ≤ maxRevokedKeyDigests ∧ s.evidence.Nodup ∧
      s.devices.length ≤ maxDeviceRecords ∧ (s.devices.map (·.deviceId)).Nodup ∧
      (∀ r ∈ s.devices, ValidDevice r) ∧
      s.devices.countP (·.isActive) ≤ maxActiveDevices ∧ ∀ o ∈ s.pairingOffer, ValidOffer o)
    ⟨fun ⟨a, b, c, d, e, f, g, h, i⟩ => ⟨a, b, c, d, e, f, g, h, i⟩,
      fun ⟨a, b, c, d, e, f, g, h, i⟩ => ⟨a, b, c, d, e, f, g, h, i⟩⟩

/-- An absent file is a valid empty repository. -/
theorem validAuthState_default : ValidAuthState default := by decide

/-! ## Summaries -/

/-- `DeviceSummary`. -/
structure DeviceSummary where
  deviceId : Str
  status : DeviceStatus
  fingerprint : Str
  createdAt : ℤ
  updatedAt : ℤ
  epoch : ℤ
  capabilities : List Str
  deviceName : Str
  label : Str
  deriving DecidableEq

/-- A lower-case hexadecimal digit. -/
def hexDigit (n : ℕ) : ℕ := if n < 10 then 48 + n else 87 + n

/-- `value.hex()`. -/
def hex (value : Bytes) : Str :=
  value.flatMap fun b => [hexDigit (b.toNat / 16), hexDigit (b.toNat % 16)]

/-- The short authentication string of a binding digest. -/
def fingerprint (digest : Raw) : Str := (hex digest.1).take 16

/-- `_summary`. -/
def summary (r : DeviceRecord) : DeviceSummary where
  deviceId := r.deviceId
  status := r.status
  fingerprint := fingerprint r.channelBindingDigest
  createdAt := r.createdAt
  updatedAt := r.updatedAt
  epoch := r.epoch
  capabilities := r.capabilities
  deviceName := r.deviceName.getD []
  label := r.label.getD []

end MercuryRelay
