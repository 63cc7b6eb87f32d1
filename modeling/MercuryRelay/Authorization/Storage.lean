/-
  What the state store writes (state_store.py, `_encode_object`).

  The store refuses a state whose text does not encode or has more than
  `maxStateBytes` octets.  The second never happens to a valid state.

  * `storedText_fits`: the text of a valid state that encodes is within the
    limit.
-/
import MercuryRelay.Authorization.State
import MercuryRelay.Python.JsonSize

set_option autoImplicit false

namespace MercuryRelay

open Python

def maxStateBytes : ℕ := 64 * 1024

/-- `_b64encode` of 32 octets. -/
def rawJson (value : Raw) : Json := .str (b64encode value.1)

def DeviceStatus.text : DeviceStatus → Str
  | .pending => lit "pending"
  | .authorized => lit "authorized"
  | .revoked => lit "revoked"
  | .denied => lit "denied"

def PairingStatus.text : PairingStatus → Str
  | .active => lit "active"
  | .expired => lit "expired"
  | .consumed => lit "consumed"

/-- The stored device record; its optional fields are there or not. -/
def DeviceRecord.json (r : DeviceRecord) : Json :=
  .obj ([(lit "device_id", .str r.deviceId), (lit "device_public_key", rawJson r.devicePublicKey),
    (lit "channel_binding_digest", rawJson r.channelBindingDigest),
    (lit "status", .str r.status.text), (lit "created_at", .int r.createdAt),
    (lit "updated_at", .int r.updatedAt), (lit "epoch", .int r.epoch),
    (lit "capabilities", .arr (r.capabilities.map .str))] ++
    (r.deviceName.map fun t => (lit "device_name", .str t)).toList ++
    (r.label.map fun t => (lit "label", .str t)).toList)

def PairingOfferRecord.json (o : PairingOfferRecord) : Json :=
  .obj [(lit "offer_id", .str o.offerId), (lit "capability_digest", rawJson o.capabilityDigest),
    (lit "installation_id", rawJson o.installationId),
    (lit "host_public_key", rawJson o.hostPublicKey), (lit "created_at", .int o.createdAt),
    (lit "expires_at", .int o.expiresAt), (lit "status", .str o.status.text),
    (lit "consumed_at", .int o.consumedAt)]

/-- The identity record, with the private key. -/
def HostIdentity.json (i : HostIdentity) (privateKey : Raw) : Json :=
  .obj [(lit "installation_id", rawJson i.installationId), (lit "private_key", rawJson privateKey),
    (lit "public_key", rawJson i.publicKey)]

/-- The routing issuer record. -/
def IssuerRecord.json (i : IssuerRecord) : Json :=
  .obj [(lit "private_key", rawJson i.privateKey), (lit "public_key", rawJson i.publicKey)]

/-- The state as an object. -/
def AuthState.json (s : AuthState) (privateKey : Raw) : Json :=
  .obj ([(lit "schema_version", .int s.schemaVersion),
    (lit "devices", .arr (s.devices.map (·.json)))] ++
    (s.pairingOffer.map fun o => (lit "pairing_offer", o.json)).toList ++
    (s.revokedKeyDigests.map fun ds => (lit "revoked_key_digests", .arr (ds.map rawJson))).toList ++
    (s.hostIdentity.map fun i => (lit "host_identity", i.json privateKey)).toList ++
    (s.routingIssuer.map fun i => (lit "routing_issuer", i.json)).toList)

/-- The text of a state. -/
def AuthState.storedText (s : AuthState) (privateKey : Raw) : Str :=
  write compactStored (s.json privateKey)

/-- The display texts, which the owner and the phones choose, encode. -/
def AuthState.Encodable (s : AuthState) : Prop :=
  ∀ r ∈ s.devices, (∀ t ∈ r.deviceName, (utf8 t).isSome) ∧ ∀ t ∈ r.label, (utf8 t).isSome

instance (s : AuthState) : Decidable s.Encodable := by unfold AuthState.Encodable; infer_instance

/-! ## Encoding -/

section Encoding

variable {s : AuthState} {r : DeviceRecord} {o : PairingOfferRecord}

theorem b64encode_plain {b : Bytes} {c : ℕ} (h : c ∈ b64encode b) : c < 128 ∧ charOctets c = 1 := by
  obtain ⟨d, hd, rfl⟩ := List.mem_map.1 h
  rcases urlsafeB64encode_mem hd with rfl | ⟨n, rfl⟩
  · decide
  · have hn : b64urlChar n = b64urlChar (min n 63) := by
      unfold b64urlChar
      rcases Nat.lt_or_ge n 63 with hlt | hge
      · rw [Nat.min_eq_left (by omega)]
      · rw [Nat.min_eq_right hge]
        repeat rw [if_neg (by omega)]
    have hall : ∀ m < 64, let c := b64urlChar m
        (if c = 45 then 43 else if c = 95 then 47 else c) < 128 ∧
        charOctets (if c = 45 then 43 else if c = 95 then 47 else c) = 1 := by decide
    rw [hn]
    exact hall _ (by omega)

theorem ascii_b64urlEncode (b : Bytes) : Ascii (b64urlEncode b) := by
  have h : Ascii (urlsafeB64encode b) := by
    intro c hc
    rcases urlsafeB64encode_mem hc with rfl | ⟨n, rfl⟩
    · decide
    · unfold b64urlChar
      repeat' split
      all_goals omega
  refine h.subset ?_
  intro c hc
  unfold b64urlEncode at hc
  rw [List.mem_reverse] at hc
  exact List.mem_reverse.1 ((List.dropWhile_sublist _).subset hc)

/-- An identifier that decodes is ASCII, and no longer than the decoder allows. -/
theorem identifier_spec {i : Str} {n : ℕ} (h : (b64urlDecodeExact i n).isSome) :
    Ascii i ∧ i.length ≤ maxB64Text := by
  unfold b64urlDecodeExact at h
  split at h
  · cases h
  · rename_i hlen
    dsimp only at h
    split at h
    · cases h
    · rename_i decoded _
      split at h
      · cases h
      · rename_i henc
        simp only [not_or, not_not] at henc hlen
        rw [← henc.2]
        refine ⟨ascii_b64urlEncode decoded, ?_⟩
        rw [henc.2]
        omega

theorem encodable_rawJson (v : Raw) : (rawJson v).encodable = true :=
  Ascii.utf8 fun _ hc => (b64encode_plain hc).1

theorem octets_rawJson (v : Raw) : (rawJson v).octets = 46 := by
  have hlen : (b64encode v.1).length = 44 := by
    rw [b64encode, List.length_map, length_urlsafeB64encode, v.2]
  rw [rawJson, Json.octets, stringOctets_plain fun c hc => (b64encode_plain hc).2, hlen]

/-- A stored integer has at most nineteen digits. -/
theorem octets_int_le {n : ℤ} (h : ValidInt n) : (Json.int n).octets ≤ 19 := by
  obtain ⟨h0, h1⟩ := h
  obtain ⟨m, rfl⟩ := Int.eq_ofNat_of_zero_le h0
  exact length_natDigits_le (by decide) (by omega)

/-- A display text has at most 64 characters. -/
theorem cleanDeviceText_length {t u : Str} (h : cleanDeviceText (some t) = some u) :
    u.length ≤ maxDeviceNameChars := by
  unfold cleanDeviceText at h
  dsimp only at h
  split at h
  · cases h
  · split at h
    · cases h
    · cases h
      omega

theorem octets_text_le {v : Option Str} (h : ValidText v) {t : Str} (ht : t ∈ v) :
    stringOctets t ≤ 386 := by
  have hlen : t.length ≤ 64 := by
    rcases h t ht with rfl | hclean
    · simp
    · exact cleanDeviceText_length hclean
  have := stringOctets_le t
  omega

/-- A member that may be absent takes no more than one that is there. -/
theorem membersOctets_toList {α : Type} {v : Option α} {key : Str} {f : α → Json} {n : ℕ}
    (hv : ∀ a ∈ v, (f a).octets ≤ n) :
    Json.membersOctets (v.map fun a => (key, f a)).toList ≤ stringOctets key + n + 2 := by
  cases v with
  | none => simp [Json.membersOctets]
  | some a =>
    have := hv a rfl
    simp only [Option.map_some, Option.toList_some, Json.membersOctets]
    omega

theorem membersOctets_append (ms ns : List (Str × Json)) :
    Json.membersOctets (ms ++ ns) = Json.membersOctets ms + Json.membersOctets ns := by
  simp [Json.membersOctets_eq]

theorem octets_device_le (h : ValidDevice r) : r.json.octets ≤ 1934 := by
  obtain ⟨-, hid⟩ := identifier_spec h.id
  have hid' := stringOctets_le r.deviceId
  have hstatus : stringOctets r.status.text ≤ 12 := by cases r.status <;> decide
  have hcap : Json.itemsOctets (r.capabilities.map .str) ≤ 9 := by
    rw [h.capabilities]
    split <;> decide
  have hname : Json.membersOctets (r.deviceName.map fun t => (lit "device_name", Json.str t)).toList ≤
      stringOctets (lit "device_name") + 386 + 2 :=
    membersOctets_toList fun t ht => octets_text_le h.name ht
  have hlabel : Json.membersOctets (r.label.map fun t => (lit "label", Json.str t)).toList ≤
      stringOctets (lit "label") + 386 + 2 :=
    membersOctets_toList fun t ht => octets_text_le h.label ht
  have hcreated := octets_int_le h.created
  have hupdated := octets_int_le h.updated
  have hepoch : (Json.int r.epoch).octets ≤ 19 := octets_int_le ⟨h.epoch.1, by have := h.epoch.2; omega⟩
  have k1 : stringOctets (lit "device_id") = 11 := rfl
  have k2 : stringOctets (lit "device_public_key") = 19 := rfl
  have k3 : stringOctets (lit "channel_binding_digest") = 24 := rfl
  have k4 : stringOctets (lit "status") = 8 := rfl
  have k5 : stringOctets (lit "created_at") = 12 := rfl
  have k6 : stringOctets (lit "updated_at") = 12 := rfl
  have k7 : stringOctets (lit "epoch") = 7 := rfl
  have k8 : stringOctets (lit "capabilities") = 14 := rfl
  have k9 : stringOctets (lit "device_name") = 13 := rfl
  have k10 : stringOctets (lit "label") = 7 := rfl
  unfold DeviceRecord.json
  rw [Json.octets, membersOctets_append, membersOctets_append]
  simp only [Json.membersOctets, octets_rawJson, k1, k2, k3, k4, k5, k6, k7, k8]
  simp only [Json.octets, maxB64Text] at *
  omega

theorem octets_offer_le (h : ValidOffer o) : o.json.octets ≤ 1200 := by
  obtain ⟨-, hid⟩ := identifier_spec h.id
  have hid' := stringOctets_le o.offerId
  have hstatus : stringOctets o.status.text ≤ 10 := by cases o.status <;> decide
  have hcreated := octets_int_le h.created
  have hexpires := octets_int_le h.expires
  have hconsumed := octets_int_le h.consumed
  have k1 : stringOctets (lit "offer_id") = 10 := rfl
  have k2 : stringOctets (lit "capability_digest") = 19 := rfl
  have k3 : stringOctets (lit "installation_id") = 17 := rfl
  have k4 : stringOctets (lit "host_public_key") = 17 := rfl
  have k5 : stringOctets (lit "created_at") = 12 := rfl
  have k6 : stringOctets (lit "expires_at") = 12 := rfl
  have k7 : stringOctets (lit "status") = 8 := rfl
  have k8 : stringOctets (lit "consumed_at") = 13 := rfl
  unfold PairingOfferRecord.json
  rw [Json.octets]
  simp only [Json.membersOctets, octets_rawJson, k1, k2, k3, k4, k5, k6, k7, k8]
  simp only [Json.octets, maxB64Text] at *
  omega

theorem itemsOctets_le {α : Type} {f : α → Json} {n : ℕ} {as : List α}
    (h : ∀ a ∈ as, (f a).octets ≤ n) : Json.itemsOctets (as.map f) ≤ as.length * (n + 1) := by
  induction as with
  | nil => simp [Json.itemsOctets]
  | cons a as ih =>
    have ha := h a List.mem_cons_self
    have hrest := ih fun b hb => h b (List.mem_cons_of_mem a hb)
    simp only [List.map_cons, Json.itemsOctets, List.length_cons, Nat.add_mul]
    omega

theorem octets_state_le (h : ValidAuthState s) (privateKey : Raw) :
    (s.json privateKey).octets ≤ maxStateBytes := by
  have hversion : (Json.int s.schemaVersion).octets ≤ 19 := by
    refine octets_int_le ⟨by omega, ?_⟩
    rcases h.version with hv | hv <;> rw [hv] <;> decide
  have hdevices : Json.itemsOctets (s.devices.map (·.json)) ≤ s.devices.length * (1934 + 1) :=
    itemsOctets_le fun r hr => octets_device_le (h.devices r hr)
  have hdevices' : s.devices.length * (1934 + 1) ≤ 16 * (1934 + 1) :=
    Nat.mul_le_mul_right _ h.devices_le
  have hoffer : Json.membersOctets (s.pairingOffer.map fun o => (lit "pairing_offer", o.json)).toList ≤
      stringOctets (lit "pairing_offer") + 1200 + 2 :=
    membersOctets_toList fun o ho => octets_offer_le (h.offer o ho)
  have hevidence : ∀ ds ∈ s.revokedKeyDigests, (Json.arr (ds.map rawJson)).octets ≤ 512 * 47 + 2 := by
    intro ds hds
    have hlen : ds.length ≤ maxRevokedKeyDigests := by
      have hle := h.evidence_le
      rw [AuthState.evidence, Option.mem_def.1 hds] at hle
      exact hle
    have hitems : Json.itemsOctets (ds.map rawJson) ≤ ds.length * (46 + 1) :=
      itemsOctets_le fun d _ => (octets_rawJson d).le
    have hmul : ds.length * (46 + 1) ≤ 512 * (46 + 1) := Nat.mul_le_mul_right _ hlen
    rw [Json.octets]
    omega
  have hdigests : Json.membersOctets (s.revokedKeyDigests.map fun ds =>
      (lit "revoked_key_digests", Json.arr (ds.map rawJson))).toList ≤
      stringOctets (lit "revoked_key_digests") + (512 * 47 + 2) + 2 := membersOctets_toList hevidence
  have hidentity : ∀ i ∈ s.hostIdentity, (i.json privateKey).octets ≤ 200 := by
    intro i _
    have k1 : stringOctets (lit "installation_id") = 17 := rfl
    have k2 : stringOctets (lit "private_key") = 13 := rfl
    have k3 : stringOctets (lit "public_key") = 12 := rfl
    unfold HostIdentity.json
    rw [Json.octets]
    simp only [Json.membersOctets, octets_rawJson, k1, k2, k3]
    omega
  have hhost : Json.membersOctets (s.hostIdentity.map fun i =>
      (lit "host_identity", i.json privateKey)).toList ≤ stringOctets (lit "host_identity") + 200 + 2 :=
    membersOctets_toList hidentity
  have hissuer : ∀ i ∈ s.routingIssuer, i.json.octets ≤ 150 := by
    intro i _
    have k1 : stringOctets (lit "private_key") = 13 := rfl
    have k2 : stringOctets (lit "public_key") = 12 := rfl
    unfold IssuerRecord.json
    rw [Json.octets]
    simp only [Json.membersOctets, octets_rawJson, k1, k2]
    omega
  have hrouting : Json.membersOctets (s.routingIssuer.map fun i =>
      (lit "routing_issuer", i.json)).toList ≤ stringOctets (lit "routing_issuer") + 150 + 2 :=
    membersOctets_toList hissuer
  have k1 : stringOctets (lit "schema_version") = 16 := rfl
  have k2 : stringOctets (lit "devices") = 9 := rfl
  have k3 : stringOctets (lit "pairing_offer") = 15 := rfl
  have k4 : stringOctets (lit "revoked_key_digests") = 21 := rfl
  have k5 : stringOctets (lit "host_identity") = 15 := rfl
  have k6 : stringOctets (lit "routing_issuer") = 16 := rfl
  unfold AuthState.json
  rw [Json.octets, membersOctets_append, membersOctets_append, membersOctets_append,
    membersOctets_append]
  simp only [Json.membersOctets, k1, k2]
  simp only [Json.octets, maxStateBytes] at *
  omega

theorem forall_optional {α β : Type} {v : Option α} {f : α → β} {P : β → Prop} :
    (∀ m ∈ (v.map f).toList, P m) ↔ ∀ a ∈ v, P (f a) := by
  cases v <;> simp

theorem encodable_device (h : ValidDevice r) : r.json.encodable = true ↔
    (∀ t ∈ r.deviceName, (utf8 t).isSome) ∧ ∀ t ∈ r.label, (utf8 t).isSome := by
  have hid : (utf8 r.deviceId).isSome := (identifier_spec h.id).1.utf8
  have hstatus : (utf8 r.status.text).isSome := by cases r.status <;> decide
  have hcap : Json.encodableItems (r.capabilities.map .str) = true := by
    rw [h.capabilities]
    split <;> decide
  have hkeys : ∀ k ∈ ["device_id", "device_public_key", "channel_binding_digest", "status",
      "created_at", "updated_at", "epoch", "capabilities", "device_name", "label"],
      (utf8 (lit k)).isSome := by decide
  simp only [List.forall_mem_cons] at hkeys
  obtain ⟨k1, k2, k3, k4, k5, k6, k7, k8, k9, k10, -⟩ := hkeys
  unfold DeviceRecord.json
  rw [Json.encodable, Json.encodableMembers_iff]
  simp only [List.forall_mem_append, List.forall_mem_cons, List.not_mem_nil, forall_optional,
    Json.encodable, encodable_rawJson, hid, hstatus, hcap, k1, k2, k3, k4, k5, k6, k7, k8]
  constructor
  · rintro ⟨⟨-, hname⟩, hlabel⟩
    exact ⟨fun t ht => (hname t ht).2, fun t ht => (hlabel t ht).2⟩
  · rintro ⟨hname, hlabel⟩
    refine ⟨⟨by simp, ?_⟩, ?_⟩
    · intro t ht
      exact ⟨k9, hname t ht⟩
    · intro t ht
      exact ⟨k10, hlabel t ht⟩

theorem encodable_offer (h : ValidOffer o) : o.json.encodable = true := by
  have hid : (utf8 o.offerId).isSome := (identifier_spec h.id).1.utf8
  have hstatus : (utf8 o.status.text).isSome := by cases o.status <;> decide
  have hkeys : ∀ k ∈ ["offer_id", "capability_digest", "installation_id", "host_public_key",
      "created_at", "expires_at", "status", "consumed_at"], (utf8 (lit k)).isSome := by decide
  simp only [List.forall_mem_cons] at hkeys
  obtain ⟨k1, k2, k3, k4, k5, k6, k7, k8, -⟩ := hkeys
  unfold PairingOfferRecord.json
  rw [Json.encodable, Json.encodableMembers_iff]
  simp only [List.forall_mem_cons, List.not_mem_nil, Json.encodable, encodable_rawJson, hid, hstatus,
    k1, k2, k3, k4, k5, k6, k7, k8]
  simp

theorem encodable_identity (i : HostIdentity) (privateKey : Raw) :
    (i.json privateKey).encodable = true := by
  have hkeys : ∀ k ∈ ["installation_id", "private_key", "public_key"], (utf8 (lit k)).isSome := by
    decide
  simp only [List.forall_mem_cons] at hkeys
  obtain ⟨k1, k2, k3, -⟩ := hkeys
  unfold HostIdentity.json
  rw [Json.encodable, Json.encodableMembers_iff]
  simp only [List.forall_mem_cons, List.not_mem_nil, encodable_rawJson, k1, k2, k3]
  simp

theorem encodable_issuer (i : IssuerRecord) : i.json.encodable = true := by
  have k1 : (utf8 (lit "private_key")).isSome := by decide
  have k2 : (utf8 (lit "public_key")).isSome := by decide
  unfold IssuerRecord.json
  rw [Json.encodable, Json.encodableMembers_iff]
  simp only [List.forall_mem_cons, List.not_mem_nil, encodable_rawJson, k1, k2]
  simp

/-- Of a valid state, only the display texts may not encode. -/
theorem encodable_state (h : ValidAuthState s) (privateKey : Raw) :
    (s.json privateKey).encodable = true ↔ s.Encodable := by
  have hkeys : ∀ k ∈ ["schema_version", "devices", "pairing_offer", "revoked_key_digests",
      "host_identity", "routing_issuer"], (utf8 (lit k)).isSome := by decide
  simp only [List.forall_mem_cons] at hkeys
  obtain ⟨k1, k2, k3, k4, k5, k6, -⟩ := hkeys
  unfold AuthState.json
  rw [Json.encodable, Json.encodableMembers_iff]
  simp only [List.forall_mem_append, List.forall_mem_cons, List.not_mem_nil, forall_optional,
    Json.encodable, Json.encodableItems_iff, List.forall_mem_map, k1, k2]
  constructor
  · rintro ⟨⟨⟨⟨⟨-, ⟨-, hdevices⟩, -⟩, -⟩, -⟩, -⟩, -⟩
    intro r hr
    exact (encodable_device (h.devices r hr)).1 (hdevices r hr)
  · intro hs
    refine ⟨⟨⟨⟨⟨by simp, ⟨by simp, ?_⟩, by simp⟩, ?_⟩, ?_⟩, ?_⟩, ?_⟩
    · intro r hr
      exact (encodable_device (h.devices r hr)).2 (hs r hr)
    · intro o ho
      exact ⟨k3, encodable_offer (h.offer o ho)⟩
    · intro ds _
      exact ⟨k4, fun d _ => encodable_rawJson d⟩
    · intro i _
      exact ⟨k5, encodable_identity i privateKey⟩
    · intro i _
      exact ⟨k6, encodable_issuer i⟩

/-- **The text of a valid state is within the limit**, if it encodes. -/
theorem storedText_fits (h : ValidAuthState s) (he : s.Encodable) (privateKey : Raw) :
    FitsIn (s.storedText privateKey) maxStateBytes :=
  (fitsIn_write compactStored_compact _ ((encodable_state h privateKey).2 he)).mono (octets_state_le h privateKey)

end Encoding

end MercuryRelay
