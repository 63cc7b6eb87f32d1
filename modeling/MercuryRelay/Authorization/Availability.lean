/-
  What the repository always allows.

  `Sound` is what every file of a run satisfies: it is valid, it encodes, no
  epoch passes its bound, and an active offer has a slot and the current host
  identity.

  * `revocation_possible_iff`: a listed device can be revoked exactly at a clock
    reading that is not before its creation.  `revocation_before_creation` is a
    revocation that a clock set back makes fail;
  * `active_offer_redeemable`: an active offer can be redeemed.
-/
import MercuryRelay.Authorization.Revocation
import MercuryRelay.Authorization.Writes

set_option autoImplicit false

namespace MercuryRelay

open Python Transaction
open Transition (Run)

/-! ## Reachable files -/

/-- The epoch a record reaches: one for a denial, two for a revocation after it. -/
def DeviceStatus.maxEpoch : DeviceStatus → ℤ
  | .pending | .authorized => 0
  | .denied => 1
  | .revoked => 2

/-- What every file of a run satisfies. -/
structure Sound (f : AuthState) : Prop where
  valid : ValidAuthState f
  encodable : f.Encodable
  epochs : ∀ r ∈ f.devices, r.epoch ≤ r.status.maxEpoch
  offer : ∀ o ∈ f.pairingOffer, o.status = .active →
    f.devices.length < maxDeviceRecords ∧ f.hostIdentity = some ⟨o.installationId, o.hostPublicKey⟩

section Reachable

variable {f f' : AuthState} {w : Write} {r u : DeviceRecord} {t : ℤ}

theorem sound_default : Sound default where
  valid := validAuthState_default
  encodable := by intro r hr; cases hr
  epochs := by intro r hr; cases hr
  offer := by intro o ho; cases ho

theorem Updated.epoch (h : Updated r u) (hr : r.epoch ≤ r.status.maxEpoch) :
    u.epoch ≤ u.status.maxEpoch := by
  cases h with
  | authorized t hp =>
    rw [hp] at hr
    exact hr
  | denied t hp =>
    rw [hp] at hr
    show r.epoch + 1 ≤ 1
    simp only [DeviceStatus.maxEpoch] at hr
    omega
  | revoked t hn =>
    show r.epoch + 1 ≤ 2
    cases hs : r.status with
    | revoked => exact absurd hs hn
    | pending | authorized | denied =>
      rw [hs] at hr
      simp only [DeviceStatus.maxEpoch] at hr
      omega
  | labelled | named => exact hr

theorem epochs_expirePendingInState {maxAge : ℤ} (hf : ∀ r ∈ f.devices, r.epoch ≤ r.status.maxEpoch)
    (hr : r ∈ (expirePendingInState f t maxAge).1.devices) : r.epoch ≤ r.status.maxEpoch := by
  rcases mem_expirePendingInState hr with hr | ⟨x, hx, hp, -, rfl⟩
  · exact hf r hr
  · exact (Updated.denied t hp).epoch (hf x hx)

theorem FileWrite.epochs (h : FileWrite f w f') (hf : ∀ r ∈ f.devices, r.epoch ≤ r.status.maxEpoch) :
    ∀ r ∈ f'.devices, r.epoch ≤ r.status.maxEpoch := by
  intro x hx
  cases h with
  | identity | expireOffer => exact hf x hx
  | sweep t maxAge => exact epochs_expirePendingInState hf hx
  | offer o t => exact epochs_expirePendingInState hf (mem_offerSlot (t := t) hx)
  | pair i k d t =>
    rcases List.mem_append.1 hx with hx | hx
    · exact epochs_expirePendingInState hf (mem_pairSlot (t := t) hx)
    · rw [List.mem_singleton.1 hx]
      exact le_rfl
  | update hr hu =>
    rcases List.mem_or_eq_of_mem_set hx with hx | rfl
    · exact hf x hx
    · exact hu.epoch (hf _ hr)

theorem FileWrite.offer_slot (h : FileWrite f w f')
    (hf : ∀ o ∈ f.pairingOffer, o.status = .active → f.devices.length < maxDeviceRecords ∧
      f.hostIdentity = some ⟨o.installationId, o.hostPublicKey⟩) :
    ∀ o ∈ f'.pairingOffer, o.status = .active → f'.devices.length < maxDeviceRecords ∧
      f'.hostIdentity = some ⟨o.installationId, o.hostPublicKey⟩ := by
  intro o ho ha
  cases h with
  | identity i hnone =>
    -- an active offer has the identity of the file, which has one then
    have hid := (hf o ho ha).2
    rw [hnone] at hid
    cases hid
  | sweep t maxAge =>
    obtain ⟨hlen, hid⟩ := hf o ho ha
    refine ⟨?_, hid⟩
    simpa [expirePendingInState] using hlen
  | offer o' t hid hlen =>
    cases ho
    exact ⟨hlen, (offerSlot_identity t).trans hid⟩
  | expireOffer =>
    cases ho
    cases ha
  | pair =>
    cases ho
    cases ha
  | update =>
    obtain ⟨hlen, hid⟩ := hf o ho ha
    refine ⟨?_, hid⟩
    simpa [replaceDevice] using hlen

theorem Sound.saved (hf : Sound f) (h : Saved f w f') : Sound f' where
  valid := h.2.1 hf.valid
  encodable := h.2.2 hf.encodable
  epochs := h.1.epochs hf.epochs
  offer := h.1.offer_slot hf.offer

/-- **Every file of a run is sound.** -/
theorem runRepository_sound (is : List Invocation) : Sound (runRepository default is) :=
  runRepository_writes (fun _ _ _ hf h => hf.saved h) sound_default is

end Reachable

/-! ## Updates that are saved -/

section Updates

variable {f : AuthState} {r u : DeviceRecord} {t : ℤ}

/-- An update that keeps the identifier and activates no record is valid. -/
theorem valid_replaceDevice (hf : ValidAuthState f) (hr : r ∈ f.devices)
    (hid : u.deviceId = r.deviceId) (hu : ValidDevice u) (ha : u.isActive → r.isActive) :
    ValidAuthState (replaceDevice f r u) := by
  have hd : (replaceDevice f r u).devices = f.devices.map fun x => if x = r then u else x :=
    set_idxOf_eq_map _ hf.nodup.nodup hr
  have hids : (replaceDevice f r u).devices.map (·.deviceId) = f.devices.map (·.deviceId) := by
    rw [hd, List.map_map]
    refine List.map_congr_left fun x _ => ?_
    by_cases hx : x = r
    · simp [hx, hid]
    · simp [hx]
  have hactive : (replaceDevice f r u).devices.countP (·.isActive) ≤ f.devices.countP (·.isActive) := by
    rw [hd, List.countP_map]
    refine List.countP_mono_left fun x _ hx => ?_
    by_cases hxr : x = r
    · subst hxr
      exact ha (by simpa using hx)
    · simpa [hxr] using hx
  exact
    { version := hf.version
      evidence_iff := hf.evidence_iff
      evidence_le := hf.evidence_le
      evidence_nodup := hf.evidence_nodup
      devices_le := by rw [hd, List.length_map]; exact hf.devices_le
      ids_nodup := by rw [hids]; exact hf.ids_nodup
      devices := by
        intro x hx
        rcases List.mem_or_eq_of_mem_set hx with hx | rfl
        · exact hf.devices x hx
        · exact hu
      active_le := hactive.trans hf.active_le
      offer := hf.offer }

/-- An update that keeps the display texts encodes. -/
theorem encodable_replaceDevice (hf : f.Encodable) (hr : r ∈ f.devices)
    (hname : u.deviceName = r.deviceName) (hlabel : u.label = r.label) :
    (replaceDevice f r u).Encodable := by
  intro x hx
  rcases List.mem_or_eq_of_mem_set hx with hx | rfl
  · exact hf x hx
  · rw [hname, hlabel]
    exact hf r hr

/-- A record revoked after its creation is valid. -/
theorem valid_revokedAt (hr : ValidDevice r) (he : r.epoch ≤ 1) (ht : ValidInt t)
    (hle : r.createdAt ≤ t) : ValidDevice (revokedAt t r) where
  name := hr.name
  label := hr.label
  id := hr.id
  created := hr.created
  updated := ht
  epoch := by
    have := hr.epoch.1
    constructor <;> simp only [revokedAt] <;> omega
  order := hle
  capabilities := rfl

theorem Sound.revoked (hf : Sound f) (hr : r ∈ f.devices) (hn : r.status ≠ .revoked)
    (ht : ValidInt t) (hle : r.createdAt ≤ t) :
    ValidAuthState (replaceDevice f r (revokedAt t r)) ∧
      (replaceDevice f r (revokedAt t r)).Encodable := by
  have he : r.epoch ≤ 1 := by
    have h := hf.epochs r hr
    cases hs : r.status with
    | revoked => exact absurd hs hn
    | pending | authorized | denied =>
      rw [hs] at h
      simp only [DeviceStatus.maxEpoch] at h
      omega
  refine ⟨valid_replaceDevice hf.valid hr rfl (valid_revokedAt (hf.valid.devices r hr) he ht hle) ?_,
    encodable_replaceDevice hf.encodable hr rfl rfl⟩
  intro h
  cases h

end Updates

/-! ## Calls without faults -/

section Returns

variable {w : World AuthState} {s : AuthState} {t : ℤ}

theorem returns_transactionLock (hw : w.faults = []) : Returns transactionLock () w w :=
  returns_access hw

theorem returns_loadStateUnlocked (hw : w.faults = []) (hv : ValidAuthState w.file) :
    Returns loadStateUnlocked w.file w w := by
  refine (returns_access hw).bind (returns_load.bind ?_)
  rw [if_pos hv]
  exact returns_pure

theorem returns_saveStateUnlocked (hw : w.faults = []) (hv : ValidAuthState s) (he : s.Encodable) :
    Returns (saveStateUnlocked s) () w { w with file := s } := by
  unfold saveStateUnlocked
  rw [if_pos ⟨hv, he⟩]
  exact (returns_access hw).bind returns_store

theorem returns_now {rs : List (Option ℤ)} (hw : w.readings = some t :: rs) (ht : ValidInt t) :
    Returns now t w { w with readings := rs } := by
  refine (returns_clock hw).bind ?_
  rw [if_neg (by obtain ⟨h1, h2⟩ := ht; omega)]
  exact returns_pure

theorem returns_loadOrCreateUnlocked (hw : w.faults = []) {i : HostIdentity}
    (hi : w.file.hostIdentity = some i) : Returns loadOrCreateUnlocked i w w := by
  refine (returns_access hw).bind (returns_load.bind ?_)
  rw [hi]
  exact returns_pure

end Returns

/-! ## Revocation -/

/-- The step returned a revoked summary of `d`; and the file it left loads, is
    within the size limit and shows `d` revoked. -/
def Revokes (f : AuthState) (i : Invocation) (d : Str) : Prop :=
  let f' := (i.exec f).2
  (∃ s, (i.exec f).1 = .ok (.optionalDevice (some s)) ∧ s.deviceId = d ∧ s.status = .revoked) ∧
    (exec loadStateUnlocked ⟨f', [], [], []⟩).1 = .ok f' ∧
    (∀ key, FitsIn (f'.storedText key) maxStateBytes) ∧
    ∃ x ∈ f'.devices, x.deviceId = d ∧ x.status = .revoked

section Revocation

variable {f : AuthState} {r : DeviceRecord} {t : ℤ} {rs : List (Option ℤ)} {i : Invocation}

/-- A valid file that encodes loads, and is within the limit. -/
theorem loads_of_valid (hv : ValidAuthState f) (he : f.Encodable) :
    (exec loadStateUnlocked ⟨f, [], [], []⟩).1 = .ok f ∧
      ∀ key, FitsIn (f.storedText key) maxStateBytes := by
  have h : Returns loadStateUnlocked f ⟨f, [], [], []⟩ ⟨f, [], [], []⟩ :=
    returns_loadStateUnlocked rfl hv
  rw [h.exec]
  exact ⟨rfl, fun key => storedText_fits hv he key⟩

/-- A reading before the creation of an unrevoked record makes `revoke` raise. -/
theorem revoke_order (hf : ValidAuthState f) (hr : r ∈ f.devices) :
    wp (revoke r.deviceId) (fun _ _ => True)
      (fun _ _ _ => r.status = .revoked ∨ r.createdAt ≤ t) f (some t :: rs) := by
  unfold revoke
  split
  · exact wp_throw trivial
  · refine wp_bind (wp_transactionLock (fun _ => trivial) ?_)
    refine wp_bind (wp_loadStateUnlocked (fun _ => trivial) fun _ => ?_)
    rw [findDevice_eq hf.nodup hr]
    dsimp only
    split
    · rename_i hrev
      exact wp_pure (Or.inl hrev)
    · refine wp_bind (wp_now (fun _ => trivial) fun t' rs' ht => ?_)
      cases ht
      refine wp_bind (wp_saveStateUnlocked (fun _ => trivial) fun hv => wp_pure (Or.inr ?_))
      exact (hv.devices _ (mem_replaceDevice (u := revokedAt t r) hr)).order

/-- From its creation on a record can be revoked. -/
theorem returns_revoke (hf : Sound f) (hr : r ∈ f.devices) (hn : r.status ≠ .revoked)
    (ht : ValidInt t) (hle : r.createdAt ≤ t) {w : World AuthState} (hw : w.file = f)
    (hrs : w.readings = some t :: rs) (hfaults : w.faults = []) :
    Returns (revoke r.deviceId) (some (summary (revokedAt t r))) w
      { w with file := replaceDevice f r (revokedAt t r), readings := rs } := by
  subst hw
  obtain ⟨b, hb⟩ := Option.isSome_iff_exists.1 (hf.valid.devices r hr).id
  obtain ⟨hv, he⟩ := hf.revoked hr hn ht hle
  unfold revoke
  rw [hb]
  refine (returns_transactionLock hfaults).bind
    ((returns_loadStateUnlocked hfaults hf.valid).bind ?_)
  rw [findDevice_eq hf.valid.nodup hr]
  dsimp only
  rw [if_neg hn]
  refine (returns_now hrs ht).bind ?_
  have hsave : Returns (saveStateUnlocked (replaceDevice w.file r (revokedAt t r))) ()
      { w with readings := rs }
      { w with file := replaceDevice w.file r (revokedAt t r), readings := rs } :=
    returns_saveStateUnlocked hfaults hv he
  exact hsave.bind returns_pure

/-- A revoked record is returned as it is. -/
theorem returns_revoked (hf : ValidAuthState f) (hr : r ∈ f.devices) (hrev : r.status = .revoked)
    {w : World AuthState} (hw : w.file = f) (hfaults : w.faults = []) :
    Returns (revoke r.deviceId) (some (summary r)) w w := by
  subst hw
  obtain ⟨b, hb⟩ := Option.isSome_iff_exists.1 (hf.devices r hr).id
  unfold revoke
  rw [hb]
  refine (returns_transactionLock hfaults).bind ((returns_loadStateUnlocked hfaults hf).bind ?_)
  rw [findDevice_eq hf.nodup hr]
  dsimp only
  rw [if_pos hrev]
  exact returns_pure

/-- The result of a `revoke` that returns. -/
theorem Invocation.revokes_of_returns {s : DeviceSummary} {f' : AuthState} {w' : World AuthState}
    (hc : i.call = .revoke r.deviceId)
    (h : Returns (revoke r.deviceId) (some s) ⟨f, i.readings, i.draws, i.faults⟩ w')
    (hw : w'.file = f') (hid : s.deviceId = r.deviceId) (hs : s.status = .revoked)
    (hv : ValidAuthState f') (he : f'.Encodable)
    (hx : ∃ x ∈ f'.devices, x.deviceId = r.deviceId ∧ x.status = .revoked) :
    Revokes f i r.deviceId := by
  have hexec : i.exec f = (.ok (.optionalDevice (some s)), f') := by
    unfold Invocation.exec
    rw [hc]
    have hmap : Returns (Call.revoke r.deviceId).run _ _ _ := h.map (g := Reply.optionalDevice)
    rw [hmap.exec, hw]
  unfold Revokes
  rw [hexec]
  exact ⟨⟨s, rfl, hid, hs⟩, (loads_of_valid hv he).1, (loads_of_valid hv he).2, hx⟩

end Revocation

/-- **When a listed device can be revoked**: if it is revoked already, or the
    clock reading is not before its creation. -/
theorem revocation_possible_iff (is : List Invocation) (i : Invocation) {r : DeviceRecord} {t : ℤ}
    {rs : List (Option ℤ)} (hr : r ∈ (runRepository default is).devices)
    (hc : i.call = .revoke r.deviceId) (hrs : i.readings = some t :: rs) (ht : ValidInt t)
    (hfaults : i.faults = []) :
    Revokes (runRepository default is) i r.deviceId ↔ r.status = .revoked ∨ r.createdAt ≤ t := by
  have hf := runRepository_sound is
  constructor
  · rintro ⟨⟨s, hs, -⟩, -⟩
    have h := @revoke_order _ r t rs hf.valid hr
    refine (i.of_wp (E := fun _ _ => True)
      (Q := fun _ _ => r.status = .revoked ∨ r.createdAt ≤ t) ?_).ok hs
    rw [hc, hrs]
    exact wp_map h
  · intro h
    by_cases hrev : r.status = .revoked
    · have hret := returns_revoked hf.valid hr hrev
        (w := ⟨runRepository default is, i.readings, i.draws, i.faults⟩) rfl hfaults
      exact i.revokes_of_returns hc hret rfl rfl hrev hf.valid hf.encodable ⟨r, hr, rfl, hrev⟩
    · have hle := h.resolve_left hrev
      have hret := returns_revoke hf hr hrev ht hle
        (w := ⟨runRepository default is, i.readings, i.draws, i.faults⟩) rfl hrs hfaults
      obtain ⟨hv, he⟩ := hf.revoked hr hrev ht hle
      refine i.revokes_of_returns hc hret rfl rfl rfl hv he ⟨revokedAt t r, ?_, rfl, rfl⟩
      exact mem_replaceDevice hr

theorem revocation_possible_iff_later :
    let is := identityDraws :: pairing 1 (octets 32 50) 1001
    Revokes (runRepository default is) (revocation 1 1002) (b64urlEncode (octets 16 1)) ↔
      DeviceStatus.pending = .revoked ∨ (1001 : ℤ) ≤ 1002 := by
  intro is
  have hr : pairedRecord (b64urlEncode (octets 16 1)) ⟨octets 32 50, by decide⟩
      (sha256 (octets 32 1)) 1001 ∈ (runRepository default is).devices := by decide +kernel
  exact revocation_possible_iff is (revocation 1 1002) hr rfl rfl (by decide) rfl

/-- A clock set back by two seconds makes the revocation of a new device raise. -/
theorem revocation_before_creation :
    ¬ ∀ (is : List Invocation) (i : Invocation) (r : DeviceRecord) (t : ℤ) (rs : List (Option ℤ)),
      r ∈ (runRepository default is).devices → i.call = .revoke r.deviceId →
      i.readings = some t :: rs → ValidInt t → i.faults = [] →
      Revokes (runRepository default is) i r.deviceId := by
  intro h
  have hr : pairedRecord (b64urlEncode (octets 16 1)) ⟨octets 32 50, by decide⟩
      (sha256 (octets 32 1)) 1001 ∈
      (runRepository default (identityDraws :: pairing 1 (octets 32 50) 1001)).devices := by
    decide +kernel
  obtain ⟨⟨s, hs, -⟩, -⟩ := h _ (revocation 1 999) _ 999 [] hr rfl rfl (by decide) rfl
  have herr : ((revocation 1 999).exec
      (runRepository default (identityDraws :: pairing 1 (octets 32 50) 1001))).1 =
      .error (.authorization "authorization state unavailable") := by decide +kernel
  rw [herr] at hs
  cases hs

/-! ## Redemption -/

/-- Within `tries` draws comes an identifier that is not taken, and the source
    does not fail before. -/
def FreshDraw (size : ℕ) (existing : List Str) : ℕ → List (Option Bytes) → Prop
  | tries + 1, some b :: rest =>
    b.length = size ∧ (b64urlEncode b ∈ existing → FreshDraw size existing tries rest)
  | _, _ => False

section Redemption

variable {f : AuthState} {o : PairingOfferRecord} {d : Str} {k b : Raw} {t : ℤ}

theorem returns_newIdentifierFrom {size : ℕ} {existing : List Str} {tries : ℕ}
    {w : World AuthState} (h : FreshDraw size existing tries w.draws) :
    ∃ v : Bytes, ∃ rest, v.length = size ∧ b64urlEncode v ∉ existing ∧
      Returns (newIdentifierFrom size existing tries) (b64urlEncode v) w { w with draws := rest } := by
  induction tries generalizing w with
  | zero => cases h
  | succ tries ih =>
    rcases hd : w.draws with _ | ⟨_ | v, ds⟩
    · rw [hd] at h
      cases h
    · rw [hd] at h
      cases h
    · rw [hd] at h
      obtain ⟨hlen, htaken⟩ := h
      have hdraw : Returns (draw size (.authorization "random generation failed") : Repo _)
          ⟨v, hlen⟩ w { w with draws := ds } := returns_draw hd
      by_cases hmem : b64urlEncode v ∈ existing
      · obtain ⟨v', rest, hlen', hnew, hrest⟩ := ih (w := { w with draws := ds }) (htaken hmem)
        refine ⟨v', rest, hlen', hnew, hdraw.bind ?_⟩
        rw [if_pos hmem]
        exact hrest
      · refine ⟨v, ds, hlen, hmem, hdraw.bind ?_⟩
        rw [if_neg hmem]
        exact returns_pure

theorem valid_denied {r : DeviceRecord} (hr : ValidDevice r) (he : r.epoch ≤ 0)
    (hp : r.status = .pending) (ht : ValidInt t) (hle : r.createdAt + maxTtlSeconds ≤ t) :
    ValidDevice (deniedAt t r) where
  name := hr.name
  label := hr.label
  id := hr.id
  created := hr.created
  updated := ht
  epoch := by
    have := hr.epoch.1
    constructor <;> simp only [deniedAt] <;> omega
  order := by
    simp only [maxTtlSeconds] at hle
    show r.createdAt ≤ t
    omega
  capabilities := by
    have hcap := hr.capabilities
    rw [hp] at hcap
    exact hcap

theorem valid_pairedRecord (hd : (b64urlDecodeExact d deviceIdBytes).isSome) (ht : ValidInt t) :
    ValidDevice (pairedRecord d k b t) where
  name := by intro x hx; cases hx
  label := by intro x hx; cases hx
  id := hd
  created := ht
  updated := ht
  epoch := by
    show (0 : ℤ) ≤ 0 ∧ (0 : ℤ) ≤ 2 ^ 31 - 1
    decide
  order := le_rfl
  capabilities := rfl

/-- The sweep keeps the records valid. -/
theorem Sound.swept (hf : Sound f) (ht : ValidInt t) :
    ∀ r ∈ (expirePendingInState f t).1.devices, ValidDevice r := by
  intro r hr
  rcases mem_expirePendingInState hr with hr | ⟨x, hx, hp, hle, rfl⟩
  · exact hf.valid.devices r hr
  · have he := hf.epochs x hx
    rw [hp] at he
    exact valid_denied (hf.valid.devices x hx) he hp ht hle

/-- The sweep bans no key. -/
theorem revokedKey_swept (h : ¬ f.Banned k) : revokedKey (expirePendingInState f t).1 k = false := by
  rw [Bool.eq_false_iff]
  intro hk
  rw [revokedKey, Bool.or_eq_true] at hk
  rcases hk with hev | hrev
  · refine h (Or.inr ?_)
    simpa [AuthState.evidence, expirePendingInState] using hev
  · obtain ⟨r, hr, hrk⟩ := List.any_eq_true.1 hrev
    simp only [Bool.and_eq_true, decide_eq_true_eq] at hrk
    rcases mem_expirePendingInState hr with hr | ⟨x, -, -, -, rfl⟩
    · exact h (Or.inl ⟨r, hr, hrk.1, hrk.2⟩)
    · cases hrk.1

/-- The offer as it is consumed is valid. -/
theorem valid_consumed (ho : ValidOffer o) (ht : ValidInt t) (hpos : 1 ≤ t) :
    ValidOffer { o with status := .consumed, consumedAt := t } where
  id := ho.id
  created := ho.created
  expires := ho.expires
  consumed := ht
  order := ho.order
  status := by
    simp only [true_iff, ne_eq]
    omega

/-- What `consume_offer` saves for an active offer is valid and encodes. -/
theorem Sound.paired (hf : Sound f) (ho : f.pairingOffer = some o) (ha : o.status = .active)
    (ht : ValidInt t) (hpos : 1 ≤ t) (hd : (b64urlDecodeExact d deviceIdBytes).isSome)
    (hnew : d ∉ f.devices.map (·.deviceId))
    (hactive : (expirePendingInState f t).1.devices.countP (·.isActive) < maxActiveDevices) :
    ValidAuthState (withPaired (expirePendingInState f t).1 o (pairedRecord d k b t) t) ∧
      (withPaired (expirePendingInState f t).1 o (pairedRecord d k b t) t).Encodable := by
  obtain ⟨hlen, -⟩ := hf.offer o ho ha
  have hids := expirePendingInState_ids f t maxTtlSeconds
  constructor
  · exact
      { version := hf.valid.version
        evidence_iff := hf.valid.evidence_iff
        evidence_le := hf.valid.evidence_le
        evidence_nodup := hf.valid.evidence_nodup
        devices_le := by
          simp only [withPaired, expirePendingInState, List.length_append, List.length_map,
            List.length_singleton]
          exact hlen
        ids_nodup := by
          simp only [withPaired, List.map_append, hids]
          refine List.Nodup.append hf.valid.ids_nodup (List.nodup_singleton _) ?_
          rw [List.map_singleton, List.disjoint_singleton]
          exact hnew
        devices := by
          intro r hr
          rcases List.mem_append.1 hr with hr | hr
          · exact hf.swept ht r hr
          · rw [List.mem_singleton.1 hr]
            exact valid_pairedRecord hd ht
        active_le := by
          simp only [withPaired, List.countP_append]
          have hone : [pairedRecord d k b t].countP (·.isActive) ≤ 1 := List.countP_le_length
          omega
        offer := by
          intro o' ho'
          cases ho'
          exact valid_consumed (hf.valid.offer o ho) ht hpos }
  · intro r hr
    rcases List.mem_append.1 hr with hr | hr
    · rcases mem_expirePendingInState hr with hr | ⟨x, hx, -, -, rfl⟩
      · exact hf.encodable r hr
      · exact hf.encodable x hx
    · rw [List.mem_singleton.1 hr]
      exact ⟨fun x hx => (by cases hx), fun x hx => (by cases hx)⟩

theorem exactInput_raw (v : Raw) : exactInput v.1 = some v := by
  have h : v.1.length = rawBytes := v.2
  unfold exactInput
  rw [dif_pos h]

/-- A `consume_offer` of the active offer that finds a slot and an identifier
    returns. -/
theorem returns_consumeOffer (hf : Sound f) (ho : f.pairingOffer = some o) (ha : o.status = .active)
    {c : Raw} (hc : sha256 c.1 = o.capabilityDigest) (hk : ¬ f.Banned k) (hpos : 1 ≤ t)
    (hdue : t < o.expiresAt)
    (hactive : (expirePendingInState f t).1.devices.countP (·.isActive) < maxActiveDevices)
    {w : World AuthState} {rs : List (Option ℤ)} (hw : w.file = f) (hrs : w.readings = some t :: rs)
    (hdraws : FreshDraw deviceIdBytes (f.devices.map (·.deviceId)) 8 w.draws)
    (hfaults : w.faults = []) :
    ∃ d w', Returns (consumeOffer c.1 k.1 b.1) (summary (pairedRecord d k (sha256 b.1) t)) w w' ∧
      pairedRecord d k (sha256 b.1) t ∈ w'.file.devices := by
  subst hw
  obtain ⟨hlen, hid⟩ := hf.offer o ho ha
  have ht : ValidInt t := ⟨by omega, by have := (hf.valid.offer o ho).expires.2; omega⟩
  have hslot : makeDeviceSlot (expirePendingInState w.file t).1 = (expirePendingInState w.file t).1 :=
    makeDeviceSlot_of_lt (by simpa [expirePendingInState] using hlen)
  obtain ⟨v, rest, hv, hnew, hident⟩ :=
    returns_newIdentifierFrom (w := { w with readings := rs }) hdraws
  have hdecode : (b64urlDecodeExact (b64urlEncode v) deviceIdBytes).isSome := by
    rw [← hv, b64urlDecodeExact_encode]
    · rfl
    · rintro rfl
      cases hv
    · rw [hv]
      decide
  obtain ⟨hvalid, henc⟩ := hf.paired (k := k) (b := sha256 b.1) ho ha ht hpos hdecode hnew hactive
  let w' : World AuthState :=
    { w with
      file := withPaired (expirePendingInState w.file t).1 o
        (pairedRecord (b64urlEncode v) k (sha256 b.1) t) t
      readings := rs
      draws := rest }
  refine ⟨b64urlEncode v, w', ?_, List.mem_append_right _ (List.mem_singleton_self _)⟩
  unfold consumeOffer
  rw [exactInput_raw, exactInput_raw, exactInput_raw]
  refine (returns_transactionLock hfaults).bind
    ((returns_loadStateUnlocked hfaults hf.valid).bind
      ((returns_loadOrCreateUnlocked hfaults hid).bind
        ((returns_loadStateUnlocked hfaults hf.valid).bind ?_)))
  rw [ho]
  refine (returns_now hrs ht).bind ?_
  rw [if_pos ⟨hc, rfl, rfl, ha, hdue⟩, hslot]
  unfold pairDevice
  rw [if_neg ?guard]
  case guard =>
    simp only [not_or, not_le, ge_iff_le]
    refine ⟨hactive, by rw [revokedKey_swept hk]; simp, ?_⟩
    simpa [expirePendingInState] using hlen
  have hids : newIdentifier deviceIdBytes ((expirePendingInState w.file t).1.devices.map (·.deviceId)) =
      newIdentifierFrom deviceIdBytes (w.file.devices.map (·.deviceId)) 8 := by
    rw [expirePendingInState_ids]
    rfl
  rw [hids]
  refine hident.bind ?_
  have hsave : Returns (saveStateUnlocked (withPaired (expirePendingInState w.file t).1 o
      (pairedRecord (b64urlEncode v) k (sha256 b.1) t) t)) ()
      { w with readings := rs, draws := rest } w' :=
    returns_saveStateUnlocked hfaults hvalid henc
  exact hsave.bind returns_pure

end Redemption

/-- **An active offer can be redeemed.**  It has a slot and the current host
    identity; and its capability pairs any key that is not banned, at any clock
    reading from 1 until it expires, while fewer than five records are active. -/
theorem active_offer_redeemable (is : List Invocation) {o : PairingOfferRecord}
    (ho : (runRepository default is).pairingOffer = some o) (ha : o.status = .active) :
    let f := runRepository default is
    (f.devices.length < 16 ∧ f.hostIdentity = some ⟨o.installationId, o.hostPublicKey⟩) ∧
    ∀ (i : Invocation) (capability key binding : Raw) (t : ℤ) (rs : List (Option ℤ)),
      i.call = .consumeOffer capability.1 key.1 binding.1 → sha256 capability.1 = o.capabilityDigest →
      ¬ f.Banned key → i.readings = some t :: rs → 1 ≤ t → t < o.expiresAt →
      (expirePendingInState f t).1.devices.countP (·.isActive) < 5 →
      FreshDraw deviceIdBytes (f.devices.map (·.deviceId)) 8 i.draws → i.faults = [] →
      ∃ d, (i.exec f).1 = .ok (.device (summary (pairedRecord d key (sha256 binding.1) t))) ∧
        pairedRecord d key (sha256 binding.1) t ∈ (i.exec f).2.devices := by
  intro f
  have hf : Sound f := runRepository_sound is
  refine ⟨hf.offer o ho ha, ?_⟩
  intro i capability key binding t rs hc hdigest hbanned hrs hpos hdue hactive hdraws hfaults
  obtain ⟨d, w', hret, hmem⟩ := returns_consumeOffer (b := binding) hf ho ha hdigest hbanned hpos hdue
    hactive (w := ⟨f, i.readings, i.draws, i.faults⟩) rfl hrs hdraws hfaults
  have hexec : i.exec f =
      (.ok (.device (summary (pairedRecord d key (sha256 binding.1) t))), w'.file) := by
    unfold Invocation.exec
    rw [hc]
    have hmap : Returns (Call.consumeOffer capability.1 key.1 binding.1).run _ _ _ :=
      hret.map (g := Reply.device)
    exact hmap.exec
  rw [hexec]
  exact ⟨d, rfl, hmem⟩

/-- The first offer is consumed, with the clock 990 seconds before it was made. -/
def earlyConsumption : Invocation :=
  { call := .consumeOffer (octets 32 9) (octets 32 50) (octets 32 1)
    readings := [some 10], draws := [some (octets 16 1)] }

theorem active_offer_redeemable_early :
    ∃ d, (earlyConsumption.exec (runRepository default [identityDraws])).1 =
      .ok (.device (summary (pairedRecord d ⟨octets 32 50, by decide⟩ (sha256 (octets 32 1)) 10))) := by
  have ho : (runRepository default [identityDraws]).pairingOffer = some (activeOffer
      (b64urlEncode (octets 16 9)) ⟨octets 32 9, by decide⟩
      ⟨⟨octets 32 8, by decide⟩, ⟨octets 32 7, by decide⟩⟩ 1000 1300) := by decide
  have hbanned : ¬ (runRepository default [identityDraws]).Banned ⟨octets 32 50, by decide⟩ := by
    decide
  have hactive : (expirePendingInState (runRepository default [identityDraws]) 10).1.devices.countP
      (·.isActive) < 5 := by decide
  have hdraws : FreshDraw deviceIdBytes
      ((runRepository default [identityDraws]).devices.map (·.deviceId)) 8
      earlyConsumption.draws := by
    have hnone : (runRepository default [identityDraws]).devices.map (·.deviceId) = [] := by
      decide
    rw [hnone]
    exact ⟨by decide, fun h => absurd h List.not_mem_nil⟩
  obtain ⟨-, h⟩ := active_offer_redeemable [identityDraws] ho rfl
  obtain ⟨d, hd, -⟩ := h earlyConsumption ⟨octets 32 9, by decide⟩ ⟨octets 32 50, by decide⟩
    ⟨octets 32 1, by decide⟩ 10 [] rfl rfl hbanned rfl (by decide) (by decide) hactive hdraws rfl
  exact ⟨d, hd⟩

end MercuryRelay
