/-
  What a revocation does to the key of the revoked record.

  * `revoked_key_evidence`: a revoked key stays banned and never pairs again;
  * `banned_key_not_authorized`: no record whose key is banned is authorized,
    if no step severs only one of two records of a key.  The code does not
    refuse such steps: `revocation_leaves_twin_authorized` is a run in which a
    phone pairs twice and only one of its records is revoked.
-/
import MercuryRelay.Authorization.Refinement

set_option autoImplicit false

namespace MercuryRelay

open Python Transaction Registry
open Transition (Run)

/-- A key is banned: a revoked record has it, or its digest is in evidence. -/
def AuthState.Banned (f : AuthState) (k : Raw) : Prop :=
  (∃ r ∈ f.devices, r.status = .revoked ∧ r.devicePublicKey = k) ∨ sha256 k.1 ∈ f.evidence

instance (f : AuthState) (k : Raw) : Decidable (f.Banned k) := by
  unfold AuthState.Banned; infer_instance

section Bans

variable {f : AuthState} {k : Raw} {i : Invocation}

theorem banned_iff : f.Banned k ↔ Registry.Banned keyDigest f.registry k := by
  rw [← revokedKey_iff]
  simp [revokedKey, AuthState.Banned, or_comm]

/-- A step keeps bans. -/
theorem Invocation.banned (hf : ValidAuthState f) (i : Invocation) (hk : f.Banned k) :
    (i.exec f).2.Banned k := by
  obtain ⟨-, s₁, ⟨as, ha, -⟩, h⟩ := i.explained hf
  have h₁ := Run.banned ha (banned_iff.1 hk)
  rw [banned_iff]
  rcases h with rfl | ⟨ed, -, hs⟩
  · exact h₁
  · exact hs.banned h₁

/-- A run keeps bans. -/
theorem runRepository_banned (hf : ValidAuthState f) (is : List Invocation) (hk : f.Banned k) :
    (runRepository f is).Banned k := by
  obtain ⟨eds, h⟩ := runRepository_refines hf is
  exact banned_iff.2 (Run.banned h (banned_iff.1 hk))

/-- A run only adds evidence. -/
theorem runRepository_evidence (hf : ValidAuthState f) (is : List Invocation) :
    f.evidence <+: (runRepository f is).evidence := by
  obtain ⟨eds, h⟩ := runRepository_refines hf is
  exact Run.evidence h

/-- A banned key is not paired. -/
theorem Invocation.rejects_banned (hf : ValidAuthState f) {a key b : Bytes}
    (hc : i.call = .consumeOffer a key b) (hkey : k.1 = key) (hk : f.Banned k) :
    ∃ e, (i.exec f).1 = .error e := by
  cases hr : (i.exec f).1 with
  | error e => exact ⟨e, rfl⟩
  | ok reply =>
    obtain ⟨-, s₁, ed, ⟨as, ha, -⟩, hcause, hs⟩ := i.paired hf hc hr
    rw [hc] at hcause
    obtain ⟨e, _, rfl, hek, -⟩ := hcause.pair
    have hb := Run.banned ha (banned_iff.1 hk)
    rw [show k = e.key from Subtype.ext (hkey.trans hek.symm)] at hb
    exact absurd hb hs.not_banned

end Bans

/-! ## Runs of one phone or two -/

/-- `n` octets `b`. -/
def octets (n : ℕ) (b : UInt8) : Bytes := List.replicate n b

/-- An offer made and consumed: the device gets the identifier of sixteen
    octets `b`, and its channel binding is thirty-two octets `b`. -/
def pairing (b : UInt8) (key : Bytes) (t : ℤ) : List Invocation :=
  [{ call := .createOffer 300, readings := [some t]
     draws := [some (octets 16 b), some (octets 32 b)] },
   { call := .consumeOffer (octets 32 b) key (octets 32 b), readings := [some t]
     draws := [some (octets 16 b)] }]

def approval (b : UInt8) (t : ℤ) : Invocation :=
  { call := .approve (b64urlEncode (octets 16 b)) (sha256 (octets 32 b)).1
    readings := [some t, some t] }

def revocation (b : UInt8) (t : ℤ) : Invocation :=
  { call := .revoke (b64urlEncode (octets 16 b)), readings := [some t] }

/-- A first offer, which makes the host identity. -/
def identityDraws : Invocation :=
  { call := .createOffer 300, readings := [some 1000]
    draws := [some (octets 32 7), some (octets 32 8), some (octets 16 9), some (octets 32 9)] }

/-! ## A revoked key stays banned -/

/-- In the run `is`, a `revoke` returned the summary of a record with key `k`. -/
def RevokedIn (is : List Invocation) (k : Raw) : Prop :=
  ∃ as v bs d s, is = as ++ v :: bs ∧ v.call = .revoke d ∧
    (v.exec (runRepository default as)).1 = .ok (.optionalDevice (some s)) ∧
    ∃ r ∈ (runRepository default as).devices, r.deviceId = d ∧ r.devicePublicKey = k

theorem RevokedIn.banned {is : List Invocation} {k : Raw} (h : RevokedIn is k) :
    (runRepository default is).Banned k := by
  obtain ⟨as, v, bs, d, s, rfl, hc, hr, r, hmem, hid, rfl⟩ := h
  have hf := runRepository_valid validAuthState_default as
  obtain ⟨x, hx, hrev, hk⟩ := (v.revoked hf hc hr).2 r hmem hid
  rw [runRepository_append]
  exact runRepository_banned (v.explained hf).1 bs (Or.inl ⟨x, hx, hrev, hk⟩)

/-- **Evidence of a revoked key is never lost.**  The evidence is bounded,
    without duplicates, only grows and is present in version 2 only; and a
    revoked key stays banned and is rejected by `consume_offer`. -/
theorem revoked_key_evidence (is js : List Invocation) :
    let f := runRepository default is
    let f' := runRepository default (is ++ js)
    (f.evidence.Nodup ∧ f.evidence.length ≤ 512 ∧ f.evidence <+: f'.evidence ∧
      (f.revokedKeyDigests.isSome ↔ f.schemaVersion = 2)) ∧
    ∀ k, RevokedIn is k →
      ((∃ r ∈ f.devices, r.status = .revoked ∧ r.devicePublicKey = k) ∨
        sha256 k.1 ∈ f.evidence) ∧
      ∀ (i : Invocation) a b, i.call = .consumeOffer a k.1 b → ∃ e, (i.exec f).1 = .error e := by
  intro f f'
  have hf : ValidAuthState f := runRepository_valid validAuthState_default is
  refine ⟨⟨hf.evidence_nodup, hf.evidence_le, ?_, hf.evidence_iff⟩, fun k hk => ⟨hk.banned, ?_⟩⟩
  · have hf' : f' = runRepository f js := runRepository_append _ _ _
    rw [hf']; exact runRepository_evidence hf js
  · exact fun i a b hc => i.rejects_banned hf hc rfl hk.banned

theorem revoked_key_evidence_revoked :
    let is := identityDraws :: pairing 1 (octets 32 50) 1001 ++ [approval 1 1002, revocation 1 1003]
    let k : Raw := ⟨octets 32 50, by decide⟩
    ((∃ r ∈ (runRepository default is).devices, r.status = .revoked ∧ r.devicePublicKey = k) ∨
      sha256 k.1 ∈ (runRepository default is).evidence) ∧
    ∀ (i : Invocation) a b, i.call = .consumeOffer a k.1 b →
      ∃ e, (i.exec (runRepository default is)).1 = .error e := by
  intro is k
  refine (revoked_key_evidence is []).2 k ?_
  exact ⟨identityDraws :: pairing 1 (octets 32 50) 1001 ++ [approval 1 1002], revocation 1 1003, [],
    _, ⟨b64urlEncode (octets 16 1), .revoked, fingerprint (sha256 (octets 32 1)), 1001, 1003, 1, [],
      [], []⟩, rfl, rfl, by decide +kernel, by decide +kernel⟩

/-! ## Authorizations of a banned key -/

/-- No record whose key is banned is authorized. -/
def BansHold (f : AuthState) : Prop :=
  ∀ r ∈ f.devices, f.Banned r.devicePublicKey → r.status ≠ .authorized

instance (f : AuthState) : Decidable (BansHold f) := by unfold BansHold; infer_instance

def Call.isApproval : Call → Bool
  | .approve .. | .approveConfirmed .. => true
  | _ => false

/-- The step does not authorize a record whose key is banned. -/
def KeepsBans (f : AuthState) (i : Invocation) : Prop :=
  i.call.isApproval → ∀ r ∈ f.devices, f.Banned r.devicePublicKey → r.status ≠ .authorized →
    ∀ x ∈ (i.exec f).2.devices, x.deviceId = r.deviceId → x.status ≠ .authorized

/-- The step approves the pending record `r`: with its digest or fingerprint,
    and before it times out. -/
def Approves (i : Invocation) (r : DeviceRecord) : Prop :=
  (i.call = .approve r.deviceId r.channelBindingDigest.1 ∨
    i.call = .approveConfirmed r.deviceId (fingerprint r.channelBindingDigest)) ∧
  ∃ t ∈ i.readings.head?.join, t < r.createdAt + maxTtlSeconds

instance (i : Invocation) (r : DeviceRecord) : Decidable (Approves i r) := by
  unfold Approves; infer_instance

/-- The step severs the record `r` if it is not revoked yet: neither the lock, the load nor
    the save fails, and the clock reads no time before its creation. -/
def Severs (i : Invocation) (r : DeviceRecord) : Prop :=
  i.call = .revoke r.deviceId ∧ (∀ failed ∈ i.faults.take 3, failed = false) ∧
    ∃ t ∈ i.readings.head?.join, r.createdAt ≤ t ∧ ValidInt t

instance (i : Invocation) (r : DeviceRecord) : Decidable (Severs i r) := by
  unfold Severs; infer_instance

/-- The step severs no record while another record with its key is
    authorized.  Keys count as one when their digests are. -/
def RevokesAlone (f : AuthState) (i : Invocation) : Prop :=
  ∀ r ∈ f.devices, Severs i r → r.status ≠ .revoked →
    ∀ x ∈ f.devices, x ≠ r → x.status = .authorized →
      sha256 x.devicePublicKey.1 ≠ sha256 r.devicePublicKey.1

/-- The step approves no record whose key was revoked. -/
def ApprovesUnrevoked (f : AuthState) (i : Invocation) : Prop :=
  ∀ r ∈ f.devices, r.status = .pending → Approves i r →
    sha256 r.devicePublicKey.1 ∉ f.evidence ∧ ∀ x ∈ f.devices, x.status = .revoked →
      sha256 x.devicePublicKey.1 ≠ sha256 r.devicePublicKey.1

def SparesTwins (f : AuthState) (i : Invocation) : Prop := RevokesAlone f i ∧ ApprovesUnrevoked f i

instance (f : AuthState) (i : Invocation) : Decidable (RevokesAlone f i) :=
  -- The instances of the implications are named: which of two is found depends on the imports.
  @List.decidableBAll _ _ (fun _ =>
    @instDecidableForall _ _ inferInstance (@instDecidableForall _ _ inferInstance
      (@List.decidableBAll _ _ (fun _ =>
        @instDecidableForall _ _ inferInstance (@instDecidableForall _ _ inferInstance
          inferInstance)) _))) _

instance (f : AuthState) (i : Invocation) : Decidable (ApprovesUnrevoked f i) := by
  unfold ApprovesUnrevoked; infer_instance

instance (f : AuthState) (i : Invocation) : Decidable (SparesTwins f i) := by
  unfold SparesTwins; infer_instance

/-! What a `revoke` that returned has met. -/

section Severs

variable {w w' : World AuthState} {s : AuthState} {t : ℤ}

theorem of_loadStateUnlocked (h : Returns loadStateUnlocked s w w') :
    w.faults.head?.all (· = false) ∧ s = w.file ∧ w' = { w with faults := w.faults.tail } := by
  obtain ⟨_, w₁, haccess, h⟩ := h.split
  obtain ⟨hfault, rfl⟩ := haccess.of_access
  obtain ⟨x, w₂, hload, h⟩ := h.split
  obtain ⟨rfl, rfl⟩ := hload.of_load
  split at h
  · cases h
    exact ⟨hfault, rfl, rfl⟩
  · exact absurd h not_returns_throw

theorem of_saveStateUnlocked (h : Returns (saveStateUnlocked s) () w w') :
    w.faults.head?.all (· = false) ∧ ValidAuthState s := by
  unfold saveStateUnlocked at h
  split at h
  · rename_i hvalid
    obtain ⟨_, w₁, haccess, -⟩ := h.split
    exact ⟨haccess.of_access.1, hvalid.1⟩
  · exact absurd h not_returns_throw

theorem of_now (h : Returns now t w w') :
    w.readings.head? = some (some t) ∧ ValidInt t ∧ w' = { w with readings := w.readings.tail } := by
  obtain ⟨x, w₁, hclock, h⟩ := h.split
  obtain ⟨hreading, rfl⟩ := hclock.of_clock
  split at h
  · exact absurd h not_returns_throw
  · rename_i hrange
    cases h
    exact ⟨hreading, by unfold ValidInt; omega, rfl⟩

theorem mem_replaceDevice {f : AuthState} {r u : DeviceRecord} (hr : r ∈ f.devices) :
    u ∈ (replaceDevice f r u).devices :=
  List.mem_set (List.idxOf_lt_length_of_mem hr) _

/-- **A `revoke` that returns for a record that is not revoked severs it.** -/
theorem severs_of_revoke {f : AuthState} {i : Invocation} {r : DeviceRecord} {reply : Reply}
    (hf : f.NodupIds) (hr : r ∈ f.devices) (hn : r.status ≠ .revoked) (hc : i.call = .revoke r.deviceId)
    (hok : (i.exec f).1 = .ok reply) : Severs i r := by
  refine ⟨hc, ?_⟩
  unfold Invocation.exec at hok
  rw [hc] at hok
  obtain ⟨w, h⟩ := returns_of_exec hok
  obtain ⟨s, h⟩ := Returns.of_map h
  unfold revoke at h
  split at h
  · exact absurd h not_returns_throw
  · obtain ⟨_, w₁, hlock, h⟩ := h.split
    obtain ⟨hfault₁, rfl⟩ := hlock.of_access
    obtain ⟨g, w₂, hload, h⟩ := h.split
    obtain ⟨hfault₂, rfl, rfl⟩ := of_loadStateUnlocked hload
    dsimp only at h hfault₁ hfault₂
    rw [findDevice_eq hf hr] at h
    dsimp only at h
    rw [if_neg hn] at h
    obtain ⟨t, w₃, hnow, h⟩ := h.split
    obtain ⟨hreading, ht, rfl⟩ := of_now hnow
    obtain ⟨_, w₄, hsave, -⟩ := h.split
    obtain ⟨hfault₃, hvalid⟩ := of_saveStateUnlocked hsave
    dsimp only at hreading hfault₃
    refine ⟨?_, t, by rw [hreading]; rfl, ?_, ht⟩
    · obtain ⟨call, readings, draws, faults⟩ := i
      dsimp only at hfault₁ hfault₂ hfault₃ ⊢
      rcases faults with _ | ⟨a, _ | ⟨b, _ | ⟨c, rest⟩⟩⟩ <;> simp_all
    · exact (hvalid.devices _ (mem_replaceDevice (u := revokedAt t r) hr)).order

end Severs

section Twins

variable {f : AuthState} {i : Invocation}

theorem Clean.bansHold (h : Clean keyDigest f.registry) : BansHold f := by
  intro r hr hb ha
  refine h r.entry (AuthState.mem_entries.2 ⟨r, hr, rfl⟩) ?_ (banned_iff.1 hb).suspect
  simp [DeviceRecord.entry, ha, DeviceStatus.lifecycle]

/-- The edit a step makes is careful, if the step spares twins. -/
theorem SparesTwins.careful (h : SparesTwins f i) (hf : ValidAuthState f)
    (hc : Clean keyDigest f.registry) {s₁ s' : Reg Str Raw Raw Raw} {ed : Edit Str Raw Raw}
    (hm : AuthMaintained f.registry s₁) (hcause : Cause i.call i.readings (i.exec f).1 ed)
    (hs : AuthStep s₁ ed s') :
    Careful keyDigest s₁ ed := by
  refine hm.careful ?_
  cases ed with
  | authorize e =>
    obtain ⟨he, hp⟩ := hs.authorize_pending
    obtain ⟨r, hr, rfl⟩ := AuthState.mem_entries.1 (hm.pending he hp)
    obtain ⟨h1, h2⟩ := h.2 r hr (DeviceStatus.lifecycle_inj (b := .pending) hp)
      ⟨hcause.1, by obtain ⟨-, -, t, ht, hlt⟩ := hcause; exact ⟨t, by rw [ht]; rfl, hlt⟩⟩
    rintro (h3 | ⟨e, he, hrev, hk⟩)
    · exact h1 h3
    · obtain ⟨x, hx, rfl⟩ := AuthState.mem_entries.1 he
      exact h2 x hx (DeviceStatus.lifecycle_inj (b := .revoked) hrev) hk
  | revoke d =>
    rintro e he rfl y hy hyd hya hk
    obtain ⟨r, hr, rfl⟩ := AuthState.mem_entries.1 he
    obtain ⟨x, hx, rfl⟩ := AuthState.mem_entries.1 hy
    by_cases hrev : r.status = .revoked
    · refine hc x.entry hy hya (Or.inr ⟨r.entry, he, ?_, hk.symm⟩)
      simp [DeviceRecord.entry, hrev, DeviceStatus.lifecycle]
    · obtain ⟨hcall, summary, hreply⟩ := hcause
      have hsevers := severs_of_revoke hf.nodup hr hrev hcall hreply
      refine h.1 r hr hsevers hrev x hx (by rintro rfl; exact hyd rfl) ?_ hk
      exact DeviceStatus.lifecycle_inj (b := .authorized) hya
  | _ => trivial

theorem SparesTwins.clean (h : SparesTwins f i) (hf : ValidAuthState f)
    (hc : Clean keyDigest f.registry) : Clean keyDigest (i.exec f).2.registry := by
  obtain ⟨-, s₁, hm, hs⟩ := i.explained hf
  rcases hs with rfl | ⟨ed, hcause, hs⟩
  · exact hc.maintained hm
  · exact (hc.maintained hm).step hs (h.careful hf hc hm hcause hs)

/-- Only `consume_offer` makes records, and no call changes their keys. -/
theorem Invocation.origin (hf : ValidAuthState f) (hi : ∀ a k b, i.call ≠ .consumeOffer a k b)
    {x : DeviceRecord} (hx : x ∈ (i.exec f).2.devices) :
    ∃ r ∈ f.devices, r.deviceId = x.deviceId ∧ r.devicePublicKey = x.devicePublicKey := by
  obtain ⟨-, s₁, hm, hs⟩ := i.explained hf
  have he : x.entry ∈ (i.exec f).2.registry.entries := AuthState.mem_entries.2 ⟨x, hx, rfl⟩
  have hs₁ : ∃ e ∈ s₁.entries, e.id = x.deviceId ∧ e.key = x.devicePublicKey := by
    rcases hs with rfl | ⟨ed, hcause, hs⟩
    · exact ⟨_, he, rfl, rfl⟩
    · rcases hs.origin he with h | rfl
      · exact h
      · obtain ⟨a, b, s, hc, -⟩ := hcause
        exact absurd hc (hi _ _ _)
  obtain ⟨e, he, hid, hk⟩ := hs₁
  obtain ⟨y, hy, hyid, hyk⟩ := hm.origin he
  obtain ⟨r, hr, rfl⟩ := AuthState.mem_entries.1 hy
  exact ⟨r, hr, hyid.trans hid, hyk.trans hk⟩

/-- An approval into a state where bans hold authorizes no banned record. -/
theorem keepsBans_of_bansHold (hf : ValidAuthState f) (h : BansHold (i.exec f).2) :
    KeepsBans f i := by
  intro hc r hr hb _ x hx hid ha
  obtain ⟨y, hy, hyid, hyk⟩ := i.origin hf (fun a k b h => by rw [h] at hc; cases hc) hx
  obtain rfl := hf.nodup.inj hy hr (hyid.trans hid)
  exact h x hx (hyk ▸ i.banned hf hb) ha

theorem EachStep.bansHold {is : List Invocation} (hf : ValidAuthState f)
    (hc : Clean keyDigest f.registry) (h : EachStep SparesTwins f is) :
    EachStep (fun f i => BansHold f ∧ KeepsBans f i) f is ∧ BansHold (runRepository f is) := by
  induction is generalizing f with
  | nil => exact ⟨trivial, Clean.bansHold hc⟩
  | cons j is ih =>
    have hc' := h.1.clean hf hc
    obtain ⟨h1, h2⟩ := ih (j.explained hf).1 hc' h.2
    exact ⟨⟨⟨Clean.bansHold hc, keepsBans_of_bansHold hf (Clean.bansHold hc')⟩, h1⟩, h2⟩

end Twins

end MercuryRelay
