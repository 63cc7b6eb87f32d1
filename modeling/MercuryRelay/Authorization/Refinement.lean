/-
  The repository refines the abstract registry.

  Every call maintains the registry (sweeps and prunes) and then pairs,
  authorizes or revokes at most once; `Cause` says which call, with which
  arguments, reply and clock reading, that one edit comes from.

  * `Invocation.explained`: what an invocation does to a valid file;
  * `runRepository_valid`: every file of a run is valid.
-/
import MercuryRelay.Authorization.Registry

set_option autoImplicit false

namespace MercuryRelay

open Python Transaction Registry
open Transition (Run)

/-- Where an edit that pairs, authorizes or revokes comes from: the call, its
    clock readings and its reply. -/
def Cause (c : Call) (rs : List (Option ℤ)) (reply : Except AuthError Reply) :
    Edit Str Raw Raw → Prop
  | .pair e => ∃ capability binding s, c = .consumeOffer capability e.key.1 binding ∧
      reply = .ok (.device s) ∧ s.deviceId = e.id ∧ s.createdAt = e.born ∧
      e.tag = sha256 binding ∧ e.status = .pending
  | .authorize e => (c = .approve e.id e.tag.1 ∨ c = .approveConfirmed e.id (fingerprint e.tag)) ∧
      (∃ s, reply = .ok (.device s) ∧ s.deviceId = e.id ∧ s.status = .authorized) ∧
      ∃ t, rs.head? = some (some t) ∧ t < e.born + maxTtlSeconds
  | .revoke i => c = .revoke i ∧ ∃ s, reply = .ok (.optionalDevice (some s))
  | _ => False

/-- `consume_offer` causes pairings only. -/
theorem Cause.pair {rs : List (Option ℤ)} {reply : Except AuthError Reply} {a k b : Bytes}
    {ed : Edit Str Raw Raw} (h : Cause (.consumeOffer a k b) rs reply ed) :
    ∃ e s, ed = .pair e ∧ e.key.1 = k ∧ reply = .ok (.device s) ∧ s.deviceId = e.id ∧
      s.createdAt = e.born ∧ e.tag = sha256 b ∧ e.status = .pending := by
  cases ed with
  | pair e =>
    obtain ⟨_, _, s, hc, h⟩ := h
    obtain ⟨rfl, rfl, rfl⟩ := Call.consumeOffer.inj hc
    exact ⟨e, s, rfl, rfl, h⟩
  | authorize e => rcases h.1 with h | h <;> cases h
  | revoke d => cases h.1
  | _ => exact h.elim

/-- The file stays valid, and its registry is maintained. -/
def Kept (f f' : AuthState) : Prop := ValidAuthState f' ∧ AuthMaintained f.registry f'.registry

/-- Maintenance, then at most one edit with a cause. -/
def Explained (c : Call) (rs : List (Option ℤ)) (f f' : AuthState)
    (reply : Except AuthError Reply) : Prop :=
  ValidAuthState f' ∧ ∃ s₁, AuthMaintained f.registry s₁ ∧
    (s₁ = f'.registry ∨ ∃ ed, Cause c rs reply ed ∧ AuthStep s₁ ed f'.registry)

/-- Maintenance, then one edit with a cause. -/
def Edited (c : Call) (rs : List (Option ℤ)) (f f' : AuthState)
    (reply : Except AuthError Reply) : Prop :=
  ValidAuthState f' ∧ ∃ s₁ ed, AuthMaintained f.registry s₁ ∧ Cause c rs reply ed ∧
    AuthStep s₁ ed f'.registry

section Kept

variable {f f' f'' : AuthState} {c : Call} {rs : List (Option ℤ)} {reply : Except AuthError Reply}

theorem Kept.refl (h : ValidAuthState f) : Kept f f := ⟨h, .refl⟩

theorem Kept.trans (h : Kept f f') (h' : Kept f' f'') : Kept f f'' := ⟨h'.1, h.2.trans h'.2⟩

theorem Kept.of_registry (h : ValidAuthState f') (hr : f'.registry = f.registry) : Kept f f' :=
  ⟨h, hr ▸ .refl⟩

theorem Edited.explained (h : Edited c rs f f' reply) : Explained c rs f f' reply := by
  obtain ⟨hv, s₁, ed, hm, hc, hs⟩ := h
  exact ⟨hv, s₁, hm, Or.inr ⟨ed, hc, hs⟩⟩

theorem Kept.explained (h : Kept f f') : Explained c rs f f' reply := ⟨h.1, _, h.2, Or.inl rfl⟩

end Kept

/-! ## Access to the file -/

section Access

variable {f : AuthState} {rs : List (Option ℤ)} {E : AuthError → AuthState → Prop}

theorem wp_transactionLock {Q : Unit → AuthState → List (Option ℤ) → Prop} (hE : ∀ e, E e f)
    (hQ : Q () f rs) : wp transactionLock E Q f rs :=
  wp_access (hE _) hQ

theorem wp_loadStateUnlocked {Q : AuthState → AuthState → List (Option ℤ) → Prop}
    (hE : ∀ e, E e f) (hQ : ValidAuthState f → Q f f rs) : wp loadStateUnlocked E Q f rs := by
  refine wp_bind (wp_access (hE _) (wp_bind (wp_load ?_)))
  by_cases h : ValidAuthState f
  · rw [if_pos h]; exact wp_pure (hQ h)
  · rw [if_neg h]; exact wp_throw (hE _)

/-- What is saved is valid and encodes. -/
theorem wp_saveEncodable {s : AuthState} {Q : Unit → AuthState → List (Option ℤ) → Prop}
    (hE : E (.authorization "authorization state unavailable") f)
    (hQ : ValidAuthState s → s.Encodable → Q () s rs) :
    wp (saveStateUnlocked s) E Q f rs := by
  unfold saveStateUnlocked
  by_cases h : ValidAuthState s ∧ s.Encodable
  · rw [if_pos h]; exact wp_bind (wp_access hE (wp_store (hQ h.1 h.2)))
  · rw [if_neg h]; exact wp_throw hE

theorem wp_saveStateUnlocked {s : AuthState} {Q : Unit → AuthState → List (Option ℤ) → Prop}
    (hE : ∀ e, E e f) (hQ : ValidAuthState s → Q () s rs) : wp (saveStateUnlocked s) E Q f rs :=
  wp_saveEncodable (hE _) fun hv _ => hQ hv

theorem wp_now {Q : ℤ → AuthState → List (Option ℤ) → Prop} (hE : ∀ e, E e f)
    (hQ : ∀ t rs', rs = some t :: rs' → Q t f rs') : wp now E Q f rs := by
  refine wp_bind (wp_clock (hE _) fun t rs' h => ?_)
  split
  · exact wp_throw (hE _)
  · exact wp_pure (hQ t rs' h)

theorem wp_newIdentifierFrom {size tries : ℕ} {existing : List Str}
    {Q : Str → AuthState → List (Option ℤ) → Prop}
    (hE : E (.authorization "random generation failed") f)
    (hQ : ∀ i ∉ existing, Q i f rs) : wp (newIdentifierFrom size existing tries) E Q f rs := by
  induction tries with
  | zero => exact wp_throw hE
  | succ tries ih =>
    refine wp_bind (wp_draw hE fun b => ?_)
    split
    · exact ih
    · rename_i h; exact wp_pure (hQ _ h)

theorem wp_newIdentifier {size : ℕ} {existing : List Str}
    {Q : Str → AuthState → List (Option ℤ) → Prop} (hE : ∀ e, E e f)
    (hQ : ∀ i ∉ existing, Q i f rs) : wp (newIdentifier size existing) E Q f rs :=
  wp_newIdentifierFrom (hE _) hQ

/-- The identity is the file's, or a new one is stored. -/
theorem wp_loadOrCreate {Q : HostIdentity → AuthState → List (Option ℤ) → Prop}
    (hE : ∀ e, E e f) (hold : ∀ identity, f.hostIdentity = some identity → Q identity f rs)
    (hnew : ∀ identity, f.hostIdentity = none →
      Q identity { f with hostIdentity := some identity } rs) :
    wp loadOrCreateUnlocked E Q f rs := by
  refine wp_bind (wp_access (hE _) (wp_bind (wp_load ?_)))
  split
  · rename_i identity h
    exact wp_pure (hold identity h)
  · rename_i h
    refine wp_bind (wp_draw (hE _) fun publicKey => wp_bind (wp_draw (hE _) fun installation => ?_))
    exact wp_bind (wp_access (hE _) (wp_bind (wp_store (wp_pure (hnew _ h)))))

/-- Afterwards the file has the identity. -/
theorem wp_loadOrCreateUnlocked {Q : HostIdentity → AuthState → List (Option ℤ) → Prop}
    (hE : ∀ e, E e f)
    (hQ : ∀ identity, Q identity { f with hostIdentity := some identity } rs) :
    wp loadOrCreateUnlocked E Q f rs := by
  refine wp_loadOrCreate hE (fun identity h => ?_) fun identity _ => hQ identity
  have hf : f = { f with hostIdentity := some identity } := by rw [← h]
  rw [hf]
  exact hQ identity

theorem validAuthState_withIdentity (h : ValidAuthState f) (i : HostIdentity) :
    ValidAuthState { f with hostIdentity := some i } :=
  ⟨h.version, h.evidence_iff, h.evidence_le, h.evidence_nodup, h.devices_le, h.ids_nodup,
    h.devices, h.active_le, h.offer⟩

/-- What the sweep of `approve` and `list_devices` does. -/
theorem wp_sweepPending {Q : AuthState → AuthState → List (Option ℤ) → Prop} (hE : ∀ e, E e f)
    (hf : ValidAuthState f)
    (hQ : ∀ t rs', rs = some t :: rs' → ValidAuthState (expirePendingInState f t).1 →
      Q (expirePendingInState f t).1 (expirePendingInState f t).1 rs') :
    wp (sweepPending f) E Q f rs := by
  refine wp_bind (wp_now hE fun t rs' h => ?_)
  dsimp only
  split
  · refine wp_bind (wp_saveStateUnlocked hE fun hv => ?_)
    exact wp_pure (hQ t rs' h hv)
  · rename_i hn
    have hs := expirePendingInState_nil (not_not.1 hn)
    have h1 := hQ t rs' h (by rw [hs]; exact hf)
    rw [hs] at h1 ⊢
    exact wp_pure h1

end Access

/-! ## Operations -/

section Operations

variable {f : AuthState} {rs : List (Option ℤ)} {c : Call}

theorem ValidAuthState.nodup {s : AuthState} (h : ValidAuthState s) : s.NodupIds := h.ids_nodup

/-- The sweep only maintains the registry. -/
theorem expirePendingInState_maintained (s : AuthState) (t maxAge : ℤ) :
    AuthMaintained s.registry (expirePendingInState s t maxAge).1.registry :=
  .single (expirePendingInState_registry s t maxAge) trivial

theorem expirePendingInState_nodup {s : AuthState} (hn : s.NodupIds) (t maxAge : ℤ) :
    (expirePendingInState s t maxAge).1.NodupIds := by
  unfold AuthState.NodupIds; rw [expirePendingInState_ids]; exact hn

/-- Sweeping and pruning only maintain the registry, whatever the offer becomes
    between them. -/
theorem slot_maintained {s s' : AuthState} (hn : s.NodupIds) (t : ℤ)
    (hd : s'.devices = (expirePendingInState s t).1.devices) (he : s'.evidence = s.evidence) :
    AuthMaintained s.registry (makeDeviceSlot s').registry := by
  have hs' : s'.registry = (expirePendingInState s t).1.registry := by
    rw [AuthState.registry, hd, he]; rfl
  have hn' : s'.NodupIds := by
    unfold AuthState.NodupIds; rw [hd]; exact expirePendingInState_nodup hn t _
  have h := expirePendingInState_maintained s t maxTtlSeconds
  rw [← hs'] at h
  exact h.trans (makeDeviceSlot_spec hn').1

theorem exactInput_some {v : Bytes} {r : Raw} (h : exactInput v = some r) : r.1 = v := by
  unfold exactInput at h
  split at h
  · cases h; rfl
  · cases h

theorem createOffer_spec (hf : ValidAuthState f) (ttl : ℤ) :
    wp (createOffer ttl) (fun _ f' => Kept f f') (fun _ f' _ => Kept f f') f rs := by
  have hE : ∀ e : AuthError, Kept f f := fun _ => .refl hf
  unfold createOffer
  split
  · exact wp_throw (.refl hf)
  · refine wp_bind (wp_transactionLock hE (wp_bind (wp_loadStateUnlocked hE fun _ => ?_)))
    refine wp_bind (wp_loadOrCreateUnlocked hE fun identity => ?_)
    have hf₁ := validAuthState_withIdentity hf identity
    have hE₁ : ∀ e : AuthError, Kept f { f with hostIdentity := some identity } :=
      fun _ => .of_registry hf₁ rfl
    refine wp_bind (wp_loadStateUnlocked hE₁ fun _ => wp_bind (wp_now hE₁ fun t _ _ => ?_))
    let g : AuthState := { f with hostIdentity := some identity }
    have hm : AuthMaintained g.registry
        (makeDeviceSlot (supersedeOffer (expirePendingInState g t).1)).registry :=
      slot_maintained hf₁.nodup t rfl rfl
    dsimp only
    split
    · exact wp_throw (hE₁ (.authorization ""))
    · refine wp_bind (wp_newIdentifier hE₁ fun offerId _ => ?_)
      refine wp_bind (wp_draw (hE₁ (.authorization "")) fun capability => ?_)
      exact wp_bind (wp_saveStateUnlocked hE₁ fun hv => wp_pure ⟨hv, hm⟩)

theorem revokedKey_iff {s : AuthState} {k : Raw} :
    revokedKey s k = true ↔ Registry.Banned keyDigest s.registry k := by
  simp only [revokedKey, Bool.or_eq_true, List.any_eq_true, decide_eq_true_eq, Bool.and_eq_true,
    Registry.Banned, AuthState.registry, keyDigest, List.mem_map]
  refine or_congr ⟨?_, fun h => ⟨_, h, rfl⟩⟩ ⟨?_, ?_⟩
  · rintro ⟨d, hd, rfl⟩; exact hd
  · rintro ⟨r, hr, hs, rfl⟩
    exact ⟨r.entry, ⟨r, hr, rfl⟩, by simp [DeviceRecord.entry, hs, DeviceStatus.lifecycle], rfl⟩
  · rintro ⟨e, ⟨r, hr, rfl⟩, hs, rfl⟩
    exact ⟨r, hr, DeviceStatus.lifecycle_inj (b := .revoked) hs, rfl⟩

/-- A record paired under a new identifier and a key that is not banned. -/
theorem withPaired_registry {s : AuthState} {k d : Raw} {i : Str} {t : ℤ}
    (hi : i ∉ s.devices.map (·.deviceId)) (hk : ¬ revokedKey s k) (offer : PairingOfferRecord) :
    AuthStep s.registry (.pair (pairedRecord i k d t).entry)
      (withPaired s offer (pairedRecord i k d t) t).registry := by
  have h : (withPaired s offer (pairedRecord i k d t) t).registry =
      { s.registry with entries := s.registry.entries ++ [(pairedRecord i k d t).entry] } := by
    simp only [AuthState.registry, withPaired, List.map_append, List.map_cons, List.map_nil]; rfl
  rw [h]
  refine .pair _ rfl (fun x hx hid => hi ?_) fun hb => hk (revokedKey_iff.2 hb)
  obtain ⟨r, hr, rfl⟩ := AuthState.mem_entries.1 hx
  have hri : r.deviceId = i := hid
  exact hri ▸ List.mem_map_of_mem hr

/-- **`consume_offer` pairs a key that is not banned**, or raises. -/
theorem consumeOffer_spec (hf : ValidAuthState f) (capability key binding : Bytes) :
    wp (consumeOffer capability key binding) (fun _ f' => Kept f f')
      (fun s f' _ => Edited (.consumeOffer capability key binding) rs f f' (.ok (.device s)))
      f rs := by
  have hE : ∀ e : AuthError, Kept f f := fun _ => .refl hf
  unfold consumeOffer
  split
  · rename_i cap publicKey bind hcap hkey hbind
    refine wp_bind (wp_transactionLock hE (wp_bind (wp_loadStateUnlocked hE fun _ => ?_)))
    refine wp_bind (wp_loadOrCreateUnlocked hE fun identity => ?_)
    have hf₁ := validAuthState_withIdentity hf identity
    have hE₁ : ∀ e : AuthError, Kept f { f with hostIdentity := some identity } :=
      fun _ => .of_registry hf₁ rfl
    refine wp_bind (wp_loadStateUnlocked hE₁ fun _ => ?_)
    split
    · exact wp_throw (hE₁ .pairingRejected)
    · rename_i offer hoffer
      refine wp_bind (wp_now hE₁ fun t _ _ => ?_)
      let g : AuthState := { f with hostIdentity := some identity }
      have hm : AuthMaintained g.registry (makeDeviceSlot (expirePendingInState g t).1).registry :=
        slot_maintained hf₁.nodup t rfl rfl
      split
      · unfold pairDevice
        split
        · exact wp_throw (hE₁ .pairingRejected)
        · rename_i hn
          simp only [not_or] at hn
          refine wp_bind (wp_newIdentifier hE₁ fun i hi => ?_)
          refine wp_bind (wp_saveStateUnlocked hE₁ fun hv => wp_pure ⟨hv, ?_⟩)
          refine ⟨_, _, hm, ?_, withPaired_registry hi hn.2.1 _⟩
          rw [← exactInput_some hkey, ← exactInput_some hbind]
          exact ⟨capability, bind.1, _, rfl, rfl, rfl, rfl, rfl, rfl⟩
      · unfold rejectOffer
        split
        · refine wp_bind (wp_saveStateUnlocked hE₁ fun hv => wp_throw ?_)
          exact .of_registry hv rfl
        · exact wp_throw (hE₁ .pairingRejected)
  · exact wp_throw (.refl hf)

theorem sweep_kept {t : ℤ} (hv : ValidAuthState (expirePendingInState f t).1) :
    Kept f (expirePendingInState f t).1 := ⟨hv, expirePendingInState_maintained f t _⟩

/-- The last step of an approval, made after the sweep at `t`. -/
theorem authorizeRecord_spec {d : Str} {t : ℤ} {record : DeviceRecord}
    (hv : ValidAuthState (expirePendingInState f t).1)
    (hfd : findDevice (expirePendingInState f t).1 d = some record) (hp : record.status = .pending)
    (hc : c = .approve d record.channelBindingDigest.1 ∨
      c = .approveConfirmed d (fingerprint record.channelBindingDigest))
    {rs' : List (Option ℤ)} (ht : rs = some t :: rs') :
    wp (authorizeRecord (expirePendingInState f t).1 record) (fun _ f' => Kept f f')
      (fun s f' _ => Explained c rs f f' (.ok (.device s))) (expirePendingInState f t).1 rs' := by
  obtain ⟨hmem, rfl⟩ := findDevice_some hfd
  have hE : ∀ e : AuthError, Kept f (expirePendingInState f t).1 := fun _ => sweep_kept hv
  refine wp_bind (wp_now hE fun t₂ _ _ => ?_)
  refine wp_bind (wp_saveStateUnlocked hE fun hv' => wp_pure ⟨hv', ?_⟩)
  refine ⟨_, (sweep_kept hv).2, Or.inr ⟨.authorize record.entry, ⟨hc, ?_, ?_⟩, ?_⟩⟩
  · exact ⟨_, rfl, rfl, rfl⟩
  · exact ⟨t, by rw [ht]; rfl, (pending_expirePendingInState hmem hp).2⟩
  · exact authorized_registry hv.nodup hmem hp rfl

theorem approve_spec (hf : ValidAuthState f) (d : Str) (digest : Bytes) :
    wp (approve d digest) (fun _ f' => Kept f f')
      (fun s f' _ => Explained (.approve d digest) rs f f' (.ok (.device s))) f rs := by
  have hE : ∀ e : AuthError, Kept f f := fun _ => .refl hf
  unfold approve
  split
  · rename_i supplied hd hsup
    refine wp_bind (wp_transactionLock hE (wp_bind (wp_loadStateUnlocked hE fun _ => ?_)))
    refine wp_bind (wp_sweepPending hE hf fun t rs' ht hv => ?_)
    split
    · exact wp_throw (sweep_kept hv)
    · rename_i record hfd
      split
      · exact wp_throw (sweep_kept hv)
      · rename_i hn
        simp only [not_or, not_not] at hn
        split
        · exact wp_pure (sweep_kept hv).explained
        · rename_i ha
          have hp : record.status = .pending := by
            have := hn.2
            simpa [DeviceRecord.isActive, ha] using this
          refine authorizeRecord_spec hv hfd hp (Or.inl ?_) ht
          rw [← hn.1, exactInput_some hsup]
  · exact wp_throw (.refl hf)

theorem approveConfirmed_spec (hf : ValidAuthState f) (d confirmed : Str) :
    wp (approveConfirmed d confirmed) (fun _ f' => Kept f f')
      (fun s f' _ => Explained (.approveConfirmed d confirmed) rs f f' (.ok (.device s))) f rs := by
  have hE : ∀ e : AuthError, Kept f f := fun _ => .refl hf
  unfold approveConfirmed
  split
  · exact wp_throw (.refl hf)
  · refine wp_bind (wp_transactionLock hE (wp_bind (wp_loadStateUnlocked hE fun _ => ?_)))
    refine wp_bind (wp_sweepPending hE hf fun t rs' ht hv => ?_)
    split
    · exact wp_throw (sweep_kept hv)
    · rename_i record hfd
      split
      · exact wp_throw (sweep_kept hv)
      · split
        · exact wp_throw (sweep_kept hv)
        · rename_i hfp
          split
          · exact wp_pure (sweep_kept hv).explained
          · split
            · exact wp_throw (sweep_kept hv)
            · rename_i hp
              refine authorizeRecord_spec hv hfd (not_not.1 hp) (Or.inr ?_) ht
              rw [← not_not.1 hfp]

/-- An update of one record that keeps its entry is maintenance. -/
theorem kept_replaceDevice {record u : DeviceRecord} (hf : ValidAuthState f) {d : Str}
    (hfd : findDevice f d = some record) (hu : u.entry = record.entry)
    (hv : ValidAuthState (replaceDevice f record u)) : Kept f (replaceDevice f record u) :=
  .of_registry hv (replaceDevice_same hf.nodup (findDevice_some hfd).1 hu)

theorem setLabel_spec (hf : ValidAuthState f) (d label : Str) :
    wp (setLabel d label) (fun _ f' => Kept f f') (fun _ f' _ => Kept f f') f rs := by
  have hE : ∀ e : AuthError, Kept f f := fun _ => .refl hf
  unfold setLabel
  split
  · exact wp_throw (.refl hf)
  · split
    · exact wp_throw (.refl hf)
    · refine wp_bind (wp_transactionLock hE (wp_bind (wp_loadStateUnlocked hE fun _ => ?_)))
      split
      · exact wp_pure (.refl hf)
      · rename_i record hfd
        exact wp_bind (wp_saveStateUnlocked hE fun hv =>
          wp_pure (kept_replaceDevice hf hfd rfl hv))

theorem noteDeviceName_spec (hf : ValidAuthState f) (d : Str) (key : Bytes) (name : Option Str) :
    wp (noteDeviceName d key name) (fun _ f' => Kept f f') (fun _ f' _ => Kept f f') f rs := by
  have hE : ∀ e : AuthError, Kept f f := fun _ => .refl hf
  unfold noteDeviceName
  split
  · exact wp_pure (.refl hf)
  · split
    · refine wp_bind (wp_transactionLock hE (wp_bind (wp_loadStateUnlocked hE fun _ => ?_)))
      split
      · exact wp_pure (.refl hf)
      · rename_i record hfd
        split
        · exact wp_pure (.refl hf)
        · split
          · exact wp_pure (.refl hf)
          · split
            · exact wp_pure (.refl hf)
            · exact wp_bind (wp_saveStateUnlocked hE fun hv =>
                wp_pure (kept_replaceDevice hf hfd rfl hv))
    · exact wp_pure (.refl hf)

theorem deny_spec (hf : ValidAuthState f) (d : Str) :
    wp (deny d) (fun _ f' => Kept f f') (fun _ f' _ => Kept f f') f rs := by
  have hE : ∀ e : AuthError, Kept f f := fun _ => .refl hf
  unfold deny
  split
  · exact wp_throw (.refl hf)
  · refine wp_bind (wp_transactionLock hE (wp_bind (wp_loadStateUnlocked hE fun _ => ?_)))
    split
    · exact wp_pure (.refl hf)
    · rename_i record hfd
      split
      · exact wp_pure (.refl hf)
      · split
        · exact wp_throw (.refl hf)
        · rename_i hp
          refine wp_bind (wp_now hE fun t _ _ => wp_bind (wp_saveStateUnlocked hE fun hv => ?_))
          exact wp_pure ⟨hv, .single
            (denied_registry hf.nodup (findDevice_some hfd).1 (not_not.1 hp) t) trivial⟩

theorem expirePending_spec (hf : ValidAuthState f) (maxAge : ℤ) :
    wp (expirePending maxAge) (fun _ f' => Kept f f') (fun _ f' _ => Kept f f') f rs := by
  have hE : ∀ e : AuthError, Kept f f := fun _ => .refl hf
  unfold expirePending
  split
  · exact wp_throw (.refl hf)
  · refine wp_bind (wp_transactionLock hE (wp_bind (wp_loadStateUnlocked hE fun _ => ?_)))
    refine wp_bind (wp_now hE fun t _ _ => ?_)
    dsimp only
    split
    · refine wp_bind (wp_saveStateUnlocked hE fun hv => wp_pure ⟨hv, ?_⟩)
      exact expirePendingInState_maintained f t maxAge
    · exact wp_pure (.refl hf)

/-- **`revoke` revokes the record it names.** -/
theorem revoke_spec (hf : ValidAuthState f) (d : Str) :
    wp (revoke d) (fun _ f' => Kept f f')
      (fun s f' _ => Explained (.revoke d) rs f f' (.ok (.optionalDevice s)) ∧
        ¬ Registry.Open f'.registry d ∧ ∀ r ∈ f.devices, r.deviceId = d →
          ∃ x ∈ f'.devices, x.status = .revoked ∧ x.devicePublicKey = r.devicePublicKey) f rs := by
  have hE : ∀ e : AuthError, Kept f f := fun _ => .refl hf
  unfold revoke
  split
  · exact wp_throw (.refl hf)
  · refine wp_bind (wp_transactionLock hE (wp_bind (wp_loadStateUnlocked hE fun _ => ?_)))
    split
    · rename_i hnone
      refine wp_pure ⟨(Kept.refl hf).explained, ?_, fun r hr h => absurd h (findDevice_none hnone hr)⟩
      rintro ⟨e, he, rfl, -⟩
      obtain ⟨r, hr, rfl⟩ := AuthState.mem_entries.1 he
      exact findDevice_none hnone hr rfl
    · rename_i record hfd
      obtain ⟨hmem, hid⟩ := findDevice_some hfd
      have huniq : ∀ r ∈ f.devices, r.deviceId = d → r = record := fun r hr h =>
        hf.nodup.inj hr hmem (h.trans hid.symm)
      split
      · rename_i hrev
        refine wp_pure ⟨(Kept.refl hf).explained, ?_, fun r hr h => ⟨r, hr, ?_, rfl⟩⟩
        · rintro ⟨e, he, heid, ho⟩
          obtain ⟨r, hr, rfl⟩ := AuthState.mem_entries.1 he
          obtain rfl := huniq r hr heid
          simp [DeviceRecord.entry, hrev, DeviceStatus.lifecycle] at ho
        · rw [huniq r hr h]; exact hrev
      · subst hid
        refine wp_bind (wp_now hE fun t _ _ => wp_bind (wp_saveStateUnlocked hE fun hv => ?_))
        have hstep := revoked_registry hf.nodup hmem t
        refine wp_pure ⟨⟨hv, _, .refl, Or.inr ⟨.revoke record.deviceId, ⟨rfl, _, rfl⟩, hstep⟩⟩,
          hstep.not_open_of_revoke, fun r hr h => ?_⟩
        refine ⟨revokedAt t record, ?_, rfl, by rw [huniq r hr h]; rfl⟩
        have hd : (replaceDevice f record (revokedAt t record)).devices =
            f.devices.map fun x => if x = record then revokedAt t record else x :=
          set_idxOf_eq_map _ hf.nodup.nodup hmem
        rw [hd]
        exact List.mem_map.2 ⟨record, hmem, if_pos rfl⟩

theorem isAuthorized_spec (hf : ValidAuthState f) (d : Str) (key : Bytes) :
    wp (isAuthorized d key) (fun _ f' => Kept f f')
      (fun b f' _ => Kept f f' ∧ (b = true →
        ∃ r ∈ f.devices, r.deviceId = d ∧ r.status = .authorized ∧ r.devicePublicKey.1 = key))
      f rs := by
  have hE : ∀ e : AuthError, Kept f f := fun _ => .refl hf
  unfold isAuthorized
  split
  · rename_i supplied _ hsup
    refine wp_bind (wp_transactionLock hE (wp_bind (wp_loadStateUnlocked hE fun _ => ?_)))
    split
    · exact wp_pure ⟨.refl hf, by simp⟩
    · rename_i record hfd
      split
      · exact wp_pure ⟨.refl hf, by simp⟩
      · rename_i hn
        simp only [not_or, not_not] at hn
        refine wp_pure ⟨.refl hf, fun hk => ?_⟩
        obtain ⟨hmem, hid⟩ := findDevice_some hfd
        refine ⟨record, hmem, hid, hn.1, ?_⟩
        rw [of_decide_eq_true hk, exactInput_some hsup]
  · exact wp_pure ⟨.refl hf, by simp⟩

theorem listDevices_spec (hf : ValidAuthState f) :
    wp listDevices (fun _ f' => Kept f f') (fun _ f' _ => Kept f f') f rs := by
  have hE : ∀ e : AuthError, Kept f f := fun _ => .refl hf
  refine wp_bind (wp_transactionLock hE (wp_bind (wp_loadStateUnlocked hE fun _ => ?_)))
  exact wp_bind (wp_sweepPending hE hf fun t _ _ hv => wp_pure (sweep_kept hv))

theorem cancelOffer_spec (hf : ValidAuthState f) (o : Str) :
    wp (cancelOffer o) (fun _ f' => Kept f f') (fun _ f' _ => Kept f f') f rs := by
  have hE : ∀ e : AuthError, Kept f f := fun _ => .refl hf
  unfold cancelOffer
  split
  · exact wp_throw (.refl hf)
  · refine wp_bind (wp_transactionLock hE (wp_bind (wp_loadStateUnlocked hE fun _ => ?_)))
    split
    · exact wp_pure (.refl hf)
    · split
      · exact wp_pure (.refl hf)
      · exact wp_bind (wp_saveStateUnlocked hE fun hv => wp_pure (.of_registry hv rfl))

/-- What a call does to a valid file. -/
theorem Call.run_spec (hf : ValidAuthState f) (c : Call) :
    wp c.run (fun _ f' => Kept f f') (fun a f' _ => Explained c rs f f' (.ok a)) f rs := by
  have hK : ∀ {α : Type} {m : Repo α} {g : α → Reply},
      wp m (fun _ f' => Kept f f') (fun _ f' _ => Kept f f') f rs →
      wp (g <$> m) (fun _ f' => Kept f f') (fun a f' _ => Explained c rs f f' (.ok a)) f rs :=
    fun h => wp_map (wp_mono h (fun _ _ => id) fun _ _ _ hk => hk.explained)
  cases c with
  | createOffer ttl => exact hK (createOffer_spec hf ttl)
  | consumeOffer a k b =>
    exact wp_map (wp_mono (consumeOffer_spec hf a k b) (fun _ _ => id) fun _ _ _ h => h.explained)
  | approve d a => exact wp_map (approve_spec hf d a)
  | approveConfirmed d p => exact wp_map (approveConfirmed_spec hf d p)
  | setLabel d l => exact hK (setLabel_spec hf d l)
  | noteDeviceName d k n => exact hK (noteDeviceName_spec hf d k n)
  | deny d => exact hK (deny_spec hf d)
  | expirePending a => exact hK (expirePending_spec hf a)
  | revoke d => exact wp_map (wp_mono (revoke_spec hf d) (fun _ _ => id) fun _ _ _ h => h.1)
  | isAuthorized d k =>
    exact hK (wp_mono (isAuthorized_spec hf d k) (fun _ _ => id) fun _ _ _ h => h.1)
  | listDevices => exact hK (listDevices_spec hf)
  | cancelOffer o => exact hK (cancelOffer_spec hf o)

end Operations

/-! ## Runs -/

variable {f : AuthState}

/-- What `wp` says of an invocation. -/
theorem Invocation.of_wp (i : Invocation) {E : AuthError → AuthState → Prop}
    {Q : Reply → AuthState → Prop} (h : wp i.call.run E (fun a f' _ => Q a f') f i.readings) :
    Ends E Q (i.exec f) :=
  exec_of_wp (w := ⟨f, i.readings, i.draws, i.faults⟩) h

/-- **An invocation refines the registry.** -/
theorem Invocation.explained (hf : ValidAuthState f) (i : Invocation) :
    Explained i.call i.readings f (i.exec f).2 (i.exec f).1 := by
  have h := i.of_wp (Q := fun a f' => Explained i.call i.readings f f' (.ok a))
    (Call.run_spec hf i.call)
  rcases hx : i.exec f with ⟨e | a, f'⟩
  · rw [hx] at h; exact Kept.explained h
  · rw [hx] at h; exact h

/-- A `consume_offer` that returns paired a device. -/
theorem Invocation.paired (hf : ValidAuthState f) {i : Invocation} {a k b : Bytes} {reply : Reply}
    (hc : i.call = .consumeOffer a k b) (hr : (i.exec f).1 = .ok reply) :
    Edited i.call i.readings f (i.exec f).2 (.ok reply) := by
  refine (i.of_wp (E := fun _ _ => True)
    (Q := fun a f' => Edited i.call i.readings f f' (.ok a)) ?_).ok hr
  rw [hc]
  exact wp_map (wp_mono (consumeOffer_spec hf a k b) (fun _ _ _ => trivial) fun _ _ _ => id)

/-- A device that `revoke` returned for is not open, and its key is kept. -/
theorem Invocation.revoked (hf : ValidAuthState f) {i : Invocation} {d : Str} {reply : Reply}
    (hc : i.call = .revoke d) (hr : (i.exec f).1 = .ok reply) :
    ¬ Registry.Open (i.exec f).2.registry d ∧ ∀ r ∈ f.devices, r.deviceId = d →
      ∃ x ∈ (i.exec f).2.devices, x.status = .revoked ∧ x.devicePublicKey = r.devicePublicKey := by
  refine (i.of_wp (E := fun _ _ => True) (Q := fun _ f' => ¬ Registry.Open f'.registry d ∧
    ∀ r ∈ f.devices, r.deviceId = d → ∃ x ∈ f'.devices, x.status = .revoked ∧
      x.devicePublicKey = r.devicePublicKey) ?_).ok hr
  rw [hc]
  exact wp_map (wp_mono (revoke_spec hf d) (fun _ _ _ => trivial) fun _ _ _ h => h.2)

/-- A device that `is_authorized` confirms is authorized with that key. -/
theorem Invocation.authorized (hf : ValidAuthState f) {i : Invocation} {d : Str} {k : Bytes}
    (hc : i.call = .isAuthorized d k) (hr : (i.exec f).1 = .ok (.flag true)) :
    ∃ r ∈ f.devices, r.deviceId = d ∧ r.status = .authorized ∧ r.devicePublicKey.1 = k := by
  refine (i.of_wp (E := fun _ _ => True) (Q := fun a _ => a = .flag true →
    ∃ r ∈ f.devices, r.deviceId = d ∧ r.status = .authorized ∧ r.devicePublicKey.1 = k) ?_).ok hr rfl
  rw [hc]
  refine wp_map (wp_mono (isAuthorized_spec hf d k) (fun _ _ _ => trivial) ?_)
  exact fun b f' _ h hb => h.2 (by simpa using hb)

/-- **Every file of a run is valid.** -/
theorem runRepository_valid (hf : ValidAuthState f) (is : List Invocation) :
    ValidAuthState (runRepository f is) := by
  induction is generalizing f with
  | nil => exact hf
  | cons i is ih => exact ih (i.explained hf).1

theorem runRepository_append (f : AuthState) (is js : List Invocation) :
    runRepository f (is ++ js) = runRepository (runRepository f is) js := by
  induction is generalizing f with
  | nil => rfl
  | cons i is ih => exact ih _

/-- A run refines the registry. -/
theorem runRepository_refines (hf : ValidAuthState f) (is : List Invocation) :
    ∃ eds, Run AuthStep f.registry eds (runRepository f is).registry := by
  induction is generalizing f with
  | nil => exact ⟨[], .nil⟩
  | cons i is ih =>
    obtain ⟨hv, s₁, ⟨as, ha, -⟩, h⟩ := i.explained hf
    obtain ⟨bs, hb⟩ := ih hv
    rcases h with rfl | ⟨ed, -, hs⟩
    · exact ⟨as ++ bs, ha.append hb⟩
    · exact ⟨as ++ ed :: bs, ha.append (.cons hs hb)⟩

end MercuryRelay
