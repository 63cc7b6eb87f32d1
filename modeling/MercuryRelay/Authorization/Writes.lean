/-
  The writes of the repository.

  A call replaces the file a few times: by a state with a host identity, by a
  swept one, by one with a new, an expired or a consumed offer, or by one with
  an updated record.  `FileWrite` is each of these replacements, `Saved` adds
  that it keeps files valid and encodable, and `Writing` says which ones a call
  makes, given its reply.

  * `Invocation.writes`: what an invocation writes;
  * `runRepository_writes`: every file of a run is reached by writes.
-/
import MercuryRelay.Authorization.Refinement

set_option autoImplicit false

namespace MercuryRelay

open Python Transaction
open Transition (Run)

/-! ## Replacements of the file -/

inductive Write where
  | identity (i : HostIdentity)
  | sweep (t maxAge : ℤ)
  | offer (o : PairingOffer) (t : ℤ)
  | expireOffer
  | pair (o : PairingOfferRecord) (r : DeviceRecord) (t : ℤ)
  | update (r u : DeviceRecord)

/-- What an operation makes of a record. -/
inductive Updated : DeviceRecord → DeviceRecord → Prop
  | authorized {r : DeviceRecord} (t : ℤ) : r.status = .pending → Updated r (authorizedAt t r)
  | denied {r : DeviceRecord} (t : ℤ) : r.status = .pending → Updated r (deniedAt t r)
  | revoked {r : DeviceRecord} (t : ℤ) : r.status ≠ .revoked → Updated r (revokedAt t r)
  | labelled (r : DeviceRecord) (l : Str) : Updated r { r with label := some l }
  | named (r : DeviceRecord) (n : Str) : Updated r { r with deviceName := some n }

/-- The state `create_offer` adds its offer to. -/
def offerSlot (f : AuthState) (t : ℤ) : AuthState :=
  makeDeviceSlot (supersedeOffer (expirePendingInState f t).1)

/-- The state `consume_offer` adds its record to. -/
def pairSlot (f : AuthState) (t : ℤ) : AuthState := makeDeviceSlot (expirePendingInState f t).1

inductive FileWrite : AuthState → Write → AuthState → Prop
  | identity {f : AuthState} (i : HostIdentity) : f.hostIdentity = none →
    FileWrite f (.identity i) { f with hostIdentity := some i }
  | sweep (f : AuthState) (t maxAge : ℤ) :
    FileWrite f (.sweep t maxAge) (expirePendingInState f t maxAge).1
  | offer {f : AuthState} (o : PairingOffer) (t : ℤ) :
    f.hostIdentity = some ⟨o.installationId, o.hostPublicKey⟩ →
    (offerSlot f t).devices.length < maxDeviceRecords →
    FileWrite f (.offer o t) { offerSlot f t with
      pairingOffer := some (activeOffer o.offerId o.capability
        ⟨o.installationId, o.hostPublicKey⟩ t o.expiresAt) }
  | expireOffer {f : AuthState} {o : PairingOfferRecord} : f.pairingOffer = some o →
    FileWrite f .expireOffer { f with pairingOffer := some { o with status := .expired } }
  | pair {f : AuthState} {o : PairingOfferRecord} (i : Str) (k d : Raw) (t : ℤ) :
    f.pairingOffer = some o → o.status = .active → t < o.expiresAt →
    FileWrite f (.pair o (pairedRecord i k d t) t)
      (withPaired (pairSlot f t) o (pairedRecord i k d t) t)
  | update {f : AuthState} {r u : DeviceRecord} : r ∈ f.devices → Updated r u →
    FileWrite f (.update r u) (replaceDevice f r u)

/-- A write that keeps the file valid and encodable. -/
def Saved (f : AuthState) (w : Write) (f' : AuthState) : Prop :=
  FileWrite f w f' ∧ (ValidAuthState f → ValidAuthState f') ∧ (f.Encodable → f'.Encodable)

/-- A write that leaves the records as they are and makes no offer active. -/
def Write.Idle : Write → Prop
  | .identity _ | .expireOffer => True
  | _ => False

/-- A write that issues and consumes no offer. -/
def Write.Quiet : Write → Prop
  | .offer .. | .pair .. => False
  | _ => True

theorem Write.Idle.quiet {w : Write} (h : w.Idle) : w.Quiet := by
  cases w with
  | identity | expireOffer => trivial
  | sweep | offer | pair | update => exact h.elim

/-- The calls that issue or consume offers. -/
def Call.Pairs : Call → Prop
  | .createOffer _ | .consumeOffer .. => True
  | _ => False

/-- The calls that begin with a sweep of their own. -/
def Call.Sweeps : Call → Prop
  | .approve .. | .approveConfirmed .. | .listDevices => True
  | _ => False

/-- The writes a call is defined to make in a file, at its clock readings. -/
inductive Call.Makes : Call → List (Option ℤ) → AuthState → Write → Prop
  | identity {c : Call} {rs : List (Option ℤ)} {f : AuthState} (i : HostIdentity) :
    c.Pairs → Makes c rs f (.identity i)
  | offer {ttl t : ℤ} {rs : List (Option ℤ)} {f : AuthState} (o : PairingOffer) :
    Makes (.createOffer ttl) (some t :: rs) f (.offer o t)
  | pair {a k b : Bytes} {c : Raw} {t : ℤ} {rs : List (Option ℤ)} {f : AuthState}
    {o : PairingOfferRecord} (r : DeviceRecord) : c.1 = a →
    f.pairingOffer = some o → sha256 c.1 = o.capabilityDigest → o.status = .active →
    t < o.expiresAt → Makes (.consumeOffer a k b) (some t :: rs) f (.pair o r t)
  | due {a k b : Bytes} {t : ℤ} {rs : List (Option ℤ)} {f : AuthState} {o : PairingOfferRecord} :
    f.pairingOffer = some o → o.status = .active → o.expiresAt ≤ t →
    Makes (.consumeOffer a k b) (some t :: rs) f .expireOffer
  | cancel {rs : List (Option ℤ)} {f : AuthState} {o : PairingOfferRecord} :
    f.pairingOffer = some o → o.status = .active → Makes (.cancelOffer o.offerId) rs f .expireOffer
  | sweep {c : Call} {t : ℤ} {rs : List (Option ℤ)} {f : AuthState} :
    c.Sweeps → Makes c (some t :: rs) f (.sweep t maxTtlSeconds)
  | expire {maxAge t : ℤ} {rs : List (Option ℤ)} {f : AuthState} :
    Makes (.expirePending maxAge) (some t :: rs) f (.sweep t maxAge)
  | approve {rs : List (Option ℤ)} {f : AuthState} {r : DeviceRecord} (digest : Bytes) (t : ℤ) :
    r.status = .pending → Makes (.approve r.deviceId digest) rs f (.update r (authorizedAt t r))
  | confirm {rs : List (Option ℤ)} {f : AuthState} {r : DeviceRecord} (p : Str) (t : ℤ) :
    r.status = .pending → Makes (.approveConfirmed r.deviceId p) rs f (.update r (authorizedAt t r))
  | label {rs : List (Option ℤ)} {f : AuthState} (r : DeviceRecord) (l cleaned : Str) :
    Makes (.setLabel r.deviceId l) rs f (.update r { r with label := some cleaned })
  | name {rs : List (Option ℤ)} {f : AuthState} (r : DeviceRecord) (k : Bytes) (n : Option Str)
    (cleaned : Str) :
    Makes (.noteDeviceName r.deviceId k n) rs f (.update r { r with deviceName := some cleaned })
  | deny {rs : List (Option ℤ)} {f : AuthState} {r : DeviceRecord} (t : ℤ) :
    r.status = .pending → Makes (.deny r.deviceId) rs f (.update r (deniedAt t r))
  | revoke {rs : List (Option ℤ)} {f : AuthState} {r : DeviceRecord} (t : ℤ) :
    r.status ≠ .revoked → Makes (.revoke r.deviceId) rs f (.update r (revokedAt t r))

theorem Call.Makes.quiet {c : Call} {rs : List (Option ℤ)} {f : AuthState} {w : Write}
    (h : c.Makes rs f w) (hc : ¬ c.Pairs) : w.Quiet := by
  cases h with
  | offer | pair => exact absurd trivial hc
  | identity | due | cancel | sweep | expire | approve | confirm | label | name | deny | revoke =>
    trivial

/-- What a call with a reply writes. -/
inductive Writing : Call → List (Option ℤ) → Except AuthError Reply → List Write → Prop
  | created {ttl t : ℤ} {rs : List (Option ℤ)} {o : PairingOffer} {ws : List Write} :
    (∀ w ∈ ws, w.Idle) → o.expiresAt = t + ttl →
    Writing (.createOffer ttl) (some t :: rs) (.ok (.offer o)) (ws ++ [.offer o t])
  | paired {c : Raw} {k b : Bytes} {t : ℤ} {rs : List (Option ℤ)} {ws : List Write}
    {o : PairingOfferRecord} {r : DeviceRecord} :
    (∀ w ∈ ws, w.Idle) → sha256 c.1 = o.capabilityDigest →
    Writing (.consumeOffer c.1 k b) (some t :: rs) (.ok (.device (summary r))) (ws ++ [.pair o r t])
  | failed {c : Call} {rs : List (Option ℤ)} {e : AuthError} {ws : List Write} :
    c.Pairs → (∀ w ∈ ws, w.Idle) → Writing c rs (.error e) ws
  | other {c : Call} {rs : List (Option ℤ)} {reply : Except AuthError Reply} {ws : List Write} :
    ¬ c.Pairs → (∀ o, reply ≠ .ok (.offer o)) → (∀ w ∈ ws, w.Quiet) → Writing c rs reply ws

/-! ## The slot of a new record -/

section Slots

variable {s f : AuthState}

theorem makeDeviceSlotLoop_keeps (cs : List DeviceRecord) (ev : List Raw) :
    (makeDeviceSlotLoop cs ev s).devices.Sublist s.devices ∧
      (makeDeviceSlotLoop cs ev s).pairingOffer = s.pairingOffer ∧
      (makeDeviceSlotLoop cs ev s).hostIdentity = s.hostIdentity := by
  induction cs generalizing ev s with
  | nil => exact ⟨.refl _, rfl, rfl⟩
  | cons r cs ih =>
    have herase : ∀ s' : AuthState, s'.devices = s.devices → s'.pairingOffer = s.pairingOffer →
        s'.hostIdentity = s.hostIdentity → ∀ ev,
        let s'' := if (removeDevice s' r).devices.length < maxDeviceRecords then removeDevice s' r
          else makeDeviceSlotLoop cs ev (removeDevice s' r)
        s''.devices.Sublist s.devices ∧ s''.pairingOffer = s.pairingOffer ∧
          s''.hostIdentity = s.hostIdentity := by
      intro s' hd ho hi ev
      have hsub : (removeDevice s' r).devices.Sublist s.devices := hd ▸ List.erase_sublist
      dsimp only
      split
      · exact ⟨hsub, ho, hi⟩
      · obtain ⟨h1, h2, h3⟩ := ih (s := removeDevice s' r) ev
        exact ⟨h1.trans hsub, h2.trans ho, h3.trans hi⟩
    rw [makeDeviceSlotLoop]
    by_cases hrev : r.status = .revoked
    · rw [if_pos hrev]
      dsimp only
      split
      · exact ih ev
      · exact herase (withEvidence s (addEvidence (sha256 r.devicePublicKey.1) ev)) rfl rfl rfl _
    · rw [if_neg hrev]
      exact herase s rfl rfl rfl ev

/-- Making a slot drops records and leaves offer and identity alone. -/
theorem makeDeviceSlot_keeps (s : AuthState) :
    (makeDeviceSlot s).devices.Sublist s.devices ∧ (makeDeviceSlot s).pairingOffer = s.pairingOffer ∧
      (makeDeviceSlot s).hostIdentity = s.hostIdentity := by
  unfold makeDeviceSlot
  split
  · exact ⟨.refl _, rfl, rfl⟩
  · exact makeDeviceSlotLoop_keeps _ _

/-- Where there is a slot, none is made. -/
theorem makeDeviceSlot_of_lt (h : s.devices.length < maxDeviceRecords) : makeDeviceSlot s = s :=
  if_pos h

/-- A record of a swept state is one of the state, or one denied now. -/
theorem mem_expirePendingInState {r : DeviceRecord} {t maxAge : ℤ}
    (h : r ∈ (expirePendingInState s t maxAge).1.devices) :
    r ∈ s.devices ∨ ∃ x ∈ s.devices, x.status = .pending ∧ x.createdAt + maxAge ≤ t ∧
      r = deniedAt t x := by
  obtain ⟨x, hx, rfl⟩ := List.mem_map.1 h
  split
  · rename_i hout
    simp only [timedOut, Bool.and_eq_true, decide_eq_true_eq] at hout
    exact Or.inr ⟨x, hx, hout.1, by omega, rfl⟩
  · exact Or.inl hx

theorem mem_offerSlot {r : DeviceRecord} {t : ℤ} (h : r ∈ (offerSlot f t).devices) :
    r ∈ (expirePendingInState f t).1.devices :=
  (makeDeviceSlot_keeps (supersedeOffer (expirePendingInState f t).1)).1.subset h

theorem mem_pairSlot {r : DeviceRecord} {t : ℤ} (h : r ∈ (pairSlot f t).devices) :
    r ∈ (expirePendingInState f t).1.devices := (makeDeviceSlot_keeps _).1.subset h

theorem offerSlot_identity (t : ℤ) : (offerSlot f t).hostIdentity = f.hostIdentity :=
  (makeDeviceSlot_keeps _).2.2

theorem pairSlot_identity (t : ℤ) : (pairSlot f t).hostIdentity = f.hostIdentity :=
  (makeDeviceSlot_keeps _).2.2

end Slots

/-! ## What the calls write -/

section Calls

variable {f f' g : AuthState} {rs : List (Option ℤ)} {w : Write} {E : AuthError → AuthState → Prop}

/-- Writes of a kind lead from one file to another. -/
def Wrote (P : Write → Prop) (f g : AuthState) : Prop := ∃ ws, Run Saved f ws g ∧ ∀ w ∈ ws, P w

theorem Wrote.refl {P : Write → Prop} (f : AuthState) : Wrote P f f := ⟨[], .nil, by simp⟩

theorem Wrote.snoc {P : Write → Prop} (h : Wrote P f g) (hs : Saved g w f') (hw : P w) :
    Wrote P f f' := by
  obtain ⟨ws, hr, hi⟩ := h
  refine ⟨ws ++ [w], hr.snoc hs, ?_⟩
  intro x hx
  rcases List.mem_append.1 hx with hx | hx
  · exact hi x hx
  · rw [List.mem_singleton.1 hx]; exact hw

abbrev Idled := Wrote Write.Idle

/-- Writes that a call is defined to make lead from one file to another. -/
def Made (c : Call) (rs : List (Option ℤ)) (f g : AuthState) : Prop :=
  ∃ ws, Run (fun f w g => c.Makes rs f w ∧ Saved f w g) f ws g

theorem Made.refl {c : Call} (f : AuthState) : Made c rs f f := ⟨[], .nil⟩

theorem Made.snoc {c : Call} (h : Made c rs f g) (hs : Saved g w f') (hm : c.Makes rs g w) :
    Made c rs f f' := by
  obtain ⟨ws, hr⟩ := h
  exact ⟨ws ++ [w], hr.snoc ⟨hm, hs⟩⟩

theorem Saved.made {c : Call} (hs : Saved f w f') (hm : c.Makes rs f w) : Made c rs f f' :=
  (Made.refl f).snoc hs hm

/-- A call that issues and consumes no offer makes quiet writes. -/
theorem Made.quiet {c : Call} (hc : ¬ c.Pairs) (h : Made c rs f g) : Wrote Write.Quiet f g := by
  obtain ⟨ws, hr⟩ := h
  refine ⟨ws, hr.weaken, ?_⟩
  induction hr with
  | nil => simp
  | cons hst _ ih =>
    intro x hx
    rcases List.mem_cons.1 hx with rfl | hx
    · exact hst.1.quiet hc
    · exact ih x hx

/-- A write that is checked before it is made. -/
theorem FileWrite.saved (h : FileWrite f w f') (hv : ValidAuthState f') (he : f'.Encodable) :
    Saved f w f' :=
  ⟨h, fun _ => hv, fun _ => he⟩

theorem wp_identity {c : Call} (hc : c.Pairs)
    {Q : HostIdentity → AuthState → List (Option ℤ) → Prop} (hE : ∀ e, E e f)
    (hQ : ∀ identity g, Idled f g → Made c rs f g → g.hostIdentity = some identity →
      Q identity g rs) :
    wp loadOrCreateUnlocked E Q f rs := by
  refine wp_loadOrCreate hE (fun identity h => hQ identity f (.refl f) (.refl f) h) fun identity h => ?_
  have hs : Saved f (.identity identity) { f with hostIdentity := some identity } :=
    ⟨.identity identity h, fun hv => validAuthState_withIdentity hv identity, id⟩
  exact hQ identity _ ((Wrote.refl f).snoc hs trivial) (hs.made (.identity identity hc)) rfl

theorem createOffer_writes (ttl : ℤ) :
    wp (createOffer ttl) (fun _ f' => Idled f f' ∧ Made (.createOffer ttl) rs f f')
      (fun o f' _ => Made (.createOffer ttl) rs f f' ∧ ∃ g t rs', Idled f g ∧
        Saved g (.offer o t) f' ∧ rs = some t :: rs' ∧ o.expiresAt = t + ttl) f rs := by
  have hE : ∀ e : AuthError, Idled f f ∧ Made (.createOffer ttl) rs f f :=
    fun _ => ⟨.refl f, .refl f⟩
  unfold createOffer
  split
  · exact wp_throw ⟨.refl f, .refl f⟩
  · refine wp_bind (wp_transactionLock hE (wp_bind (wp_loadStateUnlocked hE fun _ => ?_)))
    have hc : (Call.createOffer ttl).Pairs := trivial
    refine wp_bind (wp_identity hc hE fun identity g hg hmade hid => ?_)
    have hEg : ∀ e : AuthError, Idled f g ∧ Made (.createOffer ttl) rs f g := fun _ => ⟨hg, hmade⟩
    refine wp_bind (wp_loadStateUnlocked hEg fun _ => wp_bind (wp_now hEg fun t rs' ht => ?_))
    dsimp only
    split
    · exact wp_throw ⟨hg, hmade⟩
    · rename_i hlen
      refine wp_bind (wp_newIdentifier hEg fun offerId _ => ?_)
      refine wp_bind (wp_draw ⟨hg, hmade⟩ fun capability => ?_)
      refine wp_bind (wp_saveEncodable ⟨hg, hmade⟩ fun hv he => wp_pure ?_)
      have hwrite := FileWrite.offer (f := g) ⟨offerId, identity.installationId,
        identity.publicKey, t + ttl, capability⟩ t hid (Nat.lt_of_not_le hlen)
      have hs := hwrite.saved hv he
      exact ⟨hmade.snoc hs (ht ▸ .offer _), g, t, rs', hg, hs, ht, rfl⟩

theorem consumeOffer_writes (capability key binding : Bytes) :
    let call := Call.consumeOffer capability key binding
    wp (consumeOffer capability key binding) (fun _ f' => Idled f f' ∧ Made call rs f f')
      (fun s f' _ => Made call rs f f' ∧
        ∃ (c : Raw) (g : AuthState) (o : PairingOfferRecord) (r : DeviceRecord) (t : ℤ)
        (rs' : List (Option ℤ)), c.1 = capability ∧ Idled f g ∧ Saved g (.pair o r t) f' ∧
        rs = some t :: rs' ∧ sha256 c.1 = o.capabilityDigest ∧ s = summary r) f rs := by
  intro call
  have hE : ∀ e : AuthError, Idled f f ∧ Made call rs f f := fun _ => ⟨.refl f, .refl f⟩
  unfold consumeOffer
  split
  · rename_i cap publicKey bind hcap hkey hbind
    refine wp_bind (wp_transactionLock hE (wp_bind (wp_loadStateUnlocked hE fun _ => ?_)))
    have hc : call.Pairs := trivial
    refine wp_bind (wp_identity hc hE fun identity g hg hmade hid => ?_)
    have hEg : ∀ e : AuthError, Idled f g ∧ Made call rs f g := fun _ => ⟨hg, hmade⟩
    refine wp_bind (wp_loadStateUnlocked hEg fun _ => ?_)
    split
    · exact wp_throw ⟨hg, hmade⟩
    · rename_i offer hoffer
      refine wp_bind (wp_now hEg fun t rs' ht => ?_)
      split
      · rename_i husable
        obtain ⟨hdigest, -, -, hactive, hdue⟩ := husable
        unfold pairDevice
        split
        · exact wp_throw ⟨hg, hmade⟩
        · refine wp_bind (wp_newIdentifier hEg fun i _ => ?_)
          refine wp_bind (wp_saveEncodable ⟨hg, hmade⟩ fun hv he => wp_pure ?_)
          have hwrite := FileWrite.pair (f := g) i publicKey (sha256 bind.1) t hoffer hactive hdue
          have hs := hwrite.saved hv he
          have hcap' := exactInput_some hcap
          have hm : call.Makes rs g (.pair offer (pairedRecord i publicKey (sha256 bind.1) t) t) := by
            rw [ht]
            exact .pair _ hcap' hoffer hdigest hactive hdue
          exact ⟨hmade.snoc hs hm, cap, g, offer, _, t, rs', hcap', hg, hs, ht, hdigest, rfl⟩
      · unfold rejectOffer
        split
        · rename_i hlapsed
          refine wp_bind (wp_saveEncodable ⟨hg, hmade⟩ fun hv he => wp_throw ?_)
          have hs := (FileWrite.expireOffer hoffer).saved hv he
          exact ⟨hg.snoc hs trivial, hmade.snoc hs (ht ▸ .due hoffer hlapsed.1 hlapsed.2)⟩
        · exact wp_throw ⟨hg, hmade⟩
  · exact wp_throw ⟨.refl f, .refl f⟩

/-- What the sweep of `approve` and `list_devices` writes. -/
theorem wp_sweep {c : Call} (hc : c.Sweeps) {Q : AuthState → AuthState → List (Option ℤ) → Prop}
    (hE : ∀ e, E e f) (hQ : ∀ t rs' g, rs = some t :: rs' → Made c rs f g → Q g g rs') :
    wp (sweepPending f) E Q f rs := by
  refine wp_bind (wp_now hE fun t rs' h => ?_)
  dsimp only
  split
  · refine wp_bind (wp_saveEncodable (hE _) fun hv he => wp_pure (hQ t rs' _ h ?_))
    exact ((FileWrite.sweep f t maxTtlSeconds).saved hv he).made (h ▸ .sweep hc)
  · rename_i hn
    rw [expirePendingInState_nil (not_not.1 hn)]
    exact wp_pure (hQ t rs' f h (.refl f))

/-- An update of a record that was found. -/
theorem wp_update {α : Type} {c : Call} {rs' : List (Option ℤ)} {d : Str} {r u : DeviceRecord} {a : α}
    (hg : Made c rs f g) (hfind : findDevice g d = some r) (hu : Updated r u)
    (hm : c.Makes rs g (.update r u)) :
    wp (do saveStateUnlocked (replaceDevice g r u); pure a : Repo α) (fun _ f' => Made c rs f f')
      (fun _ f' _ => Made c rs f f') g rs' := by
  refine wp_bind (wp_saveEncodable hg fun hv he => wp_pure ?_)
  exact hg.snoc ((FileWrite.update (findDevice_some hfind).1 hu).saved hv he) hm

theorem authorizeRecord_writes {c : Call} {rs' : List (Option ℤ)} {d : Str} {r : DeviceRecord}
    (hg : Made c rs f g) (hfind : findDevice g d = some r) (hp : r.status = .pending)
    (hm : ∀ t, c.Makes rs g (.update r (authorizedAt t r))) :
    wp (authorizeRecord g r) (fun _ f' => Made c rs f f') (fun _ f' _ => Made c rs f f') g rs' :=
  wp_bind (wp_now (fun _ => hg) fun t _ _ => wp_update hg hfind (.authorized t hp) (hm t))

theorem approve_writes (d : Str) (digest : Bytes) :
    wp (approve d digest) (fun _ f' => Made (.approve d digest) rs f f')
      (fun _ f' _ => Made (.approve d digest) rs f f') f rs := by
  have hE : ∀ e : AuthError, Made (.approve d digest) rs f f := fun _ => .refl f
  unfold approve
  split
  · refine wp_bind (wp_transactionLock hE (wp_bind (wp_loadStateUnlocked hE fun _ => ?_)))
    have hc : (Call.approve d digest).Sweeps := trivial
    refine wp_bind (wp_sweep hc hE fun t rs' g _ hg => ?_)
    split
    · exact wp_throw hg
    · rename_i record hfind
      split
      · exact wp_throw hg
      · rename_i hn
        simp only [not_or, not_not] at hn
        split
        · exact wp_pure hg
        · rename_i ha
          have hp : record.status = .pending := by
            have := hn.2
            simpa [DeviceRecord.isActive, ha] using this
          have hid := (findDevice_some hfind).2
          exact authorizeRecord_writes hg hfind hp fun t => hid ▸ .approve digest t hp
  · exact wp_throw (.refl f)

theorem approveConfirmed_writes (d confirmed : Str) :
    wp (approveConfirmed d confirmed) (fun _ f' => Made (.approveConfirmed d confirmed) rs f f')
      (fun _ f' _ => Made (.approveConfirmed d confirmed) rs f f') f rs := by
  have hE : ∀ e : AuthError, Made (.approveConfirmed d confirmed) rs f f := fun _ => .refl f
  unfold approveConfirmed
  split
  · exact wp_throw (.refl f)
  · refine wp_bind (wp_transactionLock hE (wp_bind (wp_loadStateUnlocked hE fun _ => ?_)))
    have hc : (Call.approveConfirmed d confirmed).Sweeps := trivial
    refine wp_bind (wp_sweep hc hE fun t rs' g _ hg => ?_)
    split
    · exact wp_throw hg
    · rename_i record hfind
      split
      · exact wp_throw hg
      · split
        · exact wp_throw hg
        · split
          · exact wp_pure hg
          · split
            · exact wp_throw hg
            · rename_i hp
              have hid := (findDevice_some hfind).2
              exact authorizeRecord_writes hg hfind (not_not.1 hp) fun t =>
                hid ▸ .confirm confirmed t (not_not.1 hp)

theorem setLabel_writes (d label : Str) :
    wp (setLabel d label) (fun _ f' => Made (.setLabel d label) rs f f')
      (fun _ f' _ => Made (.setLabel d label) rs f f') f rs := by
  have hE : ∀ e : AuthError, Made (.setLabel d label) rs f f := fun _ => .refl f
  unfold setLabel
  split
  · exact wp_throw (.refl f)
  · split
    · exact wp_throw (.refl f)
    · refine wp_bind (wp_transactionLock hE (wp_bind (wp_loadStateUnlocked hE fun _ => ?_)))
      split
      · exact wp_pure (.refl f)
      · rename_i hfind
        exact wp_update (.refl f) hfind (.labelled _ _)
          ((findDevice_some hfind).2 ▸ .label _ label _)

theorem noteDeviceName_writes (d : Str) (key : Bytes) (name : Option Str) :
    wp (noteDeviceName d key name) (fun _ f' => Made (.noteDeviceName d key name) rs f f')
      (fun _ f' _ => Made (.noteDeviceName d key name) rs f f') f rs := by
  have hE : ∀ e : AuthError, Made (.noteDeviceName d key name) rs f f := fun _ => .refl f
  unfold noteDeviceName
  split
  · exact wp_pure (.refl f)
  · split
    · refine wp_bind (wp_transactionLock hE (wp_bind (wp_loadStateUnlocked hE fun _ => ?_)))
      split
      · exact wp_pure (.refl f)
      · rename_i hfind
        split
        · exact wp_pure (.refl f)
        · split
          · exact wp_pure (.refl f)
          · split
            · exact wp_pure (.refl f)
            · exact wp_update (.refl f) hfind (.named _ _)
                ((findDevice_some hfind).2 ▸ .name _ key name _)
    · exact wp_pure (.refl f)

theorem deny_writes (d : Str) :
    wp (deny d) (fun _ f' => Made (.deny d) rs f f')
      (fun _ f' _ => Made (.deny d) rs f f') f rs := by
  have hE : ∀ e : AuthError, Made (.deny d) rs f f := fun _ => .refl f
  unfold deny
  split
  · exact wp_throw (.refl f)
  · refine wp_bind (wp_transactionLock hE (wp_bind (wp_loadStateUnlocked hE fun _ => ?_)))
    split
    · exact wp_pure (.refl f)
    · rename_i hfind
      split
      · exact wp_pure (.refl f)
      · split
        · exact wp_throw (.refl f)
        · rename_i hp
          refine wp_bind (wp_now hE fun t _ _ => ?_)
          exact wp_update (.refl f) hfind (.denied t (not_not.1 hp))
            ((findDevice_some hfind).2 ▸ .deny t (not_not.1 hp))

theorem expirePending_writes (maxAge : ℤ) :
    wp (expirePending maxAge) (fun _ f' => Made (.expirePending maxAge) rs f f')
      (fun _ f' _ => Made (.expirePending maxAge) rs f f') f rs := by
  have hE : ∀ e : AuthError, Made (.expirePending maxAge) rs f f := fun _ => .refl f
  unfold expirePending
  split
  · exact wp_throw (.refl f)
  · refine wp_bind (wp_transactionLock hE (wp_bind (wp_loadStateUnlocked hE fun _ => ?_)))
    refine wp_bind (wp_now hE fun t _ ht => ?_)
    dsimp only
    split
    · refine wp_bind (wp_saveEncodable (hE (.authorization "")) fun hv he => wp_pure ?_)
      exact ((FileWrite.sweep f t maxAge).saved hv he).made (ht ▸ .expire)
    · exact wp_pure (.refl f)

theorem revoke_writes (d : Str) :
    wp (revoke d) (fun _ f' => Made (.revoke d) rs f f')
      (fun _ f' _ => Made (.revoke d) rs f f') f rs := by
  have hE : ∀ e : AuthError, Made (.revoke d) rs f f := fun _ => .refl f
  unfold revoke
  split
  · exact wp_throw (.refl f)
  · refine wp_bind (wp_transactionLock hE (wp_bind (wp_loadStateUnlocked hE fun _ => ?_)))
    split
    · exact wp_pure (.refl f)
    · rename_i hfind
      split
      · exact wp_pure (.refl f)
      · rename_i hrev
        refine wp_bind (wp_now hE fun t _ _ => ?_)
        exact wp_update (.refl f) hfind (.revoked t hrev)
          ((findDevice_some hfind).2 ▸ .revoke t hrev)

theorem isAuthorized_writes (d : Str) (key : Bytes) :
    wp (isAuthorized d key) (fun _ f' => Made (.isAuthorized d key) rs f f')
      (fun _ f' _ => Made (.isAuthorized d key) rs f f') f rs := by
  have hE : ∀ e : AuthError, Made (.isAuthorized d key) rs f f := fun _ => .refl f
  unfold isAuthorized
  split
  · refine wp_bind (wp_transactionLock hE (wp_bind (wp_loadStateUnlocked hE fun _ => ?_)))
    split
    · exact wp_pure (.refl f)
    · split
      · exact wp_pure (.refl f)
      · exact wp_pure (.refl f)
  · exact wp_pure (.refl f)

theorem listDevices_writes :
    wp listDevices (fun _ f' => Made .listDevices rs f f') (fun _ f' _ => Made .listDevices rs f f') f rs := by
  have hE : ∀ e : AuthError, Made .listDevices rs f f := fun _ => .refl f
  refine wp_bind (wp_transactionLock hE (wp_bind (wp_loadStateUnlocked hE fun _ => ?_)))
  have hc : Call.listDevices.Sweeps := trivial
  exact wp_bind (wp_sweep hc hE fun _ _ _ _ hg => wp_pure hg)

/-- **After `cancel_offer` the offer it names is not active.** -/
theorem cancelOffer_writes (i : Str) :
    wp (cancelOffer i) (fun _ f' => Made (.cancelOffer i) rs f f')
      (fun _ f' _ => Made (.cancelOffer i) rs f f' ∧ ∀ o ∈ f'.pairingOffer, o.offerId = i → o.status ≠ .active) f
      rs := by
  have hE : ∀ e : AuthError, Made (.cancelOffer i) rs f f := fun _ => .refl f
  unfold cancelOffer
  split
  · exact wp_throw (.refl f)
  · refine wp_bind (wp_transactionLock hE (wp_bind (wp_loadStateUnlocked hE fun _ => ?_)))
    split
    · rename_i hnone
      exact wp_pure ⟨.refl f, by simp [hnone]⟩
    · rename_i offer hoffer
      split
      · rename_i hother
        refine wp_pure ⟨.refl f, ?_⟩
        rintro o ho hid
        rw [hoffer] at ho
        cases ho
        exact hother.resolve_left (not_not.2 hid)
      · rename_i hactive
        simp only [not_or, not_not] at hactive
        refine wp_bind (wp_saveEncodable (hE (.authorization "")) fun hv he => wp_pure ⟨?_, ?_⟩)
        · exact ((FileWrite.expireOffer hoffer).saved hv he).made
            (hactive.1 ▸ .cancel hoffer hactive.2)
        · rintro o ho -
          cases ho
          simp

/-- **A call makes the writes it is defined to make, and no others.** -/
theorem Call.run_makes (c : Call) :
    wp c.run (fun _ f' => Made c rs f f') (fun _ f' _ => Made c rs f f') f rs := by
  cases c with
  | createOffer ttl =>
    exact wp_map (wp_mono (createOffer_writes ttl) (fun _ _ h => h.2) fun _ _ _ h => h.1)
  | consumeOffer a k b =>
    exact wp_map (wp_mono (consumeOffer_writes a k b) (fun _ _ h => h.2) fun _ _ _ h => h.1)
  | approve d a => exact wp_map (approve_writes d a)
  | approveConfirmed d p => exact wp_map (approveConfirmed_writes d p)
  | setLabel d l => exact wp_map (setLabel_writes d l)
  | noteDeviceName d k n => exact wp_map (noteDeviceName_writes d k n)
  | deny d => exact wp_map (deny_writes d)
  | expirePending a => exact wp_map (expirePending_writes a)
  | revoke d => exact wp_map (revoke_writes d)
  | isAuthorized d k => exact wp_map (isAuthorized_writes d k)
  | listDevices => exact wp_map listDevices_writes
  | cancelOffer i => exact wp_map (wp_mono (cancelOffer_writes i) (fun _ _ => id) fun _ _ _ h => h.1)

/-- What a call writes. -/
theorem Call.run_writes (c : Call) :
    wp c.run (fun e f' => ∃ ws, Run Saved f ws f' ∧ Writing c rs (.error e) ws)
      (fun a f' _ => ∃ ws, Run Saved f ws f' ∧ Writing c rs (.ok a) ws) f rs := by
  have hQ : ∀ {α : Type} {m : Repo α} {k : α → Reply}, ¬ c.Pairs → (∀ a o, k a ≠ .offer o) →
      wp m (fun _ f' => Made c rs f f') (fun _ f' _ => Made c rs f f') f rs →
      wp (k <$> m) (fun e f' => ∃ ws, Run Saved f ws f' ∧ Writing c rs (.error e) ws)
        (fun a f' _ => ∃ ws, Run Saved f ws f' ∧ Writing c rs (.ok a) ws) f rs := by
    intro α m k hc hk hm
    refine wp_map (wp_mono hm ?_ ?_)
    · intro e f' h
      obtain ⟨ws, hr, hq⟩ := h.quiet hc
      exact ⟨ws, hr, .other hc (by simp) hq⟩
    · intro a f' _ h
      obtain ⟨ws, hr, hq⟩ := h.quiet hc
      exact ⟨ws, hr, .other hc (fun o ho => hk a o (by simpa using ho)) hq⟩
  cases c with
  | createOffer ttl =>
    refine wp_map (wp_mono (createOffer_writes ttl) ?_ ?_)
    · rintro e f' ⟨⟨ws, hr, hi⟩, -⟩
      exact ⟨ws, hr, .failed trivial hi⟩
    · rintro o f' _ ⟨-, g, t, rs', ⟨ws, hr, hi⟩, hs, rfl, hexp⟩
      exact ⟨ws ++ [.offer o t], hr.snoc hs, .created hi hexp⟩
  | consumeOffer a k b =>
    refine wp_map (wp_mono (consumeOffer_writes a k b) ?_ ?_)
    · rintro e f' ⟨⟨ws, hr, hi⟩, -⟩
      exact ⟨ws, hr, .failed trivial hi⟩
    · rintro s f' _ ⟨-, c, g, o, r, t, rs', rfl, ⟨ws, hr, hi⟩, hs, rfl, hdigest, rfl⟩
      exact ⟨ws ++ [.pair o r t], hr.snoc hs, .paired hi hdigest⟩
  | approve d a => exact hQ id (by simp) (approve_writes d a)
  | approveConfirmed d p => exact hQ id (by simp) (approveConfirmed_writes d p)
  | setLabel d l => exact hQ id (by simp) (setLabel_writes d l)
  | noteDeviceName d k n => exact hQ id (by simp) (noteDeviceName_writes d k n)
  | deny d => exact hQ id (by simp) (deny_writes d)
  | expirePending a => exact hQ id (by simp) (expirePending_writes a)
  | revoke d => exact hQ id (by simp) (revoke_writes d)
  | isAuthorized d k => exact hQ id (by simp) (isAuthorized_writes d k)
  | listDevices => exact hQ id (by simp) listDevices_writes
  | cancelOffer i =>
    exact hQ id (by simp) (wp_mono (cancelOffer_writes i) (fun _ _ => id) fun _ _ _ h => h.1)

end Calls

/-! ## Runs -/

/-- **What an invocation writes.** -/
theorem Invocation.writes (f : AuthState) (i : Invocation) :
    ∃ ws, Run Saved f ws (i.exec f).2 ∧ Writing i.call i.readings (i.exec f).1 ws := by
  have h := exec_of_wp (w := ⟨f, i.readings, i.draws, i.faults⟩)
    (@Call.run_writes f i.readings i.call)
  change Ends _ _ (i.exec f) at h
  rcases hx : i.exec f with ⟨e | a, f'⟩
  · rw [hx] at h; exact h
  · rw [hx] at h; exact h

/-- An offer that `cancel_offer` returned for is not active. -/
theorem Invocation.cancelled {f : AuthState} {i : Invocation} {d : Str} {reply : Reply}
    (hc : i.call = .cancelOffer d) (hr : (i.exec f).1 = .ok reply) :
    ∀ o ∈ (i.exec f).2.pairingOffer, o.offerId = d → o.status ≠ .active := by
  refine (i.of_wp (E := fun _ _ => True) (Q := fun _ f' =>
    ∀ o ∈ f'.pairingOffer, o.offerId = d → o.status ≠ .active) ?_).ok hr
  rw [hc]
  exact wp_map (wp_mono (cancelOffer_writes d) (fun _ _ _ => trivial) fun _ _ _ h => h.2)

/-- What every write keeps, a run of the repository keeps. -/
theorem runRepository_writes {I : AuthState → Prop} (hI : ∀ f w f', I f → Saved f w f' → I f')
    {f : AuthState} (hf : I f) (is : List Invocation) : I (runRepository f is) := by
  induction is generalizing f with
  | nil => exact hf
  | cons i is ih =>
    obtain ⟨ws, hr, -⟩ := i.writes f
    exact ih (hr.invariant hI hf)

end MercuryRelay
