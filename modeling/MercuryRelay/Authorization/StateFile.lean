/-
  The stores that share the state file.

  `HostIdentityStore` (identity.py), `RoutingIssuerStore` (routing_auth.py) and
  `AuthorizationRepository` each read the whole file, change their part of it
  and write it back, one transaction at a time.  The Ed25519 public key of an
  issuer's private key is a parameter.

  * `FileWrite.changes_record`, `FileWrite.changes_offer`: a write takes from
    the file only what it is defined to change;
  * `state_file_kept`: what any sequence of transactions of the three stores
    keeps.
-/
import MercuryRelay.Authorization.Writes

set_option autoImplicit false

namespace MercuryRelay

open Python Transaction
open Transition (Run)

/-! ## What a write changes -/

/-- A write that makes a slot for a record. -/
def Write.Slots : Write → Prop
  | .offer .. | .pair .. => True
  | _ => False

/-- The expiry sweep of a write: its reading and its age limit. -/
def Write.sweeps : Write → Option (ℤ × ℤ)
  | .sweep t maxAge => some (t, maxAge)
  | .offer _ t | .pair _ _ t => some (t, maxTtlSeconds)
  | _ => none

/-- What a write from `f` to `f'` is defined to do to a record: replace it, deny
    it at a timeout, or prune it from a full list, keeping the digest of a
    revoked key. -/
inductive ChangesRecord (f f' : AuthState) (r : DeviceRecord) : Write → Prop
  | updated (u : DeviceRecord) : ChangesRecord f f' r (.update r u)
  | timedOut {w : Write} {t maxAge : ℤ} : w.sweeps = some (t, maxAge) →
    timedOut t maxAge r → ChangesRecord f f' r w
  | pruned {w : Write} : w.Slots → maxDeviceRecords ≤ f.devices.length → isHistory r →
    (r.status = .revoked → sha256 r.devicePublicKey.1 ∈ f'.evidence) → ChangesRecord f f' r w

/-- What a write is defined to do to an offer: supersede, consume or expire it. -/
def Write.ChangesOffer : Write → Prop
  | .offer .. | .pair .. | .expireOffer => True
  | _ => False

section Changes

variable {f f' s : AuthState} {w : Write} {r : DeviceRecord}

theorem mem_addEvidence {d : Raw} {ev : List Raw} : d ∈ addEvidence d ev := by
  unfold addEvidence
  split
  · assumption
  · simp

theorem subset_addEvidence (d : Raw) (ev : List Raw) : ev ⊆ addEvidence d ev := by
  unfold addEvidence
  split
  · exact List.Subset.refl ev
  · exact List.subset_append_left ev [d]

/-- The loop loses history only, and keeps the digests of the keys it loses. -/
theorem makeDeviceSlotLoop_loses {cs : List DeviceRecord} (hcs : ∀ x ∈ cs, isHistory x) :
    let s' := makeDeviceSlotLoop cs s.evidence s
    s'.routingIssuer = s.routingIssuer ∧ s.evidence ⊆ s'.evidence ∧
      ∀ r ∈ s.devices, r ∉ s'.devices →
        isHistory r ∧ (r.status = .revoked → sha256 r.devicePublicKey.1 ∈ s'.evidence) := by
  induction cs generalizing s with
  | nil => exact ⟨rfl, List.Subset.refl _, fun r hr hn => absurd hr hn⟩
  | cons x cs ih =>
    have hx : isHistory x := hcs x List.mem_cons_self
    have hrest : ∀ y ∈ cs, isHistory y := fun y hy => hcs y (List.mem_cons_of_mem x hy)
    -- one record leaves, and the loop stops or goes on
    have hdrop : ∀ s₁ : AuthState, s₁.devices = s.devices → s₁.routingIssuer = s.routingIssuer →
        s.evidence ⊆ s₁.evidence →
        (x.status = .revoked → sha256 x.devicePublicKey.1 ∈ s₁.evidence) →
        let s' := if (removeDevice s₁ x).devices.length < maxDeviceRecords then removeDevice s₁ x
          else makeDeviceSlotLoop cs s₁.evidence (removeDevice s₁ x)
        s'.routingIssuer = s.routingIssuer ∧ s.evidence ⊆ s'.evidence ∧
          ∀ r ∈ s.devices, r ∉ s'.devices →
            isHistory r ∧ (r.status = .revoked → sha256 r.devicePublicKey.1 ∈ s'.evidence) := by
      intro s₁ hd hi hsub hdig
      have hgone : ∀ r ∈ s.devices, r ∉ (removeDevice s₁ x).devices → r = x := by
        intro r hr hn
        by_contra hne
        refine hn ?_
        show r ∈ s₁.devices.erase x
        rw [hd]
        exact (List.mem_erase_of_ne hne).2 hr
      dsimp only
      split
      · refine ⟨hi, hsub, fun r hr hn => ?_⟩
        obtain rfl := hgone r hr hn
        exact ⟨hx, hdig⟩
      · obtain ⟨h1, h2, h3⟩ := ih (s := removeDevice s₁ x) hrest
        refine ⟨h1.trans hi, fun d hd => h2 (hsub hd), fun r hr hn => ?_⟩
        by_cases hmem : r ∈ (removeDevice s₁ x).devices
        · exact h3 r hmem hn
        · obtain rfl := hgone r hr hmem
          exact ⟨hx, fun hrev => h2 (hdig hrev)⟩
    rw [makeDeviceSlotLoop]
    by_cases hrev : x.status = .revoked
    · rw [if_pos hrev]
      dsimp only
      split
      · exact ih hrest
      · exact hdrop (withEvidence s (addEvidence (sha256 x.devicePublicKey.1) s.evidence)) rfl rfl
          (subset_addEvidence _ _) fun _ => mem_addEvidence
    · rw [if_neg hrev]
      exact hdrop s rfl rfl (List.Subset.refl _) fun h => absurd h hrev

/-- What making a slot keeps, and what it may lose. -/
theorem makeDeviceSlot_loses (s : AuthState) :
    (makeDeviceSlot s).routingIssuer = s.routingIssuer ∧ s.evidence ⊆ (makeDeviceSlot s).evidence ∧
      ∀ r ∈ s.devices, r ∉ (makeDeviceSlot s).devices →
        maxDeviceRecords ≤ s.devices.length ∧ isHistory r ∧
          (r.status = .revoked → sha256 r.devicePublicKey.1 ∈ (makeDeviceSlot s).evidence) := by
  unfold makeDeviceSlot
  split
  · exact ⟨rfl, List.Subset.refl _, fun r hr hn => absurd hr hn⟩
  · rename_i hfull
    have hcs : ∀ x ∈ (s.devices.filter isHistory).insertionSort (slotLe · ·), isHistory x := by
      intro x hx
      rw [List.mem_insertionSort] at hx
      exact (List.mem_filter.1 hx).2
    obtain ⟨h1, h2, h3⟩ := makeDeviceSlotLoop_loses (s := s) hcs
    exact ⟨h1, h2, fun r hr hn => ⟨not_lt.1 hfull, h3 r hr hn⟩⟩

/-- A record that has not timed out stays in the swept list. -/
theorem mem_swept {t maxAge : ℤ} (hr : r ∈ f.devices) (ht : ¬ timedOut t maxAge r) :
    r ∈ (expirePendingInState f t maxAge).1.devices := by
  refine List.mem_map.2 ⟨r, hr, ?_⟩
  rw [if_neg ht]

/-- A sweep with a slot made after it takes what one of the two may take. -/
theorem slot_changes {t : ℤ} {s : AuthState} (hw : w.Slots) (hsw : w.sweeps = some (t, maxTtlSeconds))
    (hd : s.devices = (expirePendingInState f t).1.devices)
    (hev : (makeDeviceSlot s).evidence ⊆ f'.evidence) (hr : r ∈ f.devices)
    (hgone : r ∉ (makeDeviceSlot s).devices) : ChangesRecord f f' r w := by
  by_cases ht : timedOut t maxTtlSeconds r
  · exact .timedOut hsw ht
  · have hmem : r ∈ s.devices := by
      rw [hd]
      exact mem_swept hr ht
    obtain ⟨hfull, hhist, hdig⟩ := (makeDeviceSlot_loses s).2.2 r hmem hgone
    refine .pruned hw ?_ hhist fun hrev => hev (hdig hrev)
    rw [hd] at hfull
    simpa [expirePendingInState] using hfull

/-- Setting an element loses only the one that was there. -/
theorem mem_or_eq_of_set {α : Type} [DecidableEq α] {l : List α} {a b x : α} (hx : x ∈ l) :
    x ∈ l.set (l.idxOf a) b ∨ x = a := by
  obtain ⟨j, hj, rfl⟩ := List.mem_iff_getElem.1 hx
  by_cases hij : l.idxOf a = j
  · subst hij
    exact Or.inr (List.getElem_idxOf hj)
  · refine Or.inl (List.mem_iff_getElem.2 ⟨j, by rwa [List.length_set], ?_⟩)
    rw [List.getElem_set_ne hij]

/-- **A record leaves the file only by a write that is defined to change it.** -/
theorem FileWrite.changes_record (h : FileWrite f w f') (hr : r ∈ f.devices)
    (hgone : r ∉ f'.devices) : ChangesRecord f f' r w := by
  cases h with
  | identity | expireOffer => exact absurd hr hgone
  | sweep t maxAge =>
    by_cases ht : MercuryRelay.timedOut t maxAge r
    · exact .timedOut rfl ht
    · exact absurd (mem_swept hr ht) hgone
  | offer o t =>
    exact slot_changes (s := supersedeOffer (expirePendingInState f t).1) trivial rfl rfl
      (List.Subset.refl _) hr hgone
  | pair i k d t =>
    refine slot_changes (t := t) (s := (expirePendingInState f t).1) trivial rfl rfl
      (List.Subset.refl _) hr fun hmem => hgone ?_
    exact List.mem_append_left _ hmem
  | @update x u hx hu =>
    rcases mem_or_eq_of_set (a := x) (b := u) hr with hmem | rfl
    · exact absurd hmem hgone
    · exact .updated u

/-- **An offer leaves the file only by a write that is defined to change it.** -/
theorem FileWrite.changes_offer (h : FileWrite f w f') {o : PairingOfferRecord}
    (ho : f.pairingOffer = some o) (hgone : f'.pairingOffer ≠ some o) : w.ChangesOffer := by
  cases h with
  | identity | sweep | update => exact absurd ho hgone
  | offer | pair | expireOffer => trivial

theorem FileWrite.identity_kept (h : FileWrite f w f') {i : HostIdentity}
    (hi : f.hostIdentity = some i) : f'.hostIdentity = some i := by
  cases h with
  | identity j hnone =>
    rw [hnone] at hi
    cases hi
  | offer o t => exact (offerSlot_identity t).trans hi
  | pair i k d t => exact (pairSlot_identity t).trans hi
  | sweep | expireOffer | update => exact hi

theorem FileWrite.issuer_kept (h : FileWrite f w f') : f'.routingIssuer = f.routingIssuer := by
  cases h with
  | offer o t => exact (makeDeviceSlot_loses (supersedeOffer (expirePendingInState f t).1)).1
  | pair i k d t => exact (makeDeviceSlot_loses (expirePendingInState f t).1).1
  | identity | sweep | expireOffer | update => rfl

theorem FileWrite.evidence_kept (h : FileWrite f w f') : f.evidence ⊆ f'.evidence := by
  cases h with
  | offer o t => exact (makeDeviceSlot_loses (supersedeOffer (expirePendingInState f t).1)).2.1
  | pair i k d t => exact (makeDeviceSlot_loses (expirePendingInState f t).1).2.1
  | identity | sweep | expireOffer | update => exact List.Subset.refl _

end Changes

/-! ## The three stores -/

/-- `HostIdentityStore.load_or_create`. -/
def loadOrCreateIdentity : Repo HostIdentity := do
  transactionLock
  loadOrCreateUnlocked

/-- `RoutingIssuerStore.load_or_create`; `derive` is the Ed25519 public key of a
    private key.  The lock turns a `RoutingTokenError` into its own error. -/
def loadOrCreateIssuer (derive : Raw → Raw) : Repo IssuerRecord := do
  transactionLock
  access (.identity "transaction unavailable")
  let state ← load
  match state.routingIssuer with
  | some issuer =>
    if derive issuer.privateKey ≠ issuer.publicKey then
      throw (.identity "transaction unavailable")
    else pure issuer
  | none =>
    let privateKey ← draw rawBytes (.identity "random generation failed")
    let issuer : IssuerRecord := ⟨privateKey, derive privateKey⟩
    access (.identity "transaction unavailable")
    store { state with routingIssuer := some issuer }
    pure issuer

/-- A transaction of one of the stores. -/
inductive StoreCall where
  | hostIdentity
  | routingIssuer
  | authorization (c : Call)

/-- A transaction with what the clock, the random source and the storage answer. -/
structure StoreInvocation where
  call : StoreCall
  readings : List (Option ℤ) := []
  draws : List (Option Bytes) := []
  faults : List Bool := []

/-- The file a transaction leaves, however it ends. -/
def StoreInvocation.exec (derive : Raw → Raw) (i : StoreInvocation) (file : AuthState) : AuthState :=
  match i.call with
  | .hostIdentity => (Transaction.exec loadOrCreateIdentity ⟨file, i.readings, i.draws, i.faults⟩).2
  | .routingIssuer =>
    (Transaction.exec (loadOrCreateIssuer derive) ⟨file, i.readings, i.draws, i.faults⟩).2
  | .authorization c => (Transaction.exec c.run ⟨file, i.readings, i.draws, i.faults⟩).2

/-- The file after a sequence of transactions. -/
def runStores (derive : Raw → Raw) : AuthState → List StoreInvocation → AuthState
  | file, [] => file
  | file, i :: is => runStores derive (i.exec derive file) is

/-- Within an operation of the repository, started on the file `f`, a write that
    the operation is defined to make leads from `g` to `g'`. -/
def StoreInvocation.Writes (i : StoreInvocation) (f : AuthState) (w : Write) (g g' : AuthState) :
    Prop :=
  ∃ c ws, i.call = .authorization c ∧
    Run (fun f w g => c.Makes i.readings f w ∧ Saved f w g) f ws g ∧ c.Makes i.readings g w ∧
    Saved g w g'

section Stores

variable {f : AuthState} {derive : Raw → Raw} {rs : List (Option ℤ)}

/-- The identity store leaves the file, or adds an identity to one without. -/
theorem loadOrCreateIdentity_spec (f : AuthState) :
    wp loadOrCreateIdentity (fun _ f' => f' = f)
      (fun i f' _ => f' = f ∨ f.hostIdentity = none ∧ f' = { f with hostIdentity := some i }) f
      rs := by
  refine wp_bind (wp_transactionLock (fun _ => rfl) ?_)
  exact wp_loadOrCreate (fun _ => rfl) (fun _ _ => Or.inl rfl) fun _ h => Or.inr ⟨h, rfl⟩

/-- The issuer store leaves the file, or adds an issuer to one without. -/
theorem loadOrCreateIssuer_spec (derive : Raw → Raw) (f : AuthState) :
    wp (loadOrCreateIssuer derive) (fun _ f' => f' = f)
      (fun i f' _ => f' = f ∨ f.routingIssuer = none ∧ f' = { f with routingIssuer := some i }) f
      rs := by
  refine wp_bind (wp_transactionLock (fun _ => rfl) (wp_bind (wp_access rfl (wp_bind (wp_load ?_)))))
  split
  · split
    · exact wp_throw rfl
    · exact wp_pure (Or.inl rfl)
  · rename_i hnone
    refine wp_bind (wp_draw rfl fun privateKey => wp_bind (wp_access rfl ?_))
    exact wp_bind (wp_store (wp_pure (Or.inr ⟨hnone, rfl⟩)))

/-- **What one transaction does to the file**: the identity store may add an
    identity, the issuer store an issuer, and the repository makes its writes. -/
theorem StoreInvocation.exec_spec (i : StoreInvocation) (f : AuthState) :
    i.exec derive f = f ∨
    (∃ j, f.hostIdentity = none ∧ i.exec derive f = { f with hostIdentity := some j }) ∨
    (∃ j, f.routingIssuer = none ∧ i.exec derive f = { f with routingIssuer := some j }) ∨
    ∃ c, i.call = .authorization c ∧ Made c i.readings f (i.exec derive f) := by
  unfold StoreInvocation.exec
  cases hc : i.call with
  | hostIdentity =>
    have h := exec_of_wp (w := ⟨f, i.readings, i.draws, i.faults⟩) (loadOrCreateIdentity_spec f)
    dsimp only
    rcases hx : Transaction.exec loadOrCreateIdentity ⟨f, i.readings, i.draws, i.faults⟩ with ⟨e | j, f'⟩
    · rw [hx] at h
      exact Or.inl h
    · rw [hx] at h
      rcases h with h | h
      · exact Or.inl h
      · exact Or.inr (Or.inl ⟨j, h⟩)
  | routingIssuer =>
    have h := exec_of_wp (w := ⟨f, i.readings, i.draws, i.faults⟩) (loadOrCreateIssuer_spec derive f)
    dsimp only
    rcases hx : Transaction.exec (loadOrCreateIssuer derive) ⟨f, i.readings, i.draws, i.faults⟩ with
      ⟨e | j, f'⟩
    · rw [hx] at h
      exact Or.inl h
    · rw [hx] at h
      rcases h with h | h
      · exact Or.inl h
      · exact Or.inr (Or.inr (Or.inl ⟨j, h⟩))
  | authorization c =>
    have h := exec_of_wp (w := ⟨f, i.readings, i.draws, i.faults⟩) (@Call.run_makes f i.readings c)
    refine Or.inr (Or.inr (Or.inr ⟨c, rfl, ?_⟩))
    dsimp only
    rcases hx : Transaction.exec c.run ⟨f, i.readings, i.draws, i.faults⟩ with ⟨e | a, f'⟩
    · rw [hx] at h
      exact h
    · rw [hx] at h
      exact h

/-- What every write and both other stores keep, a transaction keeps. -/
theorem StoreInvocation.keeps {P : AuthState → Prop}
    (hwrite : ∀ g w g', FileWrite g w g' → P g → P g')
    (hid : ∀ g j, g.hostIdentity = none → P g → P { g with hostIdentity := some j })
    (hissuer : ∀ g j, g.routingIssuer = none → P g → P { g with routingIssuer := some j })
    (i : StoreInvocation) (hf : P f) : P (i.exec derive f) := by
  rcases i.exec_spec f with h | ⟨j, hnone, h⟩ | ⟨j, hnone, h⟩ | ⟨c, -, ws, hr⟩
  · rwa [h]
  · rw [h]
    exact hid f j hnone hf
  · rw [h]
    exact hissuer f j hnone hf
  · exact hr.invariant (fun g w g' hg hs => hwrite g w g' hs.2.1 hg) hf

/-- A property that the other stores keep is lost at a write of the repository. -/
theorem StoreInvocation.loses {P : AuthState → Prop}
    (hid : ∀ g j, P g → P { g with hostIdentity := some j })
    (hissuer : ∀ g j, P g → P { g with routingIssuer := some j })
    (i : StoreInvocation) (hf : P f) (hlost : ¬ P (i.exec derive f)) :
    ∃ w g g', i.Writes f w g g' ∧ P g ∧ ¬ P g' := by
  rcases i.exec_spec f with h | ⟨j, -, h⟩ | ⟨j, -, h⟩ | ⟨c, hc, ws, hr⟩
  · rw [h] at hlost
    exact absurd hf hlost
  · rw [h] at hlost
    exact absurd (hid f j hf) hlost
  · rw [h] at hlost
    exact absurd (hissuer f j hf) hlost
  · obtain ⟨as, w, bs, g, g', -, hrun, hg, hstep, hg', -⟩ := hr.lost hf hlost
    exact ⟨w, g, g', ⟨c, as, hc, hrun, hstep⟩, hg, hg'⟩

/-- What every transaction keeps, a sequence of them keeps. -/
theorem runStores_keeps {P : AuthState → Prop}
    (h : ∀ f (i : StoreInvocation), P f → P (i.exec derive f)) (is : List StoreInvocation)
    (hf : P f) : P (runStores derive f is) := by
  induction is generalizing f with
  | nil => exact hf
  | cons i is ih => exact ih (h f i hf)

/-- A property lost in a sequence of transactions is lost at one of them. -/
theorem runStores_loses {P : AuthState → Prop} (is : List StoreInvocation) (hf : P f)
    (hlost : ¬ P (runStores derive f is)) :
    ∃ js i ks, is = js ++ i :: ks ∧ P (runStores derive f js) ∧
      ¬ P (i.exec derive (runStores derive f js)) := by
  induction is generalizing f with
  | nil => exact absurd hf hlost
  | cons i is ih =>
    by_cases h : P (i.exec derive f)
    · obtain ⟨js, k, ks, rfl, h1, h2⟩ := ih h hlost
      exact ⟨i :: js, k, ks, rfl, h1, h2⟩
    · exact ⟨[], i, is, rfl, hf, h⟩

end Stores

/-- **The state file is never clobbered.**  After any sequence of transactions
    of the three stores, with any storage faults, the host identity and the
    routing issuer of the file are what they were, the evidence is still there,
    and a device record or an offer that is not was changed by a write that an
    operation in the sequence is defined to make. -/
theorem state_file_kept (derive : Raw → Raw) (f : AuthState) (is : List StoreInvocation) :
    (∀ j, f.hostIdentity = some j → (runStores derive f is).hostIdentity = some j) ∧
    (∀ j, f.routingIssuer = some j → (runStores derive f is).routingIssuer = some j) ∧
    (∀ d ∈ f.evidence, d ∈ (runStores derive f is).evidence) ∧
    (∀ r ∈ f.devices, r ∉ (runStores derive f is).devices →
      ∃ js i ks w g g', is = js ++ i :: ks ∧ i.Writes (runStores derive f js) w g g' ∧
        r ∈ g.devices ∧ ChangesRecord g g' r w) ∧
    (∀ o, f.pairingOffer = some o → (runStores derive f is).pairingOffer ≠ some o →
      ∃ js i ks w g g', is = js ++ i :: ks ∧ i.Writes (runStores derive f js) w g g' ∧
        g.pairingOffer = some o ∧ w.ChangesOffer) := by
  refine ⟨fun j hj => ?_, fun j hj => ?_, fun d hd => ?_, fun r hr hgone => ?_, fun o ho hgone => ?_⟩
  · refine runStores_keeps (P := fun g => g.hostIdentity = some j) (fun g i hg => ?_) is hj
    refine i.keeps (fun _ _ _ h => h.identity_kept) (fun g k hnone hg => ?_) (fun _ _ _ h => h) hg
    rw [hnone] at hg
    cases hg
  · refine runStores_keeps (P := fun g => g.routingIssuer = some j) (fun g i hg => ?_) is hj
    refine i.keeps (fun _ _ _ h hg => h.issuer_kept.trans hg) (fun _ _ _ h => h)
      (fun g k hnone hg => ?_) hg
    rw [hnone] at hg
    cases hg
  · refine runStores_keeps (P := fun g => d ∈ g.evidence) (fun g i hg => ?_) is hd
    exact i.keeps (fun _ _ _ h hg => h.evidence_kept hg) (fun _ _ _ h => h) (fun _ _ _ h => h) hg
  · obtain ⟨js, i, ks, his, hmem, hlost⟩ :=
      runStores_loses (P := fun g => r ∈ g.devices) is hr hgone
    obtain ⟨w, g, g', hw, hg, hg'⟩ :=
      i.loses (P := fun g => r ∈ g.devices) (fun _ _ h => h) (fun _ _ h => h) hmem hlost
    obtain ⟨-, -, -, -, -, hs⟩ := id hw
    exact ⟨js, i, ks, w, g, g', his, hw, hg, hs.1.changes_record hg hg'⟩
  · obtain ⟨js, i, ks, his, hmem, hlost⟩ :=
      runStores_loses (P := fun g => g.pairingOffer = some o) is ho hgone
    obtain ⟨w, g, g', hw, hg, hg'⟩ :=
      i.loses (P := fun g => g.pairingOffer = some o) (fun _ _ h => h) (fun _ _ h => h) hmem hlost
    obtain ⟨-, -, -, -, -, hs⟩ := id hw
    exact ⟨js, i, ks, w, g, g', his, hw, hg, hs.1.changes_offer hg hg'⟩

end MercuryRelay
