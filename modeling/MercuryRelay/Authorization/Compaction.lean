/-
  Making room for a device.

  `_make_device_slot` sorts the denied and the revoked records and removes the
  first one it may.  A denied record may always go; a revoked one only when the
  digest of its key is in the evidence, or fits in it.

  * `makeDeviceSlot_compacts`: which record goes, and what else changes;
  * `device_slot_compaction`: when `create_offer` finds the history full, and
    what it leaves in the file.
-/
import MercuryRelay.Authorization.Availability

set_option autoImplicit false

namespace MercuryRelay

open Python Transaction

/-! ## The order of removal -/

/-- `r` comes no later than `x` by `(updated_at, device_id)`. -/
def DeviceRecord.NoLater (r x : DeviceRecord) : Prop :=
  r.updatedAt < x.updatedAt ∨ r.updatedAt = x.updatedAt ∧ strLe r.deviceId x.deviceId

theorem slotLe_iff {a b : DeviceRecord} : slotLe a b ↔
    a.status = .denied ∧ b.status ≠ .denied ∨
      (a.status = .denied ↔ b.status = .denied) ∧ a.NoLater b := by
  unfold slotLe DeviceRecord.NoLater
  by_cases ha : a.status = .denied
  · by_cases hb : b.status = .denied
    · by_cases hu : a.updatedAt = b.updatedAt <;> simp [ha, hb, hu]
    · simp [ha, hb]
  · have ha' : (a.status != .denied) = true := by simpa using ha
    by_cases hb : b.status = .denied
    · simp [ha, hb]
    · have hb' : (b.status != .denied) = true := by simpa using hb
      by_cases hu : a.updatedAt = b.updatedAt <;> simp [ha, hb, ha', hb', hu]

theorem DeviceRecord.NoLater.total (a b : DeviceRecord) : a.NoLater b ∨ b.NoLater a := by
  unfold DeviceRecord.NoLater
  rcases lt_trichotomy a.updatedAt b.updatedAt with h | h | h
  · exact Or.inl (Or.inl h)
  · rcases strLe_total a.deviceId b.deviceId with hd | hd
    · exact Or.inl (Or.inr ⟨h, hd⟩)
    · exact Or.inr (Or.inr ⟨h.symm, hd⟩)
  · exact Or.inr (Or.inl h)

theorem DeviceRecord.NoLater.trans {a b c : DeviceRecord} (h : a.NoLater b) (h' : b.NoLater c) :
    a.NoLater c := by
  rcases h with h | ⟨h, hd⟩
  · rcases h' with h' | ⟨h', -⟩
    · exact Or.inl (h.trans h')
    · exact Or.inl (h' ▸ h)
  · rcases h' with h' | ⟨h', hd'⟩
    · exact Or.inl (h ▸ h')
    · exact Or.inr ⟨h.trans h', strLe_trans hd hd'⟩

instance : Std.Total (fun a b : DeviceRecord => (slotLe a b : Prop)) where
  total a b := by
    simp only [slotLe_iff]
    have hnl := DeviceRecord.NoLater.total a b
    tauto

instance : IsTrans DeviceRecord (fun a b => (slotLe a b : Prop)) where
  trans a b c hab hbc := by
    rw [slotLe_iff] at hab hbc ⊢
    rcases hab with ⟨ha, hb⟩ | ⟨hst, h⟩
    · rcases hbc with ⟨hb', -⟩ | ⟨hst', -⟩
      · exact absurd hb' hb
      · exact Or.inl ⟨ha, fun hc => hb (hst'.2 hc)⟩
    · rcases hbc with ⟨hb, hc⟩ | ⟨hst', h'⟩
      · exact Or.inl ⟨hst.2 hb, hc⟩
      · exact Or.inr ⟨hst.trans hst', h.trans h'⟩

/-- The records that may be removed, in the order of removal. -/
theorem candidates_sorted (l : List DeviceRecord) :
    ((l.filter isHistory).insertionSort (slotLe · ·)).Pairwise (slotLe · ·) :=
  List.pairwise_insertionSort _ _

/-! ## The loop -/

/-- A record that may be removed: a denied one, or a revoked one whose digest
    is in the evidence or fits in it. -/
def removable (evidence : List Raw) (r : DeviceRecord) : Bool :=
  r.status ≠ .revoked || sha256 r.devicePublicKey.1 ∈ evidence ||
    evidence.length < maxRevokedKeyDigests

/-- The state without a record, its digest kept if it was revoked. -/
def dropRecord (s : AuthState) (r : DeviceRecord) : AuthState :=
  if r.status = .revoked then
    removeDevice (withEvidence s (addEvidence (sha256 r.devicePublicKey.1) s.evidence)) r
  else removeDevice s r

section Slot

variable {s : AuthState} {r x : DeviceRecord}

/-- With one record too many, the loop removes the first it may. -/
theorem makeDeviceSlotLoop_eq (hs : s.devices.length = maxDeviceRecords) {cs : List DeviceRecord}
    (hcs : ∀ x ∈ cs, x ∈ s.devices) :
    makeDeviceSlotLoop cs s.evidence s =
      ((cs.find? (removable s.evidence)).map (dropRecord s)).getD s := by
  induction cs with
  | nil => rfl
  | cons x cs ih =>
    have hx : x ∈ s.devices := hcs x List.mem_cons_self
    have hrest := ih fun y hy => hcs y (List.mem_cons_of_mem _ hy)
    have hlen : ∀ s' : AuthState, s'.devices = s.devices →
        (removeDevice s' x).devices.length < maxDeviceRecords := by
      intro s' hd
      show (s'.devices.erase x).length < maxDeviceRecords
      rw [hd, List.length_erase_of_mem hx, hs]
      decide
    rw [makeDeviceSlotLoop, List.find?_cons]
    by_cases hrev : x.status = .revoked
    · rw [if_pos hrev]
      dsimp only
      by_cases hkeep : sha256 x.devicePublicKey.1 ∉ s.evidence ∧
          maxRevokedKeyDigests ≤ s.evidence.length
      · have hr : removable s.evidence x = false := by
          simp only [removable, hrev, hkeep.1, not_lt.2 hkeep.2, ne_eq, not_true_eq_false,
            decide_false, Bool.or_self]
        rw [if_pos hkeep, hr]
        exact hrest
      · have hr : removable s.evidence x = true := by
          simp only [removable, Bool.or_eq_true, decide_eq_true_eq]
          by_cases hmem : sha256 x.devicePublicKey.1 ∈ s.evidence
          · exact Or.inl (Or.inr hmem)
          · exact Or.inr (not_le.1 fun hfull => hkeep ⟨hmem, hfull⟩)
        rw [if_neg hkeep, hr,
          if_pos (hlen (withEvidence s (addEvidence (sha256 x.devicePublicKey.1) s.evidence)) rfl)]
        simp only [Option.map_some, Option.getD_some, dropRecord, if_pos hrev]
    · have hr : removable s.evidence x = true := by simp [removable, hrev]
      rw [if_neg hrev, hr]
      dsimp only
      rw [if_pos (hlen s rfl)]
      simp only [Option.map_some, Option.getD_some, dropRecord, if_neg hrev]

/-! ## What is removed -/

/-- The first record of a kind by `(updated_at, device_id)`. -/
def Oldest (p : DeviceRecord → Prop) (s : AuthState) (r : DeviceRecord) : Prop :=
  r ∈ s.devices ∧ p r ∧ ∀ x ∈ s.devices, p x → r.NoLater x

/-- A revoked record whose digest is in the evidence, or fits in it. -/
def Archivable (s : AuthState) (r : DeviceRecord) : Prop :=
  r.status = .revoked ∧
    (sha256 r.devicePublicKey.1 ∈ s.evidence ∨ s.evidence.length < maxRevokedKeyDigests)

/-- No record may be removed from the full list. -/
def HistoryFull (s : AuthState) : Prop :=
  s.devices.length = maxDeviceRecords ∧ (∀ r ∈ s.devices, r.status ≠ .denied) ∧
    (∀ r ∈ s.devices, r.status = .revoked → sha256 r.devicePublicKey.1 ∉ s.evidence) ∧
    s.evidence.length = maxRevokedKeyDigests

/-- What making a slot does when the history is not full. -/
inductive Compacted (s : AuthState) : AuthState → Prop
  | room : s.devices.length < maxDeviceRecords → Compacted s s
  | denied {r : DeviceRecord} : s.devices.length = maxDeviceRecords →
    Oldest (·.status = .denied) s r →
    Compacted s { s with devices := s.devices.erase r }
  | revoked {r : DeviceRecord} : s.devices.length = maxDeviceRecords →
    (∀ x ∈ s.devices, x.status ≠ .denied) → Oldest (Archivable s) s r →
    Compacted s { s with
      devices := s.devices.erase r
      revokedKeyDigests := some (addEvidence (sha256 r.devicePublicKey.1) s.evidence)
      schemaVersion := 2 }

theorem isHistory_iff : isHistory r ↔ r.status = .denied ∨ r.status = .revoked := by
  simp [isHistory]

/-- Sixteen records cannot all be active. -/
theorem exists_history (hs : s.devices.length = maxDeviceRecords)
    (hactive : s.devices.countP (·.isActive) ≤ maxActiveDevices) :
    ∃ r ∈ s.devices, r.status = .denied ∨ r.status = .revoked := by
  by_contra hnone
  have hall : ∀ r ∈ s.devices, r.isActive = true := by
    intro r hr
    unfold DeviceRecord.isActive
    cases hst : r.status with
    | pending | authorized => simp
    | denied => exact absurd ⟨r, hr, Or.inl hst⟩ hnone
    | revoked => exact absurd ⟨r, hr, Or.inr hst⟩ hnone
  rw [List.countP_eq_length.2 hall, hs] at hactive
  exact absurd hactive (by decide)

/-- The first candidate of the sorted list is the oldest of its kind. -/
theorem oldest_of_find {l₁ l₂ : List DeviceRecord}
    (hsplit : (s.devices.filter isHistory).insertionSort (slotLe · ·) = l₁ ++ r :: l₂)
    (hskip : ∀ x ∈ l₁, removable s.evidence x = false) (hx : x ∈ s.devices)
    (hhist : isHistory x) (hrem : removable s.evidence x) : x = r ∨ slotLe r x := by
  have hmem : x ∈ l₁ ++ r :: l₂ := by
    rw [← hsplit, List.mem_insertionSort, List.mem_filter]
    exact ⟨hx, hhist⟩
  have hsorted := candidates_sorted s.devices
  rw [hsplit] at hsorted
  rcases List.mem_append.1 hmem with h | h
  · rw [hskip x h] at hrem
    cases hrem
  · rcases List.mem_cons.1 h with h | h
    · exact Or.inl h
    · exact Or.inr ((List.pairwise_cons.1 (List.pairwise_append.1 hsorted).2.1).1 x h)

theorem DeviceRecord.NoLater.refl (r : DeviceRecord) : r.NoLater r := by
  rcases DeviceRecord.NoLater.total r r with h | h <;> exact h

/-- **Which record makes room**: none, the oldest denied one, or else the
    oldest revoked one whose digest the evidence can hold. -/
theorem makeDeviceSlot_compacts (hlen : s.devices.length ≤ maxDeviceRecords)
    (hev : s.evidence.length ≤ maxRevokedKeyDigests)
    (hactive : s.devices.countP (·.isActive) ≤ maxActiveDevices) :
    (HistoryFull s → makeDeviceSlot s = s) ∧ (¬ HistoryFull s → Compacted s (makeDeviceSlot s)) := by
  by_cases hroom : s.devices.length < maxDeviceRecords
  · rw [makeDeviceSlot_of_lt hroom]
    exact ⟨fun _ => rfl, fun _ => .room hroom⟩
  have hs : s.devices.length = maxDeviceRecords := by omega
  have hslot : makeDeviceSlot s = ((((s.devices.filter isHistory).insertionSort (slotLe · ·)).find?
      (removable s.evidence)).map (dropRecord s)).getD s := by
    unfold makeDeviceSlot
    rw [if_neg hroom]
    refine makeDeviceSlotLoop_eq hs fun x hx => ?_
    rw [List.mem_insertionSort] at hx
    exact List.mem_of_mem_filter hx
  rw [hslot]
  cases hfind : ((s.devices.filter isHistory).insertionSort (slotLe · ·)).find?
      (removable s.evidence) with
  | none =>
    -- no candidate may go, so the history is full
    have hstuck : ∀ x ∈ s.devices, isHistory x → removable s.evidence x = false := by
      intro x hx hhist
      have := List.find?_eq_none.1 hfind x
        ((List.mem_insertionSort _).2 (List.mem_filter.2 ⟨hx, hhist⟩))
      simpa using this
    have hfull : HistoryFull s := by
      have hkept : ∀ x ∈ s.devices, isHistory x → x.status = .revoked ∧
          sha256 x.devicePublicKey.1 ∉ s.evidence ∧ maxRevokedKeyDigests ≤ s.evidence.length := by
        intro x hx hhist
        have := hstuck x hx hhist
        simp only [removable, Bool.or_eq_false_iff, decide_eq_false_iff_not, not_not,
          not_lt] at this
        exact ⟨this.1.1, this.1.2, this.2⟩
      refine ⟨hs, ?_, ?_, ?_⟩
      · intro x hx hden
        have := (hkept x hx (isHistory_iff.2 (Or.inl hden))).1
        rw [hden] at this
        cases this
      · intro x hx hrev
        exact (hkept x hx (isHistory_iff.2 (Or.inr hrev))).2.1
      · obtain ⟨x, hx, hst⟩ := exists_history hs hactive
        exact le_antisymm hev (hkept x hx (isHistory_iff.2 hst)).2.2
    exact ⟨fun _ => rfl, fun h => absurd hfull h⟩
  | some r =>
    obtain ⟨hrem, l₁, l₂, hsplit, hskip⟩ := List.find?_eq_some_iff_append.1 hfind
    have hr : r ∈ s.devices ∧ isHistory r := by
      have hmem : r ∈ (s.devices.filter isHistory).insertionSort (slotLe · ·) := by
        rw [hsplit]
        simp
      rw [List.mem_insertionSort, List.mem_filter] at hmem
      exact hmem
    have hfirst : ∀ x ∈ s.devices, isHistory x → removable s.evidence x → x = r ∨ slotLe r x :=
      fun x hx => oldest_of_find hsplit (fun y hy => by simpa using hskip y hy) hx
    have hkind : removable s.evidence r ↔ r.status ≠ .revoked ∨ Archivable s r := by
      simp only [removable, Archivable, Bool.or_eq_true, decide_eq_true_eq]
      tauto
    rcases isHistory_iff.1 hr.2 with hden | hrev
    · refine ⟨fun h => absurd hden (h.2.1 r hr.1), fun _ => ?_⟩
      have hdrop : dropRecord s r = { s with devices := s.devices.erase r } := by
        unfold dropRecord
        rw [if_neg (by rw [hden]; decide)]
        rfl
      rw [Option.map_some, Option.getD_some, hdrop]
      refine .denied hs ⟨hr.1, hden, fun x hx hxd => ?_⟩
      rcases hfirst x hx (isHistory_iff.2 (Or.inl hxd)) (by simp [removable, hxd]) with rfl | hle
      · exact .refl _
      · rcases slotLe_iff.1 hle with ⟨-, hne⟩ | ⟨-, h⟩
        · exact absurd hxd hne
        · exact h
    · have harch : Archivable s r := (hkind.1 hrem).resolve_left fun h => h hrev
      have hnone : ∀ x ∈ s.devices, x.status ≠ .denied := by
        intro x hx hxd
        rcases hfirst x hx (isHistory_iff.2 (Or.inl hxd)) (by simp [removable, hxd]) with rfl | hle
        · rw [hrev] at hxd
          cases hxd
        · rcases slotLe_iff.1 hle with ⟨h, -⟩ | ⟨h, -⟩
          · rw [hrev] at h
            cases h
          · have := h.2 hxd
            rw [hrev] at this
            cases this
      constructor
      · rintro ⟨-, -, hout, hfull⟩
        rcases harch.2 with h | h
        · exact absurd h (hout r hr.1 hrev)
        · omega
      · intro _
        have hdrop : dropRecord s r = { s with
            devices := s.devices.erase r
            revokedKeyDigests := some (addEvidence (sha256 r.devicePublicKey.1) s.evidence)
            schemaVersion := 2 } := by
          unfold dropRecord
          rw [if_pos hrev]
          rfl
        rw [Option.map_some, Option.getD_some, hdrop]
        refine .revoked hs hnone ⟨hr.1, harch, fun x hx hxa => ?_⟩
        have hxrem : removable s.evidence x := by
          simp only [removable, Bool.or_eq_true, decide_eq_true_eq]
          rcases hxa.2 with h | h
          · exact Or.inl (Or.inr h)
          · exact Or.inr h
        rcases hfirst x hx (isHistory_iff.2 (Or.inr hxa.1)) hxrem with rfl | hle
        · exact .refl _
        · rcases slotLe_iff.1 hle with ⟨h, -⟩ | ⟨-, h⟩
          · rw [hrev] at h
            cases h
          · exact h

end Slot

/-! ## `create_offer` -/

def historyFull : AuthError :=
  .authorization "revocation history full; retain this state and use a new relay profile"

/-- `create_offer` up to its expiry sweep: the identity, the reading and the
    swept state. -/
def sweepForOffer : Repo (HostIdentity × ℤ × AuthState) := do
  transactionLock
  let _ ← loadStateUnlocked
  let identity ← loadOrCreateUnlocked
  let state ← loadStateUnlocked
  let now ← now
  pure (identity, now, (expirePendingInState state now).1)

/-- `create_offer` after its expiry sweep. -/
def issueOffer (ttlSeconds : ℤ) (identity : HostIdentity) (now : ℤ) (swept : AuthState) :
    Repo PairingOffer := do
  let state := makeDeviceSlot (supersedeOffer swept)
  if state.devices.length ≥ maxDeviceRecords then throw historyFull
  else
    let offerId ← newIdentifier pairingOfferIdBytes
      [(state.pairingOffer.map (·.offerId)).getD []]
    let capability ← draw rawBytes (.authorization "random generation failed")
    let expiresAt := now + ttlSeconds
    saveStateUnlocked { state with
      pairingOffer := some (activeOffer offerId capability identity now expiresAt) }
    pure ⟨offerId, identity.installationId, identity.publicKey, expiresAt, capability⟩

theorem createOffer_eq {ttl : ℤ} (h : 1 ≤ ttl ∧ ttl ≤ maxTtlSeconds) :
    createOffer ttl = sweepForOffer >>= fun x => issueOffer ttl x.1 x.2.1 x.2.2 := by
  unfold createOffer
  rw [if_neg (by omega)]
  simp only [sweepForOffer, bind_assoc, pure_bind]
  rfl

section Offer

variable {f s : AuthState} {i : Invocation} {ttl t : ℤ} {identity : HostIdentity}
  {rs : List (Option ℤ)}

theorem sweepForOffer_spec (f : AuthState) (rs : List (Option ℤ)) :
    wp sweepForOffer (fun _ _ => True)
      (fun x f' _ => f' = { f with hostIdentity := some x.1 } ∧
        x.2.2 = (expirePendingInState f' x.2.1).1 ∧ rs.head? = some (some x.2.1)) f rs := by
  have hE : ∀ _ : AuthError, True := fun _ => trivial
  unfold sweepForOffer
  refine wp_bind (wp_transactionLock hE (wp_bind (wp_loadStateUnlocked hE fun _ => ?_)))
  refine wp_bind (wp_loadOrCreateUnlocked hE fun identity => ?_)
  refine wp_bind (wp_loadStateUnlocked hE fun _ => wp_bind (wp_now hE fun t rs' hrs => ?_))
  refine wp_pure ⟨rfl, rfl, ?_⟩
  rw [hrs]
  rfl

/-- After the sweep `create_offer` finds the history full, saves the state with
    the slot, or leaves the file alone. -/
theorem issueOffer_spec (hd : s.devices.length ≤ maxDeviceRecords) :
    wp (issueOffer ttl identity t s)
      (fun e f' => f' = f ∧ (e = historyFull ↔
        (makeDeviceSlot (supersedeOffer s)).devices.length = maxDeviceRecords))
      (fun _ f' _ => (makeDeviceSlot (supersedeOffer s)).devices.length ≠ maxDeviceRecords ∧
        f' = { makeDeviceSlot (supersedeOffer s) with pairingOffer := f'.pairingOffer }) f rs := by
  have hle : (makeDeviceSlot (supersedeOffer s)).devices.length ≤ maxDeviceRecords :=
    (makeDeviceSlot_keeps (supersedeOffer s)).1.length_le.trans hd
  unfold issueOffer
  dsimp only
  split
  · rename_i hfull
    exact wp_throw ⟨rfl, fun _ => le_antisymm hle hfull, fun _ => rfl⟩
  · rename_i hroom
    have hne : (makeDeviceSlot (supersedeOffer s)).devices.length ≠ maxDeviceRecords := by omega
    have hE : ∀ e : AuthError, e ≠ historyFull → f = f ∧ (e = historyFull ↔
        (makeDeviceSlot (supersedeOffer s)).devices.length = maxDeviceRecords) :=
      fun e he => ⟨rfl, fun h => absurd h he, fun h => absurd h hne⟩
    refine wp_bind (wp_newIdentifierFrom (hE _ (by decide)) fun offerId _ => ?_)
    refine wp_bind (wp_draw (hE _ (by decide)) fun capability => ?_)
    exact wp_bind (wp_saveEncodable (hE _ (by decide)) fun _ _ => wp_pure ⟨hne, rfl⟩)

theorem countP_swept (f : AuthState) (t : ℤ) :
    (expirePendingInState f t).1.devices.countP (·.isActive) ≤ f.devices.countP (·.isActive) := by
  simp only [expirePendingInState, List.countP_map]
  refine List.countP_mono_left fun r _ hr => ?_
  simp only [Function.comp_apply] at hr
  split at hr
  · cases hr
  · exact hr

theorem swept_bounds (hf : ValidAuthState f) (t : ℤ) :
    (expirePendingInState f t).1.devices.length ≤ maxDeviceRecords ∧
      (expirePendingInState f t).1.evidence.length ≤ maxRevokedKeyDigests ∧
      (expirePendingInState f t).1.devices.countP (·.isActive) ≤ maxActiveDevices := by
  refine ⟨?_, hf.evidence_le, (countP_swept f t).trans hf.active_le⟩
  simpa [expirePendingInState] using hf.devices_le

/-- A slot is made wherever the history is not full. -/
theorem Compacted.lt {s' : AuthState} (h : Compacted s s') :
    s'.devices.length < maxDeviceRecords := by
  cases h with
  | room hlen => exact hlen
  | denied hlen hr | revoked hlen _ hr =>
    show (s.devices.erase _).length < maxDeviceRecords
    rw [List.length_erase_of_mem hr.1, hlen]
    decide

/-- **The slot `create_offer` makes.**  Whenever it gets past its expiry sweep,
    it fails with the full history exactly if no record of the swept state may
    be removed.  It leaves the file alone when it fails, but for a new host
    identity.  Where the history is not full, one record at most is removed, and
    this is what a call that returns has saved. -/
theorem device_slot_compaction {w : World AuthState} (hf : ValidAuthState f)
    (hc : i.call = .createOffer ttl) (httl : 1 ≤ ttl ∧ ttl ≤ maxTtlSeconds)
    (hs : Returns sweepForOffer (identity, t, s) ⟨f, i.readings, i.draws, i.faults⟩ w) :
    (i.readings.head? = some (some t) ∧
      s = (expirePendingInState { f with hostIdentity := some identity } t).1) ∧
    ((i.exec f).1 = .error historyFull ↔ HistoryFull s) ∧
    (∀ e, (i.exec f).1 = .error e →
      (i.exec f).2 = { f with hostIdentity := some identity }) ∧
    (HistoryFull s → makeDeviceSlot (supersedeOffer s) = supersedeOffer s) ∧
    (¬ HistoryFull s → Compacted (supersedeOffer s) (makeDeviceSlot (supersedeOffer s))) ∧
    ∀ reply, (i.exec f).1 = .ok reply → (i.exec f).2 =
      { makeDeviceSlot (supersedeOffer s) with pairingOffer := (i.exec f).2.pairingOffer } := by
  have hsweep := sweepForOffer_spec f i.readings ⟨f, i.readings, i.draws, i.faults⟩ rfl rfl
  have hrun : (sweepForOffer.run.run ⟨f, i.readings, i.draws, i.faults⟩) = (.ok (identity, t, s), w) :=
    hs
  rw [hrun] at hsweep
  obtain ⟨hfile, hst, hread⟩ := hsweep
  dsimp only at hfile hst hread
  have hf' : ValidAuthState w.file := hfile ▸ validAuthState_withIdentity hf identity
  obtain ⟨hlen, hev, hactive⟩ : s.devices.length ≤ maxDeviceRecords ∧
      s.evidence.length ≤ maxRevokedKeyDigests ∧
      s.devices.countP (·.isActive) ≤ maxActiveDevices := hst ▸ swept_bounds hf' t
  obtain ⟨hfull, hslot⟩ := makeDeviceSlot_compacts (s := supersedeOffer s) hlen hev hactive
  have hiff : (makeDeviceSlot (supersedeOffer s)).devices.length = maxDeviceRecords ↔
      HistoryFull s := by
    constructor
    · intro h
      by_contra hn
      exact absurd h (hslot hn).lt.ne
    · intro h
      rw [hfull h]
      exact h.1
  -- the rest of the call runs from the file the sweep left
  have hexec : i.exec f = (((issueOffer ttl identity t s).run.run w).1.map Reply.offer,
      ((issueOffer ttl identity t s).run.run w).2.file) := by
    unfold Invocation.exec exec
    rw [hc]
    show (((Reply.offer <$> createOffer ttl : Repo Reply).run.run _).1,
      ((Reply.offer <$> createOffer ttl : Repo Reply).run.run _).2.file) = _
    rw [createOffer_eq httl, map_eq_pure_bind, run_bind, run_bind, hrun]
    dsimp only
    rcases (issueOffer ttl identity t s).run.run w with ⟨e | o, w'⟩ <;> rfl
  have hrest := @issueOffer_spec w.file _ ttl t identity _ hlen w rfl rfl
  refine ⟨⟨hread, by rw [← hfile, hst]⟩, ?_⟩
  rcases hend : (issueOffer ttl identity t s).run.run w with ⟨e | o, w'⟩
  · rw [hend] at hrest hexec
    obtain ⟨hkept, he⟩ := hrest
    rw [hexec]
    refine ⟨?_, fun _ _ => hkept.trans hfile, hfull, hslot, fun reply h => (by cases h)⟩
    rw [← hiff, ← he]
    simp [Except.map]
  · rw [hend] at hrest hexec
    obtain ⟨hroom, hsaved⟩ := hrest
    rw [hexec]
    refine ⟨?_, fun e h => (by cases h), hfull, hslot, fun _ _ => hsaved⟩
    rw [← hiff]
    simpa [Except.map] using hroom

/-- A clock and a storage that answer bring a call past its sweep. -/
theorem returns_sweepForOffer {w : World AuthState} (hw : w.faults = [])
    (hv : ValidAuthState w.file) (hid : w.file.hostIdentity = some identity)
    (hr : w.readings = some t :: rs) (ht : ValidInt t) :
    Returns sweepForOffer (identity, t, (expirePendingInState w.file t).1) w
      { w with readings := rs } := by
  refine (returns_transactionLock hw).bind ((returns_loadStateUnlocked hw hv).bind ?_)
  refine (returns_loadOrCreateUnlocked hw hid).bind ((returns_loadStateUnlocked hw hv).bind ?_)
  exact (returns_now hr ht).bind returns_pure

/-- Sixteen records, every second one revoked and the others denied. -/
def fullHistory : AuthState where
  hostIdentity := some ⟨⟨octets 32 7, by decide⟩, ⟨octets 32 8, by decide⟩⟩
  devices := (List.range 16).map fun k : ℕ =>
    (if k % 2 = 0 then revokedAt else deniedAt) (1000 - k)
      (pairedRecord (b64urlEncode (octets 16 (.ofNat k))) ⟨octets 32 (.ofNat k), by simp [octets]⟩
        ⟨octets 32 1, by decide⟩ 900)

theorem device_slot_compaction_full :
    let i : Invocation := { call := .createOffer 300, readings := [some 2000] }
    let s := (expirePendingInState fullHistory 2000).1
    (i.exec fullHistory).1 ≠ .error historyFull ∧
      Compacted (supersedeOffer s) (makeDeviceSlot (supersedeOffer s)) := by
  intro i s
  have hv : ValidAuthState fullHistory := by decide
  obtain ⟨-, hiff, -, -, hslot, -⟩ := device_slot_compaction (i := i) hv rfl (by decide)
    (returns_sweepForOffer rfl hv rfl rfl (by decide))
  have hdenied : ∃ r ∈ s.devices, r.status = .denied := by decide
  have hn : ¬ HistoryFull s := by
    intro h
    obtain ⟨r, hr, hst⟩ := hdenied
    exact h.2.1 r hr hst
  exact ⟨fun h => hn (hiff.1 h), hslot hn⟩

end Offer

end MercuryRelay
