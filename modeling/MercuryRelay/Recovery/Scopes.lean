/-
  Whose rows are whose (lease_recovery.py, `recovery_scope_device`, `snapshot`,
  `revoke`; admission.py, `_open_lease`).

  A device has a lease on each of its channels, and the scope of a lease joins
  the two names in one text.  Neither name has a slash in it, so the text tells
  the device and the channel.

  * `recoveryScopeDevice_injective`: which device, and which channel;
  * `rows_isolated`: a lease is given its own rows only, and a revocation takes
    all rows of its device, and of the others what a save drops.
-/
import MercuryRelay.Admission.Envelope
import MercuryRelay.Recovery.Eviction

set_option autoImplicit false

namespace MercuryRelay

open Python

/-- `recovery_scope_device`. -/
def recoveryScopeDevice (deviceId channel : Str) : Str :=
  if channel = defaultChannel then deviceId else deviceId ++ lit "/" ++ channel

/-- A text in the URL-safe alphabet of base64, which is that of a channel. -/
def isBase64Url (s : Str) : Bool := s.all isChannelChar

/-- A lease: `_open_lease` makes its scope of these. -/
structure LeaseScope where
  installation : Str
  deviceId : Str
  channel : Str
  epoch : Option ℤ
  deriving DecidableEq

namespace LeaseScope

/-- A device identifier and a channel that admission lets through. -/
structure Valid (l : LeaseScope) : Prop where
  deviceId : isBase64Url l.deviceId = true
  channel : l.channel = defaultChannel ∨ isChannel l.channel = true

/-- The `scope` of `_open_lease`. -/
def scope (l : LeaseScope) : Scope :=
  ⟨l.installation, recoveryScopeDevice l.deviceId l.channel, l.epoch⟩

/-- The row was saved under the scope of the lease. -/
def Saved (l : LeaseScope) (r : RecoveryRow) : Prop := r.key.scope = l.scope

/-- The leases are of one device of one installation. -/
def SameDevice (l m : LeaseScope) : Prop := m.installation = l.installation ∧ m.deviceId = l.deviceId

end LeaseScope

/-! ## Joined names -/

variable {d d' c c' s t : Str}

theorem slash_notMem (h : isBase64Url d = true) : 47 ∉ d := fun hmem => by
  have hchar := List.all_eq_true.1 h 47 hmem
  revert hchar
  decide

/-- A text without a slash ends at the first slash. -/
theorem slash_cancel (hd : 47 ∉ d) (hd' : 47 ∉ d') (h : d ++ 47 :: s = d' ++ 47 :: t) : d = d' ∧ s = t := by
  induction d generalizing d' with
  | nil =>
    cases d' with
    | nil => exact ⟨rfl, (List.cons.inj h).2⟩
    | cons x d' => exact absurd ((List.cons.inj h).1 ▸ List.mem_cons_self) hd'
  | cons x d ih =>
    cases d' with
    | nil => exact absurd ((List.cons.inj h).1.symm ▸ List.mem_cons_self) hd
    | cons y d' =>
      obtain ⟨hhead, htail⟩ := List.cons.inj h
      obtain ⟨hrest, hsame⟩ := ih (List.not_mem_of_not_mem_cons hd) (List.not_mem_of_not_mem_cons hd') htail
      exact ⟨by rw [hhead, hrest], hsame⟩

theorem recoveryScopeDevice_named (h : c ≠ defaultChannel) : recoveryScopeDevice d c = d ++ 47 :: c := by
  have hslash : lit "/" = [47] := rfl
  rw [recoveryScopeDevice, if_neg h, hslash, List.append_assoc]
  rfl

theorem recoveryScopeDevice_default : recoveryScopeDevice d defaultChannel = d := if_pos rfl

/-- **The device and its channel are told by the text.** -/
theorem recoveryScopeDevice_injective (hd : isBase64Url d = true) (hd' : isBase64Url d' = true)
    (h : recoveryScopeDevice d c = recoveryScopeDevice d' c') : d = d' ∧ c = c' := by
  have hslash := slash_notMem hd
  have hslash' := slash_notMem hd'
  by_cases hc : c = defaultChannel
  · by_cases hc' : c' = defaultChannel
    · subst hc hc'
      rw [recoveryScopeDevice_default, recoveryScopeDevice_default] at h
      exact ⟨h, rfl⟩
    · subst hc
      rw [recoveryScopeDevice_default, recoveryScopeDevice_named hc'] at h
      exact absurd (h ▸ List.mem_append_right d' List.mem_cons_self) hslash
  · by_cases hc' : c' = defaultChannel
    · subst hc'
      rw [recoveryScopeDevice_default, recoveryScopeDevice_named hc] at h
      exact absurd (h ▸ List.mem_append_right d List.mem_cons_self) hslash'
    · rw [recoveryScopeDevice_named hc, recoveryScopeDevice_named hc'] at h
      exact slash_cancel hslash hslash' h

/-- The prefix that `revoke` looks for is that of the device's channels. -/
theorem prefix_iff (hd : isBase64Url d = true) (hd' : isBase64Url d' = true) :
    d ++ lit "/" <+: recoveryScopeDevice d' c ↔ d' = d ∧ c ≠ defaultChannel := by
  have hslash : lit "/" = [47] := rfl
  rw [hslash]
  constructor
  · rintro ⟨rest, hrest⟩
    rw [List.append_assoc, List.singleton_append] at hrest
    by_cases hc : c = defaultChannel
    · rw [hc, recoveryScopeDevice_default] at hrest
      exact absurd (hrest ▸ List.mem_append_right d List.mem_cons_self) (slash_notMem hd')
    · rw [recoveryScopeDevice_named hc] at hrest
      exact ⟨(slash_cancel (slash_notMem hd) (slash_notMem hd') hrest).1.symm, hc⟩
  · rintro ⟨rfl, hc⟩
    rw [recoveryScopeDevice_named hc]
    exact ⟨c, by rw [List.append_assoc, List.singleton_append]⟩

/-! ## Rows -/

namespace LeaseScope

variable {l m : LeaseScope} {r : RecoveryRow}

theorem scope_injective (hl : l.Valid) (hm : m.Valid) (h : l.scope = m.scope) : l = m := by
  obtain ⟨installation, deviceId, channel, epoch⟩ := l
  obtain ⟨installation', deviceId', channel', epoch'⟩ := m
  obtain ⟨hinstallation, hdevice, hepoch⟩ := Scope.mk.inj h
  obtain ⟨hid, hchannel⟩ := recoveryScopeDevice_injective hl.deviceId hm.deviceId hdevice
  dsimp only at hinstallation hid hchannel hepoch
  rw [hinstallation, hid, hchannel, hepoch]

/-- A row is revoked exactly if it was saved under a lease of the device. -/
theorem ofDevice_iff (hl : l.Valid) (hm : m.Valid) (hr : m.Saved r) :
    RecoveryStore.ofDevice l.installation l.deviceId r = true ↔ l.SameDevice m := by
  have hsame : recoveryScopeDevice m.deviceId m.channel = l.deviceId ↔
      m.deviceId = l.deviceId ∧ m.channel = defaultChannel := by
    constructor
    · intro h
      exact recoveryScopeDevice_injective hm.deviceId hl.deviceId (h.trans recoveryScopeDevice_default.symm)
    · rintro ⟨hid, hchannel⟩
      rw [hid, hchannel, recoveryScopeDevice_default]
  have hkey : r.key.scope = ⟨m.installation, recoveryScopeDevice m.deviceId m.channel, m.epoch⟩ := hr
  unfold RecoveryStore.ofDevice SameDevice
  rw [hkey]
  simp only [Bool.and_eq_true, Bool.or_eq_true, decide_eq_true_eq, List.isPrefixOf_iff_prefix, hsame,
    prefix_iff hl.deviceId hm.deviceId]
  constructor
  · rintro ⟨hinstallation, hid | hid⟩
    · exact ⟨hinstallation, hid.1⟩
    · exact ⟨hinstallation, hid.1⟩
  · rintro ⟨hinstallation, hid⟩
    refine ⟨hinstallation, ?_⟩
    by_cases hchannel : m.channel = defaultChannel
    · exact .inl ⟨hid, hchannel⟩
    · exact .inr ⟨hid, hchannel⟩

end LeaseScope

namespace RecoveryStore

/-- What a snapshot reports. -/
theorem mem_snapshot {s : RecoveryStore} {wall : ℚ} {scope : Scope} {accepts : Str → Bool} {e : TaskEvent}
    (he : e ∈ (s.snapshot wall scope accepts).1) : ∃ r ∈ s.rows, e = historical r ∧ wall < r.expiresAt ∧
      r.key.scope = scope ∧ accepts r.key.profile = true := by
  obtain ⟨r, hr, rfl⟩ := List.mem_map.1 ((List.drop_sublist _ _).subset he)
  obtain ⟨hpruned, hselected⟩ := List.mem_filter.1 hr
  obtain ⟨hscope, haccepted⟩ := of_decide_eq_true hselected
  exact ⟨r, (prune_trimmed s wall).rows.subset hpruned, rfl, live_of_prune hpruned, hscope, haccepted⟩

/-- What a revocation leaves: the unexpired rows of the others, within the limits of a file. -/
structure Revoked (s : RecoveryStore) (wall : ℚ) (installation device : Str) (done : Bool)
    (t : RecoveryStore) : Prop where
  rows : ∃ n, t.rows = ((s.without installation device).live wall).drop n ∧
    ∀ k < n, ¬ ((s.without installation device).left
      (((s.without installation device).live wall).drop k)).Fits
  file : done = true → t.file = some t.raw

theorem revoke_revoked (s : RecoveryStore) (wall : ℚ) (installation device : Str) :
    Revoked s wall installation device (s.revoke wall installation device).1
      (s.revoke wall installation device).2 := by
  cases hshort : rendered s.revision with
  | true =>
    obtain ⟨n, hsaving, hmin⟩ := saving_left (s.without installation device) wall
    rw [revoke_rendered hshort]
    constructor
    · refine ⟨n, ?_, hmin⟩
      rw [hsaving]
      rfl
    · intro hdone
      have hnone : s.faults.headD none = none := Option.isNone_iff_eq_none.1 hdone
      show s.wrote _ = _
      rw [wrote, hnone]
      rfl
  | false =>
    rw [revoke_unrendered hshort]
    refine ⟨⟨_, rfl, fun k hk hfits => ?_⟩, fun hdone => absurd hdone Bool.false_ne_true⟩
    -- The rows in front of those that are kept are too many.
    have hlen : (((s.without installation device).live wall).drop k).length ≤ s.maxRows := hfits.1
    rw [List.length_drop] at hlen
    have hk : k < ((s.without installation device).live wall).length - s.maxRows := hk
    omega

/-- **Rows are isolated by scope.**  A snapshot reports rows that were saved under its own lease only;
    two leases of one text are of one device and one channel; a revocation leaves no row of the device,
    in the file if it was written, and of a row of another device it drops only those that have expired
    or, from the oldest on, those that the limits of the file leave no room for. -/
theorem rows_isolated (s : RecoveryStore) (wall : ℚ) (accepts : Str → Bool) (l m : LeaseScope) (hl : l.Valid)
    (hm : m.Valid) :
    (∀ e ∈ (s.snapshot wall l.scope accepts).1, ∃ r ∈ s.rows, e = historical r ∧ l.Saved r ∧
      accepts r.key.profile = true ∧ (m.Saved r → m = l)) ∧
    (recoveryScopeDevice l.deviceId l.channel = recoveryScopeDevice m.deviceId m.channel →
      l.deviceId = m.deviceId ∧ l.channel = m.channel) ∧
    (l.SameDevice m → ∀ r ∈ (s.revoke wall l.installation l.deviceId).2.rows, ¬ m.Saved r) ∧
    Revoked s wall l.installation l.deviceId (s.revoke wall l.installation l.deviceId).1
      (s.revoke wall l.installation l.deviceId).2 ∧
    (¬ l.SameDevice m → ∀ r ∈ s.rows, m.Saved r → wall < r.expiresAt →
      r ∈ (s.without l.installation l.deviceId).live wall) := by
  refine ⟨?_, recoveryScopeDevice_injective hl.deviceId hm.deviceId, ?_, revoke_revoked s wall _ _, ?_⟩
  · intro e he
    obtain ⟨r, hr, rfl, -, hscope, haccepted⟩ := mem_snapshot he
    refine ⟨r, hr, rfl, hscope, haccepted, fun hsaved => ?_⟩
    have hsame : m.scope = l.scope := hsaved.symm.trans hscope
    exact LeaseScope.scope_injective hm hl hsame
  · intro hsame r hr hsaved
    obtain ⟨n, hrows, -⟩ := (revoke_revoked s wall l.installation l.deviceId).rows
    rw [hrows] at hr
    have hkept := (List.mem_filter.1 (List.mem_filter.1 ((List.drop_sublist _ _).subset hr)).1).2
    rw [(LeaseScope.ofDevice_iff hl hm hsaved).2 hsame] at hkept
    cases hkept
  · intro hother r hr hsaved hlive
    refine List.mem_filter.2 ⟨List.mem_filter.2 ⟨hr, ?_⟩, decide_eq_true hlive⟩
    rw [Bool.not_eq_true', Bool.eq_false_iff]
    exact fun hof => hother ((LeaseScope.ofDevice_iff hl hm hsaved).1 hof)

/-- A lease on the channel `work` of the device `a`, and one on the default channel of `b`. -/
def workLease : LeaseScope := ⟨lit "i", lit "a", lit "work", some 0⟩

def otherLease : LeaseScope := ⟨lit "i", lit "b", defaultChannel, some 0⟩

theorem workLease_valid : workLease.Valid := ⟨by decide, .inr (by decide)⟩

theorem otherLease_valid : otherLease.Valid := ⟨by decide, .inl rfl⟩

/-- A row of each lease; that of the other expires at 1. -/
def twoLeases : RecoveryStore where
  rows :=
    [⟨⟨workLease.scope, lit "default", lit "s", none⟩, 5, started⟩,
     ⟨⟨otherLease.scope, lit "default", lit "s", none⟩, 1, started⟩]

/-- A revocation drops the expired rows of other devices. -/
theorem revoke_drops_expired : ¬ ∀ (s : RecoveryStore) (wall : ℚ) (l m : LeaseScope), l.Valid → m.Valid →
    ¬ l.SameDevice m → ∀ r ∈ s.rows, m.Saved r → r ∈ (s.revoke wall l.installation l.deviceId).2.rows := by
  intro h
  have hkept := h twoLeases 2 workLease otherLease workLease_valid otherLease_valid
    (fun hsame => absurd hsame.2 (by decide)) _ (List.mem_cons_of_mem _ List.mem_cons_self) rfl
  have hnone : (twoLeases.revoke 2 workLease.installation workLease.deviceId).2.rows.length = 0 := by
    decide
  rw [List.length_eq_zero_iff.1 hnone] at hkept
  exact absurd hkept List.not_mem_nil

/-- The other device keeps its row as long as it has not expired. -/
theorem rows_isolated_two : ((twoLeases.revoke 0 workLease.installation workLease.deviceId).2.rows.map (·.key.scope)) =
      [otherLease.scope] ∧
    (∀ e ∈ (twoLeases.snapshot 0 workLease.scope fun _ => true).1, ∃ r ∈ twoLeases.rows, e = historical r ∧
      workLease.Saved r ∧ true = true ∧ (otherLease.Saved r → otherLease = workLease)) := by
  refine ⟨by decide +kernel, ?_⟩
  exact (rows_isolated twoLeases 0 (fun _ => true) workLease otherLease workLease_valid otherLease_valid).1

end RecoveryStore

end MercuryRelay
