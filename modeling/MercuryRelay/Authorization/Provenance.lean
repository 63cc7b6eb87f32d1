/-
  Where an authorization comes from.

  `authorization_provenance`: a device that `is_authorized` confirms was paired
  by one `consume_offer` with that key, approved in time with the digest or the
  fingerprint of that pairing, and not revoked since; a record that ended never
  opens again; and exactly the authorized records have the client capability.
-/
import MercuryRelay.Authorization.Revocation

set_option autoImplicit false

namespace MercuryRelay

open Python Transaction Registry
open Transition (Run)

/-! ## Steps of a run -/

/-- One invocation as a step of the file. -/
def FileStep (f : AuthState) (i : Invocation) (f' : AuthState) : Prop := (i.exec f).2 = f'

theorem runRepository_run (f : AuthState) (is : List Invocation) :
    Run FileStep f is (runRepository f is) := by
  induction is generalizing f with
  | nil => exact .nil
  | cons i is ih => exact .cons rfl (ih _)

theorem run_eq {f f' : AuthState} {is : List Invocation} (h : Run FileStep f is f') :
    f' = runRepository f is := by
  induction h with
  | nil => rfl
  | cons hs _ ih => rw [ih, ← hs]; rfl

/-- An entry of the final file that the first file does not have enters at a
    step. -/
theorem entry_enters {f : AuthState} {is : List Invocation} {e : Entry Str Raw Raw}
    (h₀ : e ∉ f.registry.entries) (h : e ∈ (runRepository f is).registry.entries) :
    ∃ as i bs, is = as ++ i :: bs ∧ e ∉ (runRepository f as).registry.entries ∧
      e ∈ (i.exec (runRepository f as)).2.registry.entries := by
  obtain ⟨as, i, bs, t, t', rfl, h1, ht, hst, ht', -⟩ :=
    (runRepository_run f is).lost (P := fun f => e ∉ f.registry.entries) h₀ (not_not.2 h)
  obtain rfl := run_eq h1
  obtain rfl := hst
  exact ⟨as, i, bs, rfl, ht, not_not.1 ht'⟩

section Steps

variable {f : AuthState} {i : Invocation} {e : Entry Str Raw Raw}

/-- An authorized entry enters by an approval of the pending entry. -/
theorem Invocation.approval_of_enters (hf : ValidAuthState f) (h₀ : e ∉ f.registry.entries)
    (h : e ∈ (i.exec f).2.registry.entries) (ha : e.status = .authorized) :
    ∃ x ∈ f.registry.entries, x.status = .pending ∧ e = { x with status := .authorized } ∧
      Cause i.call i.readings (i.exec f).1 (.authorize x) := by
  obtain ⟨-, s₁, hm, hs⟩ := i.explained hf
  have hs₁ : e ∉ s₁.entries := fun h => h₀ (hm.authorized h ha)
  rcases hs with rfl | ⟨ed, hcause, hs⟩
  · exact absurd h hs₁
  · rcases hs.authorized h ha with h | ⟨x, hx, rfl, hp, he⟩
    · exact absurd h hs₁
    · exact ⟨x, hm.pending hx hp, hp, he, hcause⟩

/-- A pending entry enters by a pairing. -/
theorem Invocation.pairing_of_enters (hf : ValidAuthState f) (h₀ : e ∉ f.registry.entries)
    (h : e ∈ (i.exec f).2.registry.entries) (hp : e.status = .pending) :
    Cause i.call i.readings (i.exec f).1 (.pair e) := by
  obtain ⟨-, s₁, hm, hs⟩ := i.explained hf
  have hs₁ : e ∉ s₁.entries := fun h => h₀ (hm.pending h hp)
  rcases hs with rfl | ⟨ed, hcause, hs⟩
  · exact absurd h hs₁
  · rcases hs.pending h hp with h | rfl
    · exact absurd h hs₁
    · exact hcause

end Steps

/-! ## Identifiers -/

/-- The identifier a step gives to a new record. -/
def Invocation.pairedId (i : Invocation) (f : AuthState) : List Str :=
  match i.call, (i.exec f).1 with
  | .consumeOffer .., .ok (.device s) => [s.deviceId]
  | _, _ => []

/-- The identifiers a run gives to new records. -/
def pairedIds : AuthState → List Invocation → List Str
  | _, [] => []
  | f, i :: is => i.pairedId f ++ pairedIds (i.exec f).2 is

theorem pairedIds_append (f : AuthState) (is js : List Invocation) :
    pairedIds f (is ++ js) = pairedIds f is ++ pairedIds (runRepository f is) js := by
  induction is generalizing f with
  | nil => rfl
  | cons i is ih => simp only [List.cons_append, pairedIds, ih, List.append_assoc]; rfl

section Identifiers

variable {f : AuthState} {i : Invocation} {d : Str} {is : List Invocation}

theorem Cause.pairedId {e : Entry Str Raw Raw}
    (h : Cause i.call i.readings (i.exec f).1 (.pair e)) : i.pairedId f = [e.id] := by
  obtain ⟨a, b, s, hc, hr, hid, -⟩ := h
  rw [Invocation.pairedId, hc, hr]
  exact congrArg (fun x => [x]) hid

/-- A step opens only the identifier it pairs. -/
theorem Invocation.not_open (hf : ValidAuthState f) (h : ¬ Registry.Open f.registry d)
    (hd : d ∉ i.pairedId f) : ¬ Registry.Open (i.exec f).2.registry d := by
  obtain ⟨-, s₁, hm, hs⟩ := i.explained hf
  rcases hs with rfl | ⟨ed, hcause, hs⟩
  · exact hm.not_open h
  · refine hs.not_open (hm.not_open h) ?_
    cases ed with
    | pair e => rw [hcause.pairedId] at hd; exact hd
    | _ => simp [Edit.paired]

/-- A run opens only the identifiers it pairs. -/
theorem runRepository_not_open (hf : ValidAuthState f) (h : ¬ Registry.Open f.registry d)
    (hd : d ∉ pairedIds f is) : ¬ Registry.Open (runRepository f is).registry d := by
  induction is generalizing f with
  | nil => exact h
  | cons i is ih =>
    simp only [pairedIds, List.mem_append, not_or] at hd
    exact ih (i.explained hf).1 (i.not_open hf h hd.1) hd.2

/-- A step has no identifiers but the old ones and the one it pairs. -/
theorem Invocation.ids (hf : ValidAuthState f) {r : DeviceRecord} (hr : r ∈ (i.exec f).2.devices) :
    (∃ x ∈ f.devices, x.deviceId = r.deviceId) ∨ r.deviceId ∈ i.pairedId f := by
  obtain ⟨-, s₁, hm, hs⟩ := i.explained hf
  have he : r.entry ∈ (i.exec f).2.registry.entries := AuthState.mem_entries.2 ⟨r, hr, rfl⟩
  have hold : ∀ e ∈ s₁.entries, e.id = r.deviceId → ∃ x ∈ f.devices, x.deviceId = r.deviceId := by
    intro e he hid
    obtain ⟨y, hy, hyid, -⟩ := hm.origin he
    obtain ⟨x, hx, rfl⟩ := AuthState.mem_entries.1 hy
    exact ⟨x, hx, hyid.trans hid⟩
  rcases hs with rfl | ⟨ed, hcause, hs⟩
  · exact Or.inl (hold _ he rfl)
  · rcases hs.origin he with ⟨e, he, hid, -⟩ | rfl
    · exact Or.inl (hold e he hid)
    · rw [hcause.pairedId]; exact Or.inr List.mem_cons_self

theorem runRepository_ids (hf : ValidAuthState f) {r : DeviceRecord}
    (hr : r ∈ (runRepository f is).devices) :
    (∃ x ∈ f.devices, x.deviceId = r.deviceId) ∨ r.deviceId ∈ pairedIds f is := by
  induction is generalizing f with
  | nil => exact Or.inl ⟨r, hr, rfl⟩
  | cons i is ih =>
    rw [pairedIds, List.mem_append]
    rcases ih (i.explained hf).1 hr with ⟨x, hx, hid⟩ | h
    · rcases i.ids hf hx with ⟨y, hy, hyid⟩ | h
      · exact Or.inl ⟨y, hy, hyid.trans hid⟩
      · exact Or.inr (Or.inl (hid ▸ h))
    · exact Or.inr (Or.inr h)

/-- An ended record is not open. -/
theorem not_open_of_ended (hf : ValidAuthState f) {r : DeviceRecord} (hr : r ∈ f.devices)
    (h : r.status = .denied ∨ r.status = .revoked) : ¬ Registry.Open f.registry r.deviceId := by
  rintro ⟨e, he, hid, ho⟩
  obtain ⟨x, hx, rfl⟩ := AuthState.mem_entries.1 he
  obtain rfl := hf.nodup.inj hx hr hid
  rcases h with h | h <;> simp [DeviceRecord.entry, h, DeviceStatus.lifecycle] at ho

theorem open_of_status {r : DeviceRecord} (hr : r ∈ f.devices)
    (h : r.status = .pending ∨ r.status = .authorized) : Registry.Open f.registry r.deviceId := by
  refine ⟨r.entry, AuthState.mem_entries.2 ⟨r, hr, rfl⟩, rfl, ?_⟩
  rcases h with h | h <;> simp [DeviceRecord.entry, h, DeviceStatus.lifecycle]

end Identifiers

/-! ## Provenance -/

/-- In the run `is`, a `consume_offer` with the key `k` gave the identifier
    `d`, and no other step did; the pairing was approved in time with its
    digest or its fingerprint; and no `revoke` of `d` returned since. -/
def Provenance (is : List Invocation) (d : Str) (k : Bytes) : Prop :=
  ∃ as c bs a cs capability binding s s',
    is = as ++ c :: bs ++ a :: cs ∧ (pairedIds default is).count d = 1 ∧
    c.call = .consumeOffer capability k binding ∧
    (c.exec (runRepository default as)).1 = .ok (.device s) ∧ s.deviceId = d ∧
    (a.call = .approve d (sha256 binding).1 ∨
      a.call = .approveConfirmed d (fingerprint (sha256 binding))) ∧
    (a.exec (runRepository default (as ++ c :: bs))).1 = .ok (.device s') ∧
    s'.deviceId = d ∧ s'.status = .authorized ∧
    (∃ t ∈ a.readings.head?.join, t < s.createdAt + 600) ∧
    ∀ cs₁ v cs₂, cs = cs₁ ++ v :: cs₂ → v.call = .revoke d →
      ∃ e, (v.exec (runRepository default (as ++ c :: bs ++ a :: cs₁))).1 = .error e

theorem provenance_of_authorized {is : List Invocation} (hfresh : (pairedIds default is).Nodup)
    {r : DeviceRecord} (hr : r ∈ (runRepository default is).devices)
    (ha : r.status = .authorized) : Provenance is r.deviceId r.devicePublicKey.1 := by
  have hopen := open_of_status hr (Or.inr ha)
  have hv := runRepository_valid validAuthState_default
  have hnew : ∀ e : Entry Str Raw Raw, e ∉ (default : AuthState).registry.entries :=
    fun _ h => by simp [AuthState.registry, default] at h
  -- the approval is the step at which the authorized entry enters
  obtain ⟨js, a, cs, rfl, h1, h2⟩ :=
    entry_enters (hnew r.entry) (AuthState.mem_entries.2 ⟨r, hr, rfl⟩)
  obtain ⟨x, hx, hp, hrx, hcall, ⟨s', hs', hid', hst'⟩, t, ht, hlt⟩ :=
    a.approval_of_enters (hv js) h1 h2 (by simp [DeviceRecord.entry, ha, DeviceStatus.lifecycle])
  have hxid : x.id = r.deviceId := (congrArg Entry.id hrx).symm
  have hxk : x.key = r.devicePublicKey := (congrArg Entry.key hrx).symm
  -- the pairing is the step at which its pending entry enters
  obtain ⟨as, c, bs, rfl, h3, h4⟩ := entry_enters (hnew x) hx
  have hpair := c.pairing_of_enters (hv as) h3 h4 hp
  have hpid := hpair.pairedId
  obtain ⟨capability, binding, s, hc, hs, hid, hborn, htag, -⟩ := hpair
  have hmem : r.deviceId ∈ c.pairedId (runRepository default as) := by
    rw [hpid, hxid]; exact List.mem_cons_self
  refine ⟨as, c, bs, a, cs, capability, binding, s, s', rfl, ?_, ?_, hs, hid.trans hxid, ?_, hs',
    hid'.trans hxid, hst', ⟨t, by rw [ht]; rfl, by rw [hborn]; exact hlt⟩, ?_⟩
  · refine List.count_eq_one_of_mem hfresh ?_
    rw [List.append_assoc, pairedIds_append, List.cons_append, pairedIds]
    exact List.mem_append_right _ (List.mem_append_left _ hmem)
  · rw [← hxk]; exact hc
  · rw [← hxid, ← htag]; exact hcall
  · rintro cs₁ v cs₂ rfl hvc
    cases hreply : (v.exec (runRepository default (as ++ c :: bs ++ a :: cs₁))).1 with
    | error e => exact ⟨e, rfl⟩
    | ok reply =>
      refine absurd hopen ?_
      have hclosed := (v.revoked (hv _) hvc hreply).1
      have hsplit : as ++ c :: bs ++ a :: (cs₁ ++ v :: cs₂) =
          (as ++ c :: bs ++ a :: cs₁) ++ v :: cs₂ := by simp
      have hrun : runRepository default ((as ++ c :: bs ++ a :: cs₁) ++ v :: cs₂) = runRepository
          (v.exec (runRepository default (as ++ c :: bs ++ a :: cs₁))).2 cs₂ :=
        runRepository_append _ _ _
      rw [hsplit, hrun]
      refine runRepository_not_open (v.explained (hv _)).1 hclosed fun hlater => ?_
      -- the identifier was paired before the revocation, so not after it
      rw [hsplit, pairedIds_append] at hfresh
      refine List.disjoint_of_nodup_append hfresh (a := r.deviceId) ?_ ?_
      · rw [List.append_assoc, pairedIds_append, List.cons_append, pairedIds]
        exact List.mem_append_right _ (List.mem_append_left _ hmem)
      · rw [pairedIds]; exact List.mem_append_right _ hlater

/-- **Authorization has full provenance**, when no identifier is given twice. -/
theorem authorization_provenance (is : List Invocation) (hfresh : (pairedIds default is).Nodup) :
    let f := runRepository default is
    (∀ (q : Invocation) d k, q.call = .isAuthorized d k → (q.exec f).1 = .ok (.flag true) →
      Provenance is d k) ∧
    (∀ as bs, is = as ++ bs → ∀ r ∈ (runRepository default as).devices,
      r.status = .denied ∨ r.status = .revoked → ∀ x ∈ f.devices, x.deviceId = r.deviceId →
        x.status ≠ .pending ∧ x.status ≠ .authorized) ∧
    ∀ r ∈ f.devices, r.capabilities = [lit "client"] ↔ r.status = .authorized := by
  intro f
  have hv := runRepository_valid validAuthState_default
  refine ⟨fun q d k hc hr => ?_, ?_, fun r hr => ?_⟩
  · obtain ⟨r, hmem, rfl, ha, rfl⟩ := q.authorized (hv is) hc hr
    exact provenance_of_authorized hfresh hmem ha
  · rintro as bs rfl r hr hend x hx hid
    have hclosed : ¬ Registry.Open f.registry r.deviceId := by
      change ¬ Registry.Open (runRepository default (as ++ bs)).registry _
      rw [runRepository_append]
      refine runRepository_not_open (hv as) (not_open_of_ended (hv as) hr hend) fun hlater => ?_
      rw [pairedIds_append] at hfresh
      rcases runRepository_ids validAuthState_default hr with ⟨y, hy, -⟩ | h
      · simp [default] at hy
      · exact List.disjoint_of_nodup_append hfresh h hlater
    have hx' : ¬ (x.status = .pending ∨ x.status = .authorized) := fun h =>
      hclosed (hid ▸ open_of_status hx h)
    exact not_or.1 hx'
  · rw [((hv is).devices r hr).capabilities]
    by_cases ha : r.status = .authorized
    · simp [ha, clientCapabilities]
    · simp [ha]

theorem authorization_provenance_paired :
    Provenance (identityDraws :: pairing 1 (octets 32 50) 1001 ++ [approval 1 1002])
      (b64urlEncode (octets 16 1)) (octets 32 50) :=
  (authorization_provenance _ (by decide +kernel)).1
    { call := .isAuthorized (b64urlEncode (octets 16 1)) (octets 32 50) } _ _ rfl
    (by decide +kernel)

end MercuryRelay
