/-
  The abstract registry of a state file.

  `AuthState.registry` forgets labels, epochs, offers and the host identity.
  The edits the operations make in memory are edits of it: a denial refuses,
  an approval authorizes, a revocation revokes, and `_make_device_slot`
  forgets denied records and archives revoked ones.
-/
import MercuryRelay.Authorization.Repository
import MercuryRelay.Lib.Registry

set_option autoImplicit false

namespace MercuryRelay

open Python Transaction Registry
open Transition (Run)

/-! ## The registry of a file -/

def DeviceStatus.lifecycle : DeviceStatus → Registry.Status
  | .pending => .pending
  | .authorized => .authorized
  | .revoked => .revoked
  | .denied => .denied

theorem DeviceStatus.lifecycle_inj : ∀ {a b : DeviceStatus}, a.lifecycle = b.lifecycle → a = b := by
  intro a b; cases a <;> cases b <;> simp [DeviceStatus.lifecycle]

/-- What the registry keeps of a record. -/
def DeviceRecord.entry (r : DeviceRecord) : Entry Str Raw Raw :=
  ⟨r.deviceId, r.devicePublicKey, r.channelBindingDigest, r.status.lifecycle, r.createdAt⟩

/-- The digest of a key, as `_make_device_slot` keeps it. -/
def keyDigest (k : Raw) : Raw := sha256 k.1

def AuthState.registry (s : AuthState) : Reg Str Raw Raw Raw :=
  ⟨s.devices.map (·.entry), s.evidence⟩

abbrev AuthStep := Registry.Step (ι := Str) (τ := Raw) keyDigest

abbrev AuthMaintained := Registry.Maintained (ι := Str) (τ := Raw) keyDigest

/-- The identifiers of the records differ. -/
def AuthState.NodupIds (s : AuthState) : Prop := (s.devices.map (·.deviceId)).Nodup

section Records

variable {s : AuthState} {r x : DeviceRecord} {d : Str}

theorem AuthState.mem_entries {e : Entry Str Raw Raw} :
    e ∈ s.registry.entries ↔ ∃ r ∈ s.devices, r.entry = e := List.mem_map

theorem AuthState.NodupIds.inj (h : s.NodupIds) (hr : r ∈ s.devices) (hx : x ∈ s.devices)
    (hid : r.deviceId = x.deviceId) : r = x :=
  List.inj_on_of_nodup_map h hr hx hid

theorem AuthState.NodupIds.nodup (h : s.NodupIds) : s.devices.Nodup := List.Nodup.of_map _ h

theorem findDevice_some (h : findDevice s d = some r) : r ∈ s.devices ∧ r.deviceId = d :=
  ⟨List.mem_of_find?_eq_some h, by simpa using List.find?_some h⟩

theorem findDevice_none (h : findDevice s d = none) (hr : r ∈ s.devices) : r.deviceId ≠ d := by
  simpa using List.find?_eq_none.1 h r hr

theorem findDevice_eq (h : s.NodupIds) (hr : r ∈ s.devices) : findDevice s r.deviceId = some r := by
  cases hf : findDevice s r.deviceId with
  | none => exact absurd rfl (findDevice_none hf hr)
  | some x =>
    obtain ⟨hx, hid⟩ := findDevice_some hf
    rw [h.inj hx hr hid]

end Records

/-! ## Edits -/

section Edits

variable {α β : Type}

/-- Replacing the element found by its index replaces it by its value. -/
theorem set_idxOf_eq_map [DecidableEq α] {l : List α} {a : α} (b : α) (hn : l.Nodup) (ha : a ∈ l) :
    l.set (l.idxOf a) b = l.map fun x => if x = a then b else x := by
  induction l with
  | nil => simp at ha
  | cons y l ih =>
    obtain ⟨hy, hn⟩ := List.nodup_cons.1 hn
    by_cases hya : y = a
    · subst hya
      have hl : (l.map fun x => if x = y then b else x) = l := by
        rw [List.map_congr_left (g := id), List.map_id]
        rintro x hx
        exact if_neg (by rintro rfl; exact hy hx)
      simp [hl]
    · rw [List.idxOf_cons_ne _ hya, List.set_cons_succ, List.map_cons, if_neg hya,
        ih hn ((List.mem_cons.1 ha).resolve_left (Ne.symm hya))]

/-- A map that separates `a` from the other elements commutes with erasing it. -/
theorem map_erase_of_inj [DecidableEq α] [DecidableEq β] (f : α → β) {l : List α} {a : α}
    (ha : ∀ x ∈ l, f x = f a → x = a) : (l.erase a).map f = (l.map f).erase (f a) := by
  induction l with
  | nil => rfl
  | cons y l ih =>
    rw [List.map_cons, List.erase_cons, List.erase_cons]
    by_cases hy : y = a
    · simp [hy]
    · have hf : f y ≠ f a := fun h => hy (ha y List.mem_cons_self h)
      simp only [beq_iff_eq, hy, hf, if_false, List.map_cons]
      rw [ih fun x hx => ha x (List.mem_cons_of_mem _ hx)]

end Edits

variable {s : AuthState} {r x : DeviceRecord}

theorem replaceDevice_registry (hn : s.NodupIds) (hr : r ∈ s.devices) (u : DeviceRecord) :
    (replaceDevice s r u).registry =
      ⟨s.devices.map fun x => if x = r then u.entry else x.entry, s.evidence⟩ := by
  have h : (replaceDevice s r u).devices = s.devices.map fun x => if x = r then u else x :=
    set_idxOf_eq_map u hn.nodup hr
  simp only [AuthState.registry, h, List.map_map, Reg.mk.injEq]
  refine ⟨List.map_congr_left fun x _ => ?_, rfl⟩
  simp only [Function.comp_apply, apply_ite DeviceRecord.entry]

/-- An update that keeps the entry keeps the registry. -/
theorem replaceDevice_same (hn : s.NodupIds) (hr : r ∈ s.devices) {u : DeviceRecord}
    (hu : u.entry = r.entry) : (replaceDevice s r u).registry = s.registry := by
  rw [replaceDevice_registry hn hr, hu]
  simp only [AuthState.registry, Reg.mk.injEq, and_true]
  refine List.map_congr_left fun x _ => ?_
  split
  · rename_i h; rw [h]
  · rfl

theorem entry_eq_iff (hn : s.NodupIds) (hr : r ∈ s.devices) (hx : x ∈ s.devices) :
    x.entry = r.entry ↔ x = r :=
  ⟨fun h => hn.inj hx hr (congrArg Entry.id h), fun h => by rw [h]⟩

/-- Denying a pending record refuses its entry. -/
theorem denied_registry (hn : s.NodupIds) (hr : r ∈ s.devices) (hp : r.status = .pending) (t : ℤ) :
    AuthStep s.registry (.refuse [r.entry]) (replaceDevice s r (deniedAt t r)).registry := by
  have h : (replaceDevice s r (deniedAt t r)).registry =
      { s.registry with entries := refuseIn [r.entry] s.registry.entries } := by
    rw [replaceDevice_registry hn hr]
    simp only [AuthState.registry, refuseIn, List.map_map, Reg.mk.injEq, and_true]
    refine List.map_congr_left fun x hx => ?_
    simp only [Function.comp_apply, List.mem_singleton, entry_eq_iff hn hr hx]
    by_cases hxr : x = r
    · subst hxr
      simp [DeviceRecord.entry, deniedAt, hp, DeviceStatus.lifecycle]
    · simp [hxr]
  rw [h]
  exact .refuse _

/-- Authorizing a pending record authorizes its entry. -/
theorem authorized_registry (hn : s.NodupIds) (hr : r ∈ s.devices) (hp : r.status = .pending)
    {u : DeviceRecord} (hu : u.entry = { r.entry with status := .authorized }) :
    AuthStep s.registry (.authorize r.entry) (replaceDevice s r u).registry := by
  have h : (replaceDevice s r u).registry =
      { s.registry with entries := authorizeIn r.entry s.registry.entries } := by
    rw [replaceDevice_registry hn hr]
    simp only [AuthState.registry, authorizeIn, List.map_map, Reg.mk.injEq, and_true]
    refine List.map_congr_left fun x hx => ?_
    simp only [Function.comp_apply, entry_eq_iff hn hr hx]
    by_cases hxr : x = r
    · subst hxr; simp [hu]
    · simp [hxr]
  rw [h]
  exact .authorize _ (AuthState.mem_entries.2 ⟨r, hr, rfl⟩)
    (by simp [DeviceRecord.entry, hp, DeviceStatus.lifecycle])

/-- Revoking a record revokes its identifier. -/
theorem revoked_registry (hn : s.NodupIds) (hr : r ∈ s.devices) (t : ℤ) :
    AuthStep s.registry (.revoke r.deviceId) (replaceDevice s r (revokedAt t r)).registry := by
  have h : (replaceDevice s r (revokedAt t r)).registry =
      { s.registry with entries := revokeIn r.deviceId s.registry.entries } := by
    rw [replaceDevice_registry hn hr]
    simp only [AuthState.registry, revokeIn, List.map_map, Reg.mk.injEq, and_true]
    refine List.map_congr_left fun x hx => ?_
    have hid : x.deviceId = r.deviceId ↔ x = r := ⟨hn.inj hx hr, fun h => by rw [h]⟩
    simp only [Function.comp_apply, DeviceRecord.entry, hid]
    by_cases hxr : x = r
    · subst hxr; simp [revokedAt, DeviceStatus.lifecycle]
    · simp [hxr]
  rw [h]
  exact .revoke _

/-- The sweep refuses the entries that timed out. -/
theorem expirePendingInState_registry (s : AuthState) (t maxAge : ℤ) :
    AuthStep s.registry (.refuse ((s.devices.filter (timedOut t maxAge)).map (·.entry)))
      (expirePendingInState s t maxAge).1.registry := by
  have h : (expirePendingInState s t maxAge).1.registry = { s.registry with
      entries := refuseIn ((s.devices.filter (timedOut t maxAge)).map (·.entry))
        s.registry.entries } := by
    simp only [AuthState.registry, expirePendingInState, refuseIn, List.map_map, Reg.mk.injEq]
    refine ⟨List.map_congr_left fun x hx => ?_, rfl⟩
    simp only [Function.comp_apply]
    by_cases ht : timedOut t maxAge x
    · have hp : x.status = .pending := by
        simp only [timedOut, Bool.and_eq_true, decide_eq_true_eq] at ht; exact ht.1
      rw [if_pos ht, if_pos]
      · simp [DeviceRecord.entry, deniedAt, DeviceStatus.lifecycle]
      · exact ⟨List.mem_map_of_mem (List.mem_filter.2 ⟨hx, ht⟩), by
          simp [DeviceRecord.entry, hp, DeviceStatus.lifecycle]⟩
    · rw [if_neg ht, if_neg]
      rintro ⟨hm, -⟩
      obtain ⟨y, hy, hyx⟩ := List.mem_map.1 hm
      have hst : y.status = x.status := DeviceStatus.lifecycle_inj (congrArg Entry.status hyx)
      have hborn : y.createdAt = x.createdAt := congrArg Entry.born hyx
      have hty := (List.mem_filter.1 hy).2
      rw [timedOut, hst, hborn] at hty
      exact ht hty
  rw [h]
  exact .refuse _

/-- A sweep that changes no record changes nothing. -/
theorem expirePendingInState_nil {t maxAge : ℤ} (h : (expirePendingInState s t maxAge).2 = []) :
    (expirePendingInState s t maxAge).1 = s := by
  have hf : ∀ r ∈ s.devices, ¬ timedOut t maxAge r := by
    simpa [expirePendingInState, List.filter_eq_nil_iff] using h
  have hm : (s.devices.map fun r => if timedOut t maxAge r then deniedAt t r else r) = s.devices := by
    rw [List.map_congr_left (g := id), List.map_id]
    exact fun r hr => if_neg (hf r hr)
  simp only [expirePendingInState, hm]

theorem expirePendingInState_ids (s : AuthState) (t maxAge : ℤ) :
    (expirePendingInState s t maxAge).1.devices.map (·.deviceId) = s.devices.map (·.deviceId) := by
  simp only [expirePendingInState, List.map_map]
  refine List.map_congr_left fun r _ => ?_
  simp only [Function.comp_apply]
  split <;> rfl

/-- A record pending after the sweep was pending and has not timed out. -/
theorem pending_expirePendingInState {t maxAge : ℤ}
    (hr : r ∈ (expirePendingInState s t maxAge).1.devices) (hp : r.status = .pending) :
    r ∈ s.devices ∧ t < r.createdAt + maxAge := by
  obtain ⟨x, hx, rfl⟩ := List.mem_map.1 hr
  split at hp
  · simp [deniedAt] at hp
  · rename_i ht
    rw [if_neg ht]
    simp only [timedOut, hp, decide_true, Bool.true_and, decide_eq_true_eq] at ht
    exact ⟨hx, by omega⟩

/-! ### Pruning -/

/-- Erasing a record under the registry. -/
theorem erase_entries (hn : s.NodupIds) (hr : r ∈ s.devices) :
    (s.devices.erase r).map (·.entry) = s.registry.entries.erase r.entry :=
  map_erase_of_inj _ fun _ hx h => (entry_eq_iff hn hr hx).1 h

theorem NodupIds_erase (hn : s.NodupIds) {s' : AuthState} (hd : s'.devices = s.devices.erase r) :
    s'.NodupIds := by
  unfold AuthState.NodupIds
  rw [hd]
  exact hn.sublist (List.erase_sublist.map _)

/-- Dropping a denied record forgets its entry. -/
theorem forgotten_registry (hn : s.NodupIds) (hr : r ∈ s.devices) (hden : r.status = .denied)
    {s' : AuthState} (hd : s'.devices = s.devices.erase r) (he : s'.evidence = s.evidence) :
    AuthMaintained s.registry s'.registry := by
  have h : s'.registry = { s.registry with entries := s.registry.entries.erase r.entry } := by
    rw [← erase_entries hn hr, AuthState.registry, hd, he]; rfl
  rw [h]
  exact .single (.forget _ (AuthState.mem_entries.2 ⟨r, hr, rfl⟩)
    (by simp [DeviceRecord.entry, hden, DeviceStatus.lifecycle])) trivial

theorem addEvidence_eq (d : Raw) (ds : List Raw) : addEvidence d ds = addNew d ds := by
  unfold addEvidence addNew; congr

/-- Dropping a revoked record with its digest in evidence archives its entry. -/
theorem archived_registry (hn : s.NodupIds) (hr : r ∈ s.devices) (hrev : r.status = .revoked)
    {s' : AuthState} (hd : s'.devices = s.devices.erase r)
    (he : s'.evidence = addNew (keyDigest r.devicePublicKey) s.evidence) :
    AuthMaintained s.registry s'.registry := by
  have h : s'.registry =
      ⟨s.registry.entries.erase r.entry, addNew (keyDigest r.entry.key) s.registry.evidence⟩ := by
    rw [← erase_entries hn hr, AuthState.registry, hd, he]; rfl
  rw [h]
  exact .single (.archive _ (AuthState.mem_entries.2 ⟨r, hr, rfl⟩)
    (by simp [DeviceRecord.entry, hrev, DeviceStatus.lifecycle])) trivial

/-- The prune loop forgets denied records and archives revoked ones. -/
theorem makeDeviceSlotLoop_spec {cs : List DeviceRecord} {ev : List Raw} (hn : s.NodupIds)
    (hev : s.evidence = ev) (hcs : ∀ r ∈ cs, r ∈ s.devices ∧ isHistory r) (hcn : cs.Nodup) :
    AuthMaintained s.registry (makeDeviceSlotLoop cs ev s).registry ∧
      (makeDeviceSlotLoop cs ev s).NodupIds := by
  induction cs generalizing s ev with
  | nil => exact ⟨.refl, hn⟩
  | cons r cs ih =>
    obtain ⟨hrs, hhist⟩ := hcs r List.mem_cons_self
    obtain ⟨hrc, hcn⟩ := List.nodup_cons.1 hcn
    have htail : ∀ x ∈ cs, x ∈ s.devices ∧ isHistory x := fun x hx =>
      hcs x (List.mem_cons_of_mem _ hx)
    have hrest : ∀ x ∈ cs, x ∈ s.devices.erase r ∧ isHistory x := fun x hx =>
      ⟨(List.mem_erase_of_ne (by rintro rfl; exact hrc hx)).2 (htail x hx).1, (htail x hx).2⟩
    rw [makeDeviceSlotLoop]
    dsimp only
    split
    · rename_i hrev
      split
      · exact ih hn hev htail hcn
      · have he : (withEvidence s (addEvidence (sha256 r.devicePublicKey.1) ev)).evidence =
            addNew (keyDigest r.devicePublicKey) s.evidence := by
          rw [hev]; exact addEvidence_eq _ _
        let s' := removeDevice (withEvidence s (addEvidence (sha256 r.devicePublicKey.1) ev)) r
        have hm : AuthMaintained s.registry s'.registry := archived_registry hn hrs hrev rfl he
        have hn' : s'.NodupIds := NodupIds_erase hn rfl
        split
        · exact ⟨hm, hn'⟩
        · obtain ⟨h1, h2⟩ := ih hn' rfl hrest hcn
          exact ⟨hm.trans h1, h2⟩
    · rename_i hrev
      have hden : r.status = .denied := by simpa [isHistory, hrev] using hhist
      have hm : AuthMaintained s.registry (removeDevice s r).registry :=
        forgotten_registry hn hrs hden rfl rfl
      have hn' : (removeDevice s r).NodupIds := NodupIds_erase hn rfl
      split
      · exact ⟨hm, hn'⟩
      · obtain ⟨h1, h2⟩ := ih hn' hev hrest hcn
        exact ⟨hm.trans h1, h2⟩

/-- **Making a device slot only maintains the registry.** -/
theorem makeDeviceSlot_spec (hn : s.NodupIds) :
    AuthMaintained s.registry (makeDeviceSlot s).registry ∧ (makeDeviceSlot s).NodupIds := by
  unfold makeDeviceSlot
  split
  · exact ⟨.refl, hn⟩
  · have hp := List.perm_insertionSort (slotLe · ·) (s.devices.filter isHistory)
    refine makeDeviceSlotLoop_spec hn rfl (fun r hr => ?_) ?_
    · exact List.mem_filter.1 (hp.mem_iff.1 hr)
    · exact hp.nodup_iff.2 (hn.nodup.filter _)

end MercuryRelay
