/-
  How long the row of a child's event is (lease_recovery.py, `observe`, `put`).

  The names of a binding have 128 characters at most, and a payload has 16
  fields of 500 characters at most, each of which is written as 12 at most.  The
  file of a store with one such row keeps its limit.

  * `length_row`: how long a row is.
-/
import MercuryRelay.Python.FloatLength
import MercuryRelay.Python.JsonLength
import MercuryRelay.Recovery.Acts
import MercuryRelay.Recovery.Projection

set_option autoImplicit false

namespace MercuryRelay

open Python

section Row

variable {session kind durable profile : Str} {payload : Payload} {revision : ℤ} {scope : Scope} {expiresAt : ℚ}

theorem Named.length {s : Str} (h : Named s) : stringLength s ≤ 1538 := by
  have hlen := h.short
  have hle := stringLength_le s
  omega

/-- A payload has 16 fields at most, of 500 characters at most. -/
theorem length_payload (h : SoundPayload payload) : (Json.obj payload).textLength 1 1 ≤ 102000 := by
  have hkeys : ∀ k ∈ textFields.map (·.1) ++ countFields, stringLength k ≤ 20 := by decide
  have hlongest : ∀ f ∈ textFields, f.2 ≤ 500 := by decide
  have hfield : ∀ m ∈ payload, m.1 ∈ textFields.map (·.1) ++ countFields ∧ m.2.textLength 1 1 ≤ 6002 := by
    intro m hm
    have hvalid := (h.fields m hm).1
    obtain ⟨k, v⟩ := m
    unfold validField at hvalid
    dsimp only at hvalid ⊢
    cases v with
    | str s =>
      obtain ⟨longest, hget, hs⟩ := (Option.any_eq_true _ _).1 hvalid
      have hmem := Dict.get_mem hget
      have hle := stringLength_le s
      have hbound := hlongest _ hmem
      have hs : s.length ≤ longest := of_decide_eq_true hs
      refine ⟨List.mem_append_left _ (List.mem_map.2 ⟨_, hmem, rfl⟩), ?_⟩
      show stringLength s ≤ 6002
      dsimp only at hbound
      omega
    | int n =>
      simp only [Bool.and_eq_true, decide_eq_true_eq] at hvalid
      obtain ⟨⟨hk, h0⟩, h1⟩ := hvalid
      refine ⟨List.mem_append_right _ hk, ?_⟩
      have hlen : (natDigits n.natAbs).length ≤ 5 := length_natDigits_le (by decide) (by omega)
      rw [← Int.natAbs_of_nonneg h0]
      show (natDigits n.natAbs).length ≤ 6002
      omega
    | _ => cases hvalid
  have hcount : payload.length ≤ 16 := by
    have hsub : payload.map (·.1) ⊆ textFields.map (·.1) ++ countFields := by
      intro k hk
      obtain ⟨m, hm, rfl⟩ := List.mem_map.1 hk
      exact (hfield m hm).1
    have hlen := (h.keyed.subperm hsub).length_le
    rw [List.length_map] at hlen
    exact hlen
  have hmembers : ∀ ms : List (Str × Json), (∀ m ∈ ms, m ∈ payload) →
      Json.membersLength 1 1 ms ≤ 6023 * ms.length := by
    intro ms hms
    induction ms with
    | nil => exact Nat.zero_le _
    | cons m ms ih =>
      rw [List.forall_mem_cons] at hms
      obtain ⟨hk, hv⟩ := hfield m hms.1
      have hkey := hkeys _ hk
      have hrest := ih hms.2
      obtain ⟨k, v⟩ := m
      rw [Json.membersLength, List.length_cons]
      dsimp only at hv hkey
      omega
  have hall := hmembers payload fun _ hm => hm
  rw [Json.textLength]
  omega

theorem identifier_length {v : Option Json} {s : Str} (h : identifier v = some s) : s.length ≤ 128 :=
  (identifier_some h).2.2

/-- The key of a child is short. -/
theorem length_childKey {child : Str} (h : childKey payload = some child) : child.length ≤ 160 := by
  have hnames : (lit "subagent_id:").length = 12 ∧ (lit "child_session_id:").length = 17 ∧
      (lit "delegation:").length = 11 := by decide
  obtain ⟨n1, n2, n3⟩ := hnames
  unfold childKey at h
  split at h
  · rename_i s hs
    cases h
    have hlen := identifier_length hs
    rw [List.length_append, n1]
    omega
  · split at h
    · rename_i s hs
      cases h
      have hlen := identifier_length hs
      rw [List.length_append, n2]
      omega
    · split at h
      · rename_i delegation index hdelegation hindex
        cases h
        have hlen := identifier_length hdelegation
        have hdigits : (intRepr index).length ≤ 5 := by
          unfold counter at hindex
          split at hindex
          · split at hindex
            · rename_i hrange
              cases hindex
              rw [← Int.natAbs_of_nonneg hrange.1]
              exact length_natDigits_le (by decide) (by omega)
            · cases hindex
          · cases hindex
        rw [List.length_append, List.length_append, List.length_cons, n3]
        omega
      · cases h

/-- The key of a row is short. -/
theorem length_rowKey (hscope : scope.Admitted) (hdurable : Named durable) (hprofile : Named profile) :
    (RowKey.toJson ⟨scope, profile, durable, childKey payload⟩).textLength 1 1 ≤ 9000 := by
  obtain ⟨n, hepoch, h0, h1⟩ := hscope.epoch
  have hdigits : (intRepr n).length ≤ 10 := by
    rw [← Int.natAbs_of_nonneg h0]
    exact length_natDigits_le (by decide) (by omega)
  have hchild : (optionalStr (childKey payload)).textLength 1 1 ≤ 1922 := by
    cases hkey : childKey payload with
    | none =>
      show 4 ≤ 1922
      decide
    | some child =>
      have hlen := length_childKey hkey
      have hle := stringLength_le child
      show stringLength child ≤ 1922
      omega
  have h2 := hscope.installation.length
  have h3 := hscope.device.length
  have h4 := hdurable.length
  have h5 := hprofile.length
  simp only [RowKey.toJson, hepoch, optionalInt, Json.textLength, Json.itemsLength, List.length_cons, List.length_nil]
  omega

/-- The event of a row is not long either. -/
theorem length_storedEvent (hsession : Named session) (hdurable : Named durable) (hprofile : Named profile)
    (hkind : kind ∈ RecoveryProjection.childKinds) (hpayload : SoundPayload payload) (hrevision : rendered revision = true) :
    (storedEvent session kind payload revision durable profile).toJson.textLength 1 1 ≤ 170000 := by
  have hkeys : ∀ k ∈ [lit "jsonrpc", lit "2.0", lit "method", lit "event", lit "params", lit "session_id", lit "type",
      lit "payload", lit "recovery_revision", lit "recovery_binding", lit "durable_session_id", lit "profile",
      lit "relay_event_id", lit "runtime_session_id", lit "live"], stringLength k ≤ 20 := by decide
  simp only [List.forall_mem_cons] at hkeys
  obtain ⟨k1, k2, k3, k4, k5, k6, k7, k8, k9, k10, k11, k12, k13, k14, k15, -⟩ := hkeys
  have hkinds : ∀ k ∈ RecoveryProjection.childKinds, stringLength k ≤ 20 := by decide
  have htype := hkinds kind hkind
  have hdigits : (intRepr revision).length ≤ 4300 := of_decide_eq_true hrevision
  have hid : stringLength (lit "projection:" ++ intRepr revision) ≤ 51734 := by
    have hname : (lit "projection:").length = 11 := by decide
    have hle := stringLength_le (lit "projection:" ++ intRepr revision)
    rw [List.length_append, hname] at hle
    omega
  have h1 := hsession.length
  have h2 := hdurable.length
  have h3 := hprofile.length
  have h4 := length_payload hpayload
  rw [storedEvent_toJson]
  generalize hp : Json.obj payload = value at h4
  simp only [storedParams, hp, Binding.toJson, projectionId, Json.textLength, Json.membersLength, List.length_cons,
    List.length_nil, if_true]
  omega

/-- A row that is stored for an event of a child. -/
theorem length_row (hscope : scope.Admitted) (hsession : Named session) (hdurable : Named durable)
    (hprofile : Named profile) (hkind : kind ∈ RecoveryProjection.childKinds) (hpayload : SoundPayload payload)
    (hrevision : rendered revision = true) (hexpiry : Float64.IsValue expiresAt) :
    (RecoveryRow.toJson ⟨⟨scope, profile, durable, childKey payload⟩, expiresAt,
      storedEvent session kind payload revision durable profile⟩).textLength 1 1 ≤ 180000 := by
  have hkeys : stringLength (lit "key") = 5 ∧ stringLength (lit "expires_at") = 12 ∧
      stringLength (lit "event") = 7 := by decide
  obtain ⟨k1, k2, k3⟩ := hkeys
  have hkey := @length_rowKey durable profile payload scope hscope hdurable hprofile
  have hfloat : (floatJson expiresAt).textLength 1 1 ≤ 900 := length_floatRepr hexpiry.1
  have hevent := length_storedEvent hsession hdurable hprofile hkind hpayload hrevision
  simp only [RecoveryRow.toJson, Json.textLength, Json.membersLength, k1, k2, k3, List.length_cons, List.length_nil]
  omega

end Row

end MercuryRelay
