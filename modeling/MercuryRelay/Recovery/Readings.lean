/-
  A put reads the clock three times (lease_recovery.py, `RecoveryStore.put`).

  `_prune` reads it, then the expiry of the new row, then the `_prune` of
  `_save`.  A row whose time is over by then is not saved.

  * `saving_fits`: a file keeps its limits;
  * `stored_rows`: which rows a put leaves.
-/
import MercuryRelay.Recovery.Eviction
import MercuryRelay.Recovery.Sizes

set_option autoImplicit false

namespace MercuryRelay

open Python

/-- The clock does not go back. -/
structure Readings.Ordered (c : Readings) : Prop where
  stored : c.start ≤ c.stored
  saved : c.stored ≤ c.saved

namespace RecoveryStore

variable {s t : RecoveryStore} {c : Readings} {wall : ℚ} {key : RowKey} {event : TaskEvent} {scope : Scope}
  {binding : Binding}

/-! ## The rows that are left -/

/-- What is saved keeps the limits of a file. -/
theorem saving_fits (h : rendered s.revision = true) (wall : ℚ) : (s.saving wall).Fits := by
  refine ⟨(length_saving_le s wall).trans (saving_trimmed s wall).maxRows.ge, ?_⟩
  rcases fit_length (Nat.le_refl (s.prune wall).rows.length) with hlen | hrows
  · exact hlen
  · have hdigits : (intRepr s.revision).length ≤ 4300 := of_decide_eq_true h
    have hlen := length_encode (s.saving wall)
    have hrevision := (saving_trimmed s wall).revision
    have hnone : (s.saving wall).rows = [] := hrows
    have hmark : (if (s.saving wall).truncated then 4 else 5) ≤ 5 := by split <;> decide
    have hmax : maxStoreBytes = 2097152 := by decide
    rw [hnone, hrevision, List.map_nil, List.sum_nil, List.length_nil] at hlen
    omega

/-- A put of an event that was observed, at readings that are numbers. -/
structure ObservedPut (ttl : ℚ) (c : Readings) (scope : Scope) (binding : Binding) (event : TaskEvent) : Prop where
  put : SoundPut scope binding event
  kind : event.kind ∈ RecoveryProjection.childKinds
  clock : Clock ttl c.stored

theorem putRow_eq (h : SoundPut scope binding event) (wall : ℚ) : s.putRow wall (putKey scope binding event) event =
    ⟨⟨scope, binding.profile, binding.durableSessionId, childKey event.payload⟩, floatSum wall s.ttlSeconds,
      storedEvent binding.runtimeSessionId event.kind event.payload (s.revision + 1) binding.durableSessionId
        binding.profile⟩ := by
  obtain ⟨hscope, hbinding, hsession, hbound, hdurable, hprofile, hkind, hpayload⟩ := h
  obtain ⟨runtime, durable, profile, live⟩ := binding
  have hlive := hbinding.live
  dsimp only at hlive
  subst hlive
  unfold putRow storedEvent putKey
  rw [hsession, hbound, hdurable, hprofile]

/-- The new row alone keeps the limits. -/
theorem putRow_fits (h : ObservedPut s.ttlSeconds c scope binding event) (hs : SoundStore s)
    (hshort : rendered (s.revision + 1) = true) : ((s.adding c (putKey scope binding event) event).left
      [s.putRow c.stored (putKey scope binding event) event]).Fits := by
  have hdigits : (intRepr (s.revision + 1)).length ≤ 4300 := of_decide_eq_true hshort
  have hrow := @length_row binding.runtimeSessionId event.kind binding.durableSessionId binding.profile
    event.payload (s.revision + 1) scope (floatSum c.stored s.ttlSeconds) h.put.admitted h.put.proven.runtime
    h.put.proven.durable h.put.proven.profile h.kind h.put.payload hshort (isValue_floatSum _ _)
  rw [← putRow_eq h.put] at hrow
  have hmax : maxStoreBytes = 2097152 := by decide
  constructor
  · exact hs.capacity.1
  · rw [length_encode]
    have hmark : ∀ b : Bool, (if b then 4 else 5) ≤ 5 := by decide
    have hrevision : ((s.adding c (putKey scope binding event) event).left
      [s.putRow c.stored (putKey scope binding event) event]).revision = s.revision + 1 := rfl
    have hrows : ((s.adding c (putKey scope binding event) event).left
      [s.putRow c.stored (putKey scope binding event) event]).rows =
        [s.putRow c.stored (putKey scope binding event) event] := rfl
    have hflag := hmark ((s.adding c (putKey scope binding event) event).left
      [s.putRow c.stored (putKey scope binding event) event]).truncated
    rw [hrevision, hrows, List.map_singleton, List.sum_singleton, List.length_singleton]
    omega

/-- The unexpired rows of the other children. -/
def others (s : RecoveryStore) (wall : ℚ) (key : RowKey) : List RecoveryRow :=
  (s.live wall).filter (·.key ≠ key)

/-- The rows of the other children that are left before the limits are looked at again. -/
theorem filter_prune (hclock : c.start ≤ c.saved) : ∃ n,
    ((s.prune c.start).rows.filter (·.key ≠ key)).filter (fun r => decide (c.saved < r.expiresAt)) =
      (s.others c.saved key).drop n := by
  have hsuffix : (((s.prune c.start).rows.filter (·.key ≠ key)).filter fun r => decide (c.saved < r.expiresAt)) <:+
      s.others c.saved key := by
    have hall : s.others c.saved key =
        ((s.live c.start).filter (·.key ≠ key)).filter (fun r => decide (c.saved < r.expiresAt)) := by
      unfold others live
      simp only [List.filter_filter]
      congr 1
      funext r
      rw [Bool.eq_iff_iff]
      simp only [Bool.and_eq_true, decide_eq_true_eq]
      constructor
      · rintro ⟨hkey, hlive⟩
        exact ⟨hlive, hkey, hclock.trans_lt hlive⟩
      · rintro ⟨hlive, hkey, -⟩
        exact ⟨hkey, hlive⟩
    rw [hall]
    have hprune : (s.prune c.start).rows <:+ s.live c.start := List.drop_suffix _ _
    exact (hprune.filter _).filter _
  refine ⟨_, List.suffix_iff_eq_drop.1 hsuffix⟩

/-- **The rows that a put leaves**: the newest unexpired rows of the others, in their order, and the new row
    last unless its time is over. -/
theorem stored_rows (h : ObservedPut s.ttlSeconds c scope binding event) (hs : SoundStore s)
    (hshort : rendered (s.revision + 1) = true) (hclock : c.Ordered) :
    ∃ n, ((s.adding c (putKey scope binding event) event).saving c.saved).rows =
      (s.others c.saved (putKey scope binding event)).drop n ++
        if c.saved < (s.putRow c.stored (putKey scope binding event) event).expiresAt then
          [s.putRow c.stored (putKey scope binding event) event] else [] := by
  obtain ⟨k, hk⟩ := @filter_prune s c (putKey scope binding event) (hclock.stored.trans hclock.saved)
  obtain ⟨n, hsaving, hmin⟩ := saving_left (s.adding c (putKey scope binding event) event) c.saved
  have hlive : (s.adding c (putKey scope binding event) event).live c.saved =
      (s.others c.saved (putKey scope binding event)).drop k ++
        if c.saved < (s.putRow c.stored (putKey scope binding event) event).expiresAt then
          [s.putRow c.stored (putKey scope binding event) event] else [] := by
    rw [← hk]
    unfold live adding
    rw [List.filter_append]
    congr 1
    by_cases hexpiry : c.saved < (s.putRow c.stored (putKey scope binding event) event).expiresAt
    · simp [hexpiry]
    · simp [hexpiry]
  rw [hlive] at hsaving hmin
  have hrows : ((s.adding c (putKey scope binding event) event).saving c.saved).rows =
      ((s.others c.saved (putKey scope binding event)).drop k ++
        if c.saved < (s.putRow c.stored (putKey scope binding event) event).expiresAt then
          [s.putRow c.stored (putKey scope binding event) event] else []).drop n := by
    rw [hsaving]
    rfl
  rw [hrows]
  by_cases hexpiry : c.saved < (s.putRow c.stored (putKey scope binding event) event).expiresAt
  · rw [if_pos hexpiry] at hmin ⊢
    have hn : n ≤ ((s.others c.saved (putKey scope binding event)).drop k).length := by
      refine Nat.not_lt.1 fun hlt => hmin _ hlt ?_
      rw [List.drop_left]
      exact putRow_fits h hs hshort
    exact ⟨k + n, by rw [List.drop_append_of_le_length hn, List.drop_drop]⟩
  · rw [if_neg hexpiry, List.append_nil]
    exact ⟨k + n, by rw [List.append_nil, List.drop_drop]⟩

end RecoveryStore

end MercuryRelay
