/-
  Which rows a save drops (lease_recovery.py, `RecoveryStore._prune`, `_save`).

  A save drops the expired rows, then the oldest rows over the limit of rows,
  then the oldest rows until the file fits.  What is left is the longest end of
  the unexpired rows that keeps both limits, and the store is marked if it is
  not all of them.

  * `saving_left`: what a save keeps;
  * `Trimmed.fits`: what is kept of a store that fits does fit.
-/
import Mathlib.Algebra.Order.BigOperators.Group.List
import MercuryRelay.Recovery.Acts

set_option autoImplicit false

namespace MercuryRelay

open Python

namespace RecoveryStore

variable {s t : RecoveryStore} {wall : ℚ} {rows rows' : List RecoveryRow}

/-- The rows that have not expired. -/
def live (s : RecoveryStore) (wall : ℚ) : List RecoveryRow := s.rows.filter fun r => wall < r.expiresAt

/-- The store with those of its rows that are left, marked if some are not. -/
def left (s : RecoveryStore) (rows : List RecoveryRow) : RecoveryStore :=
  { s with
    rows := rows
    truncated := s.truncated || rows.length != s.rows.length }

/-- The limits of a file. -/
def Fits (s : RecoveryStore) : Prop := s.rows.length ≤ s.maxRows ∧ s.encode.length ≤ maxStoreBytes

theorem length_live_le (s : RecoveryStore) (wall : ℚ) : (s.live wall).length ≤ s.rows.length :=
  List.length_filter_le _ _

theorem left_self (s : RecoveryStore) : s.left s.rows = s := by
  simp [left]

theorem left_left (h : rows'.length ≤ rows.length) (hle : rows.length ≤ s.rows.length) :
    (s.left rows).left rows' = s.left rows' := by
  have hmark : (s.truncated || rows.length != s.rows.length || rows'.length != rows.length) =
      (s.truncated || rows'.length != s.rows.length) := by
    cases s.truncated with
    | true => rfl
    | false =>
      rw [Bool.eq_iff_iff]
      simp only [Bool.false_or, Bool.or_eq_true, bne_iff_ne, ne_eq]
      omega
  exact congrArg (fun mark => ({ s with rows := rows', truncated := mark } : RecoveryStore)) hmark

theorem prune_left (s : RecoveryStore) (wall : ℚ) :
    s.prune wall = s.left ((s.live wall).drop ((s.live wall).length - s.maxRows)) := by
  have hle := length_live_le s wall
  have hmark : (s.truncated || (s.live wall).length != s.rows.length || decide (s.maxRows < (s.live wall).length)) =
      (s.truncated || ((s.live wall).drop ((s.live wall).length - s.maxRows)).length != s.rows.length) := by
    rw [List.length_drop]
    cases s.truncated with
    | true => rfl
    | false =>
      rw [Bool.eq_iff_iff]
      simp only [Bool.false_or, Bool.or_eq_true, bne_iff_ne, ne_eq, decide_eq_true_eq]
      omega
  exact congrArg (fun mark => ({ s with
    rows := (s.live wall).drop ((s.live wall).length - s.maxRows)
    truncated := mark } : RecoveryStore)) hmark

/-- The oldest rows are dropped as long as the file is too large. -/
theorem fit_left (tries : ℕ) (s : RecoveryStore) : ∃ n, fit tries s = s.left (s.rows.drop n) ∧
    n ≤ s.rows.length ∧ ∀ k < n, maxStoreBytes < (s.left (s.rows.drop k)).encode.length := by
  induction tries generalizing s with
  | zero => exact ⟨0, (left_self s).symm, Nat.zero_le _, fun k hk => absurd hk (Nat.not_lt_zero k)⟩
  | succ tries ih =>
    rw [fit]
    split
    · rename_i hlarge
      obtain ⟨r, rows, hrows⟩ := List.exists_cons_of_ne_nil hlarge.2
      have hpop : { s with rows := s.rows.tail, truncated := true } = s.left rows := by
        simp [left, hrows]
      obtain ⟨n, hfit, hn, hmin⟩ := ih (s.left rows)
      have hdrop : ∀ k, (s.left rows).left ((s.left rows).rows.drop k) = s.left (s.rows.drop (k + 1)) := by
        intro k
        rw [hrows, List.drop_succ_cons]
        refine left_left ?_ ?_
        · show (rows.drop k).length ≤ rows.length
          rw [List.length_drop]
          omega
        · rw [hrows]
          exact Nat.le_succ _
      refine ⟨n + 1, ?_, ?_, ?_⟩
      · rw [hpop, hfit, hdrop]
      · rw [hrows]
        exact Nat.succ_le_succ hn
      · intro k hk
        cases k with
        | zero =>
          rw [List.drop_zero, left_self]
          exact hlarge.1
        | succ k =>
          rw [← hdrop]
          exact hmin k (Nat.lt_of_succ_lt_succ hk)
    · exact ⟨0, (left_self s).symm, Nat.zero_le _, fun k hk => absurd hk (Nat.not_lt_zero k)⟩

/-- **What a save keeps**: the unexpired rows, less as many of the oldest as the limits ask for. -/
theorem saving_left (s : RecoveryStore) (wall : ℚ) : ∃ n, s.saving wall = s.left ((s.live wall).drop n) ∧
    ∀ k < n, ¬ (s.left ((s.live wall).drop k)).Fits := by
  obtain ⟨n, hfit, hn, hmin⟩ := fit_left (s.prune wall).rows.length (s.prune wall)
  have hle := length_live_le s wall
  have hlive : (s.prune wall).rows = (s.live wall).drop ((s.live wall).length - s.maxRows) := rfl
  have hdrop : ∀ k, (s.prune wall).left ((s.prune wall).rows.drop k) =
      s.left ((s.live wall).drop ((s.live wall).length - s.maxRows + k)) := by
    intro k
    rw [hlive, List.drop_drop, prune_left]
    refine left_left ?_ ?_
    · simp only [List.length_drop]
      omega
    · rw [List.length_drop]
      omega
  refine ⟨(s.live wall).length - s.maxRows + n, ?_, fun k hk hfits => ?_⟩
  · rw [saving, hfit, hdrop]
  · by_cases hfew : k < (s.live wall).length - s.maxRows
    · have hlen : ((s.live wall).drop k).length ≤ s.maxRows := hfits.1
      rw [List.length_drop] at hlen
      omega
    · obtain ⟨j, rfl⟩ := Nat.exists_eq_add_of_le (Nat.not_lt.1 hfew)
      have hlarge := hmin j (by omega)
      rw [hdrop] at hlarge
      exact absurd hfits.2 (Nat.not_le.2 hlarge)

/-! ## Files that are not longer -/

/-- A store that has fewer rows, and is marked if need be, has a file that is not longer. -/
theorem Trimmed.length_encode (h : Trimmed s t) : t.encode.length ≤ s.encode.length := by
  have hsum : (t.rows.map fun r => r.toJson.textLength 1 1).sum ≤ (s.rows.map fun r => r.toJson.textLength 1 1).sum :=
    (h.rows.map _).sum_le_sum fun _ _ => Nat.zero_le _
  have hlen := h.rows.length_le
  have hmark : (if t.truncated then 4 else 5) ≤ (if s.truncated then 4 else 5) := by
    cases hs : s.truncated with
    | true => rw [h.truncated hs]
    | false => split <;> decide
  rw [RecoveryStore.length_encode, RecoveryStore.length_encode, h.revision]
  omega

theorem Trimmed.fits (h : Trimmed s t) (hs : s.Fits) : t.Fits :=
  ⟨h.rows.length_le.trans (hs.1.trans h.maxRows.ge), h.length_encode.trans hs.2⟩

end RecoveryStore

end MercuryRelay
