/-
  Reading a list page by page.

  A page is a contiguous part of the rows, at an offset that is counted from the
  start or from the end.  Whoever reads goes on at the offset after a page that is
  full, and stops with one that is not.
-/
import Mathlib.Data.List.Basic

set_option autoImplicit false

namespace Paging

variable {α : Type} {rows : List α} {limit offset : ℕ}

/-- A page, at an offset from the start. -/
def forward (rows : List α) (limit offset : ℕ) : List α := (rows.drop offset).take limit

/-- A page, at an offset from the end; its rows stay in their order. -/
def backward (rows : List α) (limit offset : ℕ) : List α :=
  let rest := rows.take (rows.length - offset)
  rest.drop (rest.length - limit)

/-- The pages that are read from an offset on. -/
inductive Followed (page : ℕ → List α) (limit : ℕ) : ℕ → List (List α) → Prop
  | last {offset : ℕ} : (page offset).length ≠ limit → Followed page limit offset [page offset]
  | next {offset : ℕ} {pages : List (List α)} : (page offset).length = limit →
    Followed page limit (offset + (page offset).length) pages → Followed page limit offset (page offset :: pages)

theorem forward_length : (forward rows limit offset).length = min limit (rows.length - offset) := by
  rw [forward, List.length_take, List.length_drop]

theorem backward_length : (backward rows limit offset).length = min limit (rows.length - offset) := by
  unfold backward
  dsimp only
  rw [List.length_drop, List.length_take]
  omega

/-- A page, and the rows after it. -/
theorem forward_append : forward rows limit offset ++ rows.drop (offset + limit) = rows.drop offset := by
  rw [forward, ← List.drop_drop, List.take_append_drop]

/-- The rows before a page, and the page. -/
theorem append_backward (h : offset + limit ≤ rows.length) :
    rows.take (rows.length - (offset + limit)) ++ backward rows limit offset = rows.take (rows.length - offset) := by
  have hlen : (rows.take (rows.length - offset)).length - limit = rows.length - (offset + limit) := by
    rw [List.length_take]
    omega
  have htake : rows.take (rows.length - (offset + limit)) =
      (rows.take (rows.length - offset)).take (rows.length - (offset + limit)) := by
    rw [List.take_take]
    congr 1
    omega
  unfold backward
  dsimp only
  rw [hlen, htake, List.take_append_drop]

/-- **Pages from the start** are the rows. -/
theorem followed_forward (hlimit : 0 < limit) (h : offset ≤ rows.length) :
    ∃ pages, Followed (forward rows limit) limit offset pages ∧ pages.flatten = rows.drop offset := by
  obtain ⟨left, hleft⟩ : ∃ left, left = rows.length - offset := ⟨_, rfl⟩
  induction left using Nat.strongRecOn generalizing offset with
  | ind left ih =>
    have hlen := @forward_length α rows limit offset
    by_cases hfull : (forward rows limit offset).length = limit
    · obtain ⟨pages, hpages, hrest⟩ :=
        ih (rows.length - (offset + limit)) (by omega) (show offset + limit ≤ rows.length by omega) rfl
      refine ⟨_ :: pages, .next hfull (by rw [hfull]; exact hpages), ?_⟩
      rw [List.flatten_cons, hrest, forward_append]
    · refine ⟨_, .last hfull, ?_⟩
      rw [List.flatten_singleton, forward, List.take_of_length_le]
      rw [List.length_drop]
      omega

/-- **Pages from the end** are the rows, the last page first. -/
theorem followed_backward (hlimit : 0 < limit) (h : offset ≤ rows.length) :
    ∃ pages, Followed (backward rows limit) limit offset pages ∧
      pages.reverse.flatten = rows.take (rows.length - offset) := by
  obtain ⟨left, hleft⟩ : ∃ left, left = rows.length - offset := ⟨_, rfl⟩
  induction left using Nat.strongRecOn generalizing offset with
  | ind left ih =>
    have hlen := @backward_length α rows limit offset
    by_cases hfull : (backward rows limit offset).length = limit
    · have hle : offset + limit ≤ rows.length := by omega
      obtain ⟨pages, hpages, hrest⟩ := ih (rows.length - (offset + limit)) (by omega) hle rfl
      refine ⟨_ :: pages, .next hfull (by rw [hfull]; exact hpages), ?_⟩
      rw [List.reverse_cons, List.flatten_append, hrest, List.flatten_singleton, append_backward hle]
    · refine ⟨_, .last hfull, ?_⟩
      rw [List.reverse_singleton, List.flatten_singleton, backward, Nat.sub_eq_zero_of_le, List.drop_zero]
      rw [List.length_take]
      omega

end Paging
