/-
  Things that keep their distance in time: whatever comes after one of them
  comes a gap after it.  A window of time has room for few of them.
-/
import Mathlib.Algebra.BigOperators.Ring.List
import Mathlib.Algebra.Order.BigOperators.Group.List
import Mathlib.Algebra.Order.Field.Basic
import Mathlib.Tactic.Linarith

set_option autoImplicit false

namespace Spacing

variable {ι α : Type} [Field α] [LinearOrder α] [IsStrictOrderedRing α] {gap time : ι → α} {l : List ι} {a b : ι}

/-- Each is at least its gap before every later one. -/
def Spaced (gap time : ι → α) (l : List ι) : Prop := l.Pairwise fun a b => time a + gap a ≤ time b

omit [IsStrictOrderedRing α] in
theorem Spaced.sublist {l' : List ι} (h : Spaced gap time l) (hsub : l'.Sublist l) : Spaced gap time l' :=
  List.Pairwise.sublist hsub h

/-- The gaps from the first to the last fit between the two. -/
theorem Spaced.sum_gaps (h : Spaced gap time (a :: l ++ [b])) :
    ((a :: l).map gap).sum ≤ time b - time a := by
  induction l generalizing a with
  | nil =>
    have hab : time a + gap a ≤ time b := by
      rw [Spaced, List.cons_append, List.pairwise_cons] at h
      exact h.1 b List.mem_cons_self
    simp only [List.map_cons, List.map_nil, List.sum_cons, List.sum_nil]
    linarith
  | cons c l ih =>
    rw [Spaced, List.cons_append, List.pairwise_cons] at h
    have hac := h.1 c List.mem_cons_self
    have hrest := ih h.2
    rw [List.map_cons, List.sum_cons]
    linarith

/-- **In a window** of some length, the gaps of all but the last sum up to no more. -/
theorem Spaced.window {start length : α} (h : Spaced gap time l) (hlength : 0 ≤ length)
    (hin : ∀ x ∈ l, start ≤ time x ∧ time x ≤ start + length) : (l.dropLast.map gap).sum ≤ length := by
  rcases List.eq_nil_or_concat l with rfl | ⟨l, b, rfl⟩
  · simpa using hlength
  · rw [List.concat_eq_append] at h hin ⊢
    rw [List.dropLast_concat]
    cases l with
    | nil => simpa using hlength
    | cons a l =>
      have hsum := h.sum_gaps
      have ha := (hin a List.mem_cons_self).1
      have hb := (hin b (List.mem_append_right _ List.mem_cons_self)).2
      linarith

/-- **How many** there are in a window, if each gap is at least a unit. -/
theorem Spaced.count {start length unit : α} (h : Spaced gap time l) (hlength : 0 ≤ length)
    (hunit : ∀ x ∈ l, unit ≤ gap x) (hin : ∀ x ∈ l, start ≤ time x ∧ time x ≤ start + length) :
    (l.length - 1 : ℕ) * unit ≤ length := by
  have hsum := h.window hlength hin
  have hleast : l.dropLast.length • unit ≤ (l.dropLast.map gap).sum := by
    rw [← List.length_map gap]
    refine List.card_nsmul_le_sum _ _ fun x hx => ?_
    obtain ⟨y, hy, rfl⟩ := List.mem_map.1 hx
    exact hunit y (List.dropLast_subset l hy)
  rw [List.length_dropLast, nsmul_eq_mul] at hleast
  exact hleast.trans hsum

/-- **How much** there is in a window, if sizes keep to the gaps at some rate and to a most. -/
theorem Spaced.size {start length rate most : α} {size : ι → α} (h : Spaced gap time l) (hlength : 0 ≤ length)
    (hrate : 0 ≤ rate) (hsize : ∀ x ∈ l, size x ≤ rate * gap x) (hmost : 0 ≤ most) (hlast : ∀ x ∈ l, size x ≤ most)
    (hin : ∀ x ∈ l, start ≤ time x ∧ time x ≤ start + length) :
    (l.map size).sum ≤ rate * length + most := by
  have hsum := h.window hlength hin
  rcases List.eq_nil_or_concat l with rfl | ⟨l, b, rfl⟩
  · have hzero : 0 ≤ rate * length := mul_nonneg hrate hlength
    simp only [List.map_nil, List.sum_nil]
    linarith
  · rw [List.concat_eq_append] at hsum hsize hlast ⊢
    rw [List.dropLast_concat] at hsum
    have hrest : (l.map size).sum ≤ rate * (l.map gap).sum := by
      rw [← List.sum_map_mul_left]
      exact List.sum_le_sum fun x hx => hsize x (List.mem_append_left _ hx)
    have hb := hlast b (List.mem_append_right _ List.mem_cons_self)
    have hscaled : rate * (l.map gap).sum ≤ rate * length := mul_le_mul_of_nonneg_left hsum hrate
    rw [List.map_append, List.sum_append, List.map_singleton, List.sum_singleton]
    linarith

end Spacing
