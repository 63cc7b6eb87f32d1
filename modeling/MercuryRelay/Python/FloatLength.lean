/-
  How long the text of a float is: a float has at most 1074 binary places, and
  none of the numbers that `repr` looks at has more than 819 digits.

  * `length_floatRepr`: no float takes 900 characters.
-/
import MercuryRelay.Python.FloatRead
import MercuryRelay.Python.JsonSize

set_option autoImplicit false

namespace Python

variable {a b j k m n : ℕ} {x : Float64} {e point : ℤ} {ds : Str}

theorem roundHalfEven_le (a b : ℕ) : roundHalfEven a b ≤ a + 1 := by
  have hdiv := Nat.div_le_self a b
  unfold roundHalfEven
  dsimp only
  split <;> omega

theorem otherNeighbour_le (a b : ℕ) : otherNeighbour a b ≤ a + 1 := by
  have hdiv := Nat.div_le_self a b
  unfold otherNeighbour
  split <;> omega

/-- A number that is rounded up has one more digit at most. -/
theorem length_rounded (h : n ≤ a + 1) (ha : a < 10 ^ j) : (natDigits n).length ≤ j + 1 := by
  refine length_natDigits_le (Nat.succ_pos j) ?_
  have hpow : (10 : ℕ) ^ (j + 1) = 10 * 10 ^ j := Nat.pow_succ'
  omega

theorem scale10_lt (ha : a < 10 ^ j) (he : -(k : ℤ) ≤ e) : (scale10 a b e).1 < 10 ^ (j + k) := by
  have hpow : (10 : ℕ) ^ (j + k) = 10 ^ j * 10 ^ k := Nat.pow_add 10 j k
  unfold scale10
  split
  · exact ha.trans_le (Nat.pow_le_pow_right (by decide) (Nat.le_add_right j k))
  · have hexp : (10 : ℕ) ^ (-e).toNat ≤ 10 ^ k := Nat.pow_le_pow_right (by decide) (by omega)
    rw [hpow]
    exact (Nat.mul_le_mul_left a hexp).trans_lt (Nat.mul_lt_mul_of_pos_right ha (by positivity))

/-- The digits that are tried, and where the point is. -/
theorem length_shortestFrom (ha : a < 10 ^ j) (hlow : -(j : ℤ) ≤ point) (hhigh : point ≤ j) {size tries : ℕ}
    (hsize : size + tries ≤ 18) : (shortestFrom x a b point size tries).1.length ≤ 2 * j + 19 ∧
      -(j + 18 : ℤ) ≤ (shortestFrom x a b point size tries).2 ∧
      (shortestFrom x a b point size tries).2 ≤ 3 * j + 19 := by
  induction tries generalizing size with
  | zero =>
    have hrounded := length_rounded (roundHalfEven_le a b) ha
    refine ⟨hrounded.trans (by omega), ?_, ?_⟩
    · show -(j + 18 : ℤ) ≤ point
      omega
    · show point ≤ 3 * j + 19
      omega
  | succ tries ih =>
    have hscaled : (scale10 a b (point - size)).1 < 10 ^ (j + (j + 18)) := scale10_lt ha (by omega)
    have hnear := length_rounded (roundHalfEven_le (scale10 a b (point - size)).1 (scale10 a b (point - size)).2) hscaled
    have hfar := length_rounded (otherNeighbour_le (scale10 a b (point - size)).1 (scale10 a b (point - size)).2) hscaled
    unfold shortestFrom
    dsimp only
    split
    · refine ⟨hnear.trans (by omega), ?_, ?_⟩ <;> dsimp only <;> omega
    · split
      · refine ⟨hfar.trans (by omega), ?_, ?_⟩ <;> dsimp only <;> omega
      · exact ih (by omega)

theorem decimalPoint_bounds (hj : 0 < j) (ha : a < 10 ^ j) (hb : b < 10 ^ j) :
    -(j : ℤ) ≤ decimalPoint a b ∧ decimalPoint a b ≤ j := by
  have hab : (natDigits (a / b)).length ≤ j := length_natDigits_le hj ((Nat.div_le_self a b).trans_lt ha)
  have hba : (natDigits (b / a)).length ≤ j := length_natDigits_le hj ((Nat.div_le_self b a).trans_lt hb)
  have hpos : 0 < (natDigits (b / a)).length := List.length_pos_of_ne_nil (natDigits_ne_nil _)
  unfold decimalPoint
  split
  · constructor <;> omega
  · split <;> constructor <;> omega

theorem length_formatRepr (hlow : -9000 ≤ point) (hhigh : point ≤ 9000) :
    (formatRepr ds point).length ≤ ds.length + 20 := by
  have hsize : (natDigits (point - 1).natAbs).length ≤ 4 := length_natDigits_le (by decide) (by omega)
  have hpad : (if (natDigits (point - 1).natAbs).length < 2 then 48 :: natDigits (point - 1).natAbs
      else natDigits (point - 1).natAbs).length ≤ 5 := by
    split
    · rw [List.length_cons]
      omega
    · omega
  have hzero : (lit "0.").length = 2 ∧ (lit ".0").length = 2 := by decide
  unfold formatRepr
  split
  · split
    · rw [List.length_append, List.length_append, List.length_replicate, hzero.1]
      omega
    · split
      · rw [List.length_append, List.length_append, List.length_replicate, hzero.2]
        omega
      · rw [List.length_append, List.length_cons, List.length_take, List.length_drop]
        omega
  · dsimp only
    rw [List.length_append, List.length_append, List.length_cons, List.length_cons, List.length_take]
    have hrest : (if ds.length ≤ 1 then [] else 46 :: ds.drop 1).length ≤ ds.length := by
      split
      · exact Nat.zero_le _
      · rw [List.length_cons, List.length_drop]
        omega
    omega

theorem length_stripZeros (ds : Str) : (stripZeros ds).length ≤ ds.length := by
  unfold stripZeros
  rw [List.length_reverse]
  exact (List.dropWhile_sublist _).length_le.trans (by rw [List.length_reverse])

/-- The numerator and the denominator of a float. -/
theorem scale_lt (hm : m < 2 ^ 53) (hlow : -1074 ≤ e) (hhigh : e ≤ 971) (hj : 1074 < 3 * j) :
    (scale m 1 (-e)).1 < 10 ^ j ∧ (scale m 1 (-e)).2 < 10 ^ j := by
  have hpow : ∀ k ≤ 1074, (2 : ℕ) ^ k < 10 ^ j := by
    intro k hk
    calc (2 : ℕ) ^ k < 2 ^ (3 * j) := Nat.pow_lt_pow_right (by decide) (by omega)
      _ = (2 ^ 3) ^ j := Nat.pow_mul 2 3 j
      _ ≤ 10 ^ j := Nat.pow_le_pow_left (by decide) j
  unfold scale
  split
  · constructor
    · exact hm.trans (hpow 53 (by decide))
    · rw [Nat.one_mul]
      exact hpow _ (by omega)
  · constructor
    · calc m * 2 ^ (- -e).toNat ≤ 2 ^ 53 * 2 ^ (- -e).toNat := Nat.mul_le_mul_right _ hm.le
        _ = 2 ^ (53 + (- -e).toNat) := (Nat.pow_add 2 _ _).symm
        _ < 10 ^ j := hpow _ (by omega)
    · exact Nat.one_lt_pow (by omega) (by decide)

/-- **How long a written float is.** -/
theorem length_floatRepr (h : x.Canonical) : (floatRepr x).length ≤ 900 := by
  have hsign : ∀ neg : Bool, (if neg then [45] else ([] : Str)).length ≤ 1 := by decide
  obtain ⟨j, hj⟩ : ∃ j, j = 400 := ⟨_, rfl⟩
  cases x with
  | inf neg =>
    have hneg := hsign neg
    have hname : (lit "Infinity").length = 8 := by decide
    rw [floatRepr, List.length_append, hname]
    omega
  | finite neg m e =>
    have hneg := hsign neg
    rw [floatRepr, List.length_append]
    rcases h with ⟨rfl, rfl⟩ | ⟨hm, hnormal⟩
    · rw [if_pos rfl]
      have hzero : (lit "0.0").length = 3 := by decide
      omega
    · rw [if_neg hm.ne']
      obtain ⟨ha, hb⟩ := @scale_lt j m e hnormal.bits hnormal.least hnormal.most (by omega)
      generalize scale m 1 (-e) = ab at ha hb
      obtain ⟨a, b⟩ := ab
      obtain ⟨hlow, hhigh⟩ := decimalPoint_bounds (by omega) ha hb
      obtain ⟨hdigits, hplow, hphigh⟩ := @length_shortestFrom a b j (.finite false m e) _ ha hlow hhigh
        1 17 (by decide)
      dsimp only
      generalize shortestFrom (.finite false m e) a b (decimalPoint a b) 1 17 = found at hdigits hplow hphigh
      have htext := @length_formatRepr found.2 (stripZeros found.1) (by omega) (by omega)
      have hstrip := length_stripZeros found.1
      omega

end Python
