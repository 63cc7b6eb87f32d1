/-
  `math.ceil(a / b)` of two integers: the quotient is rounded to a binary64 first.

  * `ceilQuotient_eq`: for numbers that are small enough, the rounding does not matter.
-/
import Mathlib.Tactic.NormNum
import Mathlib.Tactic.Ring
import MercuryRelay.Python.Float

set_option autoImplicit false

namespace Python

/-- `math.ceil`; an infinity has none. -/
def Float64.ceil : Float64 → Option ℤ
  | .inf _ => none
  | .finite neg m e =>
    if 0 ≤ e then some ((if neg then -1 else 1) * (m * 2 ^ e.toNat : ℕ))
    else if neg then some (-(m / 2 ^ (-e).toNat : ℕ))
    else some ((m + 2 ^ (-e).toNat - 1) / 2 ^ (-e).toNat : ℕ)

/-- `math.ceil(a / b)`. -/
def ceilQuotient (a b : ℕ) : Option ℤ := (Float64.ofRatio false a b).ceil

/-- The integer that is not below `a / b`, and below it by nothing more. -/
theorem ceil_unique {a b c : ℕ} (hb : 0 < b) (h : a ≤ c * b) (h' : c * b < a + b) :
    (a + b - 1) / b = c := by
  refine Nat.div_eq_of_lt_le ?_ ?_
  · omega
  · rw [Nat.succ_mul]
    omega

theorem ceil_spec {a b : ℕ} (hb : 0 < b) :
    a ≤ (a + b - 1) / b * b ∧ (a + b - 1) / b * b < a + b := by
  have h := Nat.div_add_mod (a + b - 1) b
  have hr := Nat.mod_lt (a + b - 1) hb
  rw [Nat.mul_comm] at h
  omega

/-- Rounding is off by a half at most. -/
theorem roundHalfEven_spec {a b : ℕ} (hb : 0 < b) :
    2 * (roundHalfEven a b * b) ≤ 2 * a + b ∧ 2 * a ≤ 2 * (roundHalfEven a b * b) + b := by
  have h := Nat.div_add_mod a b
  have hr := Nat.mod_lt a hb
  rw [Nat.mul_comm] at h
  unfold roundHalfEven
  dsimp only
  split
  · rename_i hup
    rw [Nat.add_mul, Nat.one_mul]
    omega
  · rename_i hdown
    omega

/-- The quotient of small numbers, as a binary64: it has binary places, and it is rounded. -/
theorem ofRatio_spec {a b : ℕ} (ha : 0 < a) (ha' : a < 2 ^ 30) (hb : 0 < b) (hb' : b < 2 ^ 20) :
    ∃ k m : ℕ, 20 ≤ k ∧ Float64.ofRatio false a b = .finite false m (-(k : ℤ)) ∧
      ∃ p : ℕ, k ≤ p ∧ m * 2 ^ (p - k) = roundHalfEven (a * 2 ^ p) b := by
  have hla : Nat.log2 a < 30 := (Nat.log2_lt (by omega)).2 ha'
  have hlb : Nat.log2 b < 20 := (Nat.log2_lt (by omega)).2 hb'
  unfold Float64.ofRatio
  rw [if_neg (by omega)]
  dsimp only
  generalize hg : (if (scale a b ((Nat.log2 a : ℤ) - Nat.log2 b)).1 <
      (scale a b ((Nat.log2 a : ℤ) - Nat.log2 b)).2 then (Nat.log2 a : ℤ) - Nat.log2 b - 1
      else (Nat.log2 a : ℤ) - Nat.log2 b) = g
  have hg1 : g < 30 := by
    rw [← hg]
    split <;> omega
  have hg2 : -21 ≤ g := by
    rw [← hg]
    split <;> omega
  have hmax : max (-1074) (g - 52) = -((52 - g).toNat : ℤ) := by
    rw [max_eq_right (by omega)]
    omega
  rw [hmax]
  generalize hp : (52 - g).toNat = p
  have hp1 : 22 < p := by omega
  have hscale : scale a b (-(p : ℤ)) = (a * 2 ^ p, b) := by
    unfold scale
    rw [if_neg (by omega), neg_neg, Int.toNat_natCast]
  rw [hscale]
  dsimp only
  by_cases hround : roundHalfEven (a * 2 ^ p) b = 2 ^ 53
  · rw [if_pos hround, if_neg (by dsimp only; omega)]
    refine ⟨p - 1, 2 ^ 52, by omega, ?_, p, by omega, ?_⟩
    · dsimp only
      rw [if_neg (by norm_num)]
      congr 1
      omega
    · rw [hround, show p - (p - 1) = 1 by omega]
      norm_num
  · have hpos : roundHalfEven (a * 2 ^ p) b ≠ 0 := by
      intro hzero
      obtain ⟨-, h⟩ := roundHalfEven_spec (a := a * 2 ^ p) hb
      rw [hzero] at h
      have h20 : 2 ^ 20 ≤ 2 ^ p := Nat.pow_le_pow_right (by decide) (by omega)
      have hle : 2 ^ p ≤ a * 2 ^ p := Nat.le_mul_of_pos_left _ ha
      omega
    rw [if_neg hround, if_neg (by dsimp only; omega), if_neg hpos]
    exact ⟨p, _, by omega, rfl, p, Nat.le_refl p, by simp⟩

/-- **The rounding of a quotient does not matter**, for small numbers. -/
theorem ceilQuotient_eq {a b : ℕ} (ha : a < 2 ^ 30) (hb : 0 < b) (hb' : b < 2 ^ 20) :
    ceilQuotient a b = some (((a + b - 1) / b : ℕ) : ℤ) := by
  rcases Nat.eq_zero_or_pos a with rfl | hpos
  · have hzero : (0 + b - 1) / b = 0 := Nat.div_eq_of_lt (by omega)
    rw [hzero]
    simp [ceilQuotient, Float64.ofRatio, Float64.ceil]
  · obtain ⟨k, m, hk, hratio, p, hkp, hm⟩ := ofRatio_spec hpos ha hb hb'
    obtain ⟨h1, h2⟩ := ceil_spec (a := a) hb
    generalize hc : (a + b - 1) / b = c at h1 h2
    have hpow : 2 ^ k * 2 ^ (p - k) = 2 ^ p := by rw [← Nat.pow_add, Nat.add_sub_cancel' hkp]
    obtain ⟨h3, h4⟩ := roundHalfEven_spec (a := a * 2 ^ p) hb
    have hceil : (m + 2 ^ k - 1) / 2 ^ k = c := by
      refine ceil_unique (Nat.two_pow_pos k) ?_ ?_
      · -- rounding does not pass the integer above
        refine Nat.le_of_mul_le_mul_right ?_ (Nat.two_pow_pos (p - k))
        rw [hm, Nat.mul_assoc, hpow]
        by_contra hlt
        have h5 : (c * 2 ^ p + 1) * b ≤ roundHalfEven (a * 2 ^ p) b * b :=
          Nat.mul_le_mul_right b (by omega)
        have h6 : a * 2 ^ p ≤ c * b * 2 ^ p := Nat.mul_le_mul_right _ h1
        have h7 : (c * 2 ^ p + 1) * b = c * b * 2 ^ p + b := by ring
        omega
      · -- nor the one below, which is further away than that
        refine Nat.lt_of_mul_lt_mul_right (a := 2 ^ (p - k)) ?_
        rw [Nat.add_mul, hm, Nat.mul_assoc, hpow]
        by_contra hle
        have h5 : (roundHalfEven (a * 2 ^ p) b + 2 ^ p) * b ≤ c * 2 ^ p * b :=
          Nat.mul_le_mul_right b (by omega)
        have h6 : (c * b + 1) * 2 ^ p ≤ (a + b) * 2 ^ p := Nat.mul_le_mul_right _ (by omega)
        have h7 : (roundHalfEven (a * 2 ^ p) b + 2 ^ p) * b =
            roundHalfEven (a * 2 ^ p) b * b + b * 2 ^ p := by ring
        have h8 : (c * b + 1) * 2 ^ p = c * 2 ^ p * b + 2 ^ p := by ring
        have h9 : (a + b) * 2 ^ p = a * 2 ^ p + b * 2 ^ p := by ring
        have h10 : 2 ^ 20 ≤ 2 ^ p := Nat.pow_le_pow_right (by decide) (by omega)
        omega
    unfold ceilQuotient
    rw [hratio]
    simp only [Float64.ceil]
    rw [if_neg (by omega), if_neg (by simp), neg_neg, Int.toNat_natCast, hceil]

end Python
