/-
  Rounding to binary64, as a function of the rational number that is rounded.

  `nearest` takes the power of two below a rational and rounds what is left.
  `Float64.ofRatio` and `Float64.ofDecimal` compute it from a numerator and a
  denominator.

  * `ofRatio_eq_nearest`, `ofDecimal_eq`: they compute it;
  * `nearest_of_near`: a rational near a float rounds to it.
-/
import Mathlib.Algebra.Order.Field.Power
import Mathlib.Algebra.Order.Floor.Semifield
import Mathlib.Data.Int.Log
import Mathlib.Data.Rat.Floor
import Mathlib.Tactic.FieldSimp
import Mathlib.Tactic.Linarith
import Mathlib.Tactic.Positivity
import MercuryRelay.Python.Digits

set_option autoImplicit false

namespace Python

/-! ## Rounding to a natural number -/

/-- The nearest natural number, ties to even. -/
def roundEven (q : ℚ) : ℕ :=
  if 1 / 2 < q - ⌊q⌋₊ ∨ (q - ⌊q⌋₊ = 1 / 2 ∧ ⌊q⌋₊ % 2 = 1) then ⌊q⌋₊ + 1 else ⌊q⌋₊

variable {a b m : ℕ} {q : ℚ} {e : ℤ} {neg : Bool}

theorem roundHalfEven_eq (hb : 0 < b) : roundHalfEven a b = roundEven ((a : ℚ) / b) := by
  have hfloor : ⌊(a : ℚ) / b⌋₊ = a / b := Nat.floor_div_eq_div a b
  have hbq : (0 : ℚ) < b := by exact_mod_cast hb
  have hfrac : (a : ℚ) / b - (a / b : ℕ) = (a % b : ℕ) / b := by
    have hdiv : (a : ℚ) = b * (a / b : ℕ) + (a % b : ℕ) := by exact_mod_cast (Nat.div_add_mod a b).symm
    rw [eq_div_iff hbq.ne', sub_mul, div_mul_cancel₀ _ hbq.ne']
    linarith
  unfold roundHalfEven roundEven
  dsimp only
  rw [hfloor, hfrac]
  have hlt : (1 / 2 < ((a % b : ℕ) : ℚ) / b) ↔ b < 2 * (a % b) := by
    rw [div_lt_div_iff₀ two_pos hbq, one_mul]
    constructor
    · intro h
      have h' : b < a % b * 2 := by exact_mod_cast h
      omega
    · intro h
      have h' : b < a % b * 2 := by omega
      exact_mod_cast h'
  have heq : ((a % b : ℕ) : ℚ) / b = 1 / 2 ↔ 2 * (a % b) = b := by
    rw [div_eq_div_iff hbq.ne' two_ne_zero, one_mul]
    constructor
    · intro h
      have h' : a % b * 2 = b := by exact_mod_cast h
      omega
    · intro h
      have h' : a % b * 2 = b := by omega
      exact_mod_cast h'
  simp only [hlt, heq]

/-- A rational within a half of a natural number rounds to it. -/
theorem roundEven_of_near (hlow : (m : ℚ) - 1 / 2 < q) (hhigh : q < m + 1 / 2) : roundEven q = m := by
  have hstay : ⌊q⌋₊ = m → roundEven q = m := by
    intro hfloor
    unfold roundEven
    rw [hfloor, if_neg]
    rintro (h | ⟨h, -⟩) <;> linarith
  rcases le_or_gt (m : ℚ) q with hq | hq
  · exact hstay ((Nat.floor_eq_iff (hq.trans' (Nat.cast_nonneg m))).2 ⟨hq, by linarith⟩)
  · cases m with
    | zero => exact hstay (Nat.floor_eq_zero.2 (by simpa using hq.trans_le (by simp)))
    | succ k =>
      push_cast at hlow hq
      have hk : (0 : ℚ) ≤ k := Nat.cast_nonneg k
      have hfloor : ⌊q⌋₊ = k := (Nat.floor_eq_iff (by linarith)).2 ⟨by linarith, by linarith⟩
      unfold roundEven
      rw [hfloor, if_pos (.inl (by linarith))]

theorem roundEven_le {n : ℕ} (h : q < n) : roundEven q ≤ n := by
  unfold roundEven
  rcases lt_or_ge q 0 with hq | hq
  · have hfloor : ⌊q⌋₊ = 0 := Nat.floor_of_nonpos hq.le
    rw [hfloor, if_neg]
    · exact Nat.zero_le n
    · rintro (h | ⟨h, -⟩)
      · simp only [Nat.cast_zero] at h
        linarith
      · simp only [Nat.cast_zero] at h
        linarith
  · have hfloor : ⌊q⌋₊ < n := (Nat.floor_lt hq).2 h
    split <;> omega

theorem le_roundEven {n : ℕ} (h : (n : ℚ) ≤ q) : n ≤ roundEven q := by
  have hfloor : n ≤ ⌊q⌋₊ := Nat.le_floor h
  unfold roundEven
  split <;> omega

/-! ## Scales -/

theorem zpow_toNat (base : ℕ) (he : 0 ≤ e) :
    ((base ^ e.toNat : ℕ) : ℚ) = (base : ℚ) ^ e := by
  rw [Nat.cast_pow, ← zpow_natCast, Int.toNat_of_nonneg he]

/-- A scaled fraction is the fraction, divided by a power of two. -/
theorem scale_eq (hb : 0 < b) : 0 < (scale a b e).2 ∧
    ((scale a b e).1 : ℚ) / (scale a b e).2 = (a : ℚ) / b / 2 ^ e := by
  have hbq : (b : ℚ) ≠ 0 := by exact_mod_cast hb.ne'
  unfold scale
  by_cases he : 0 ≤ e
  · rw [if_pos he]
    refine ⟨by positivity, ?_⟩
    rw [Nat.cast_mul, zpow_toNat 2 he, Nat.cast_ofNat, div_div]
  · rw [if_neg he]
    refine ⟨hb, ?_⟩
    rw [Nat.cast_mul, zpow_toNat (e := -e) 2 (by omega), Nat.cast_ofNat, zpow_neg]
    field_simp

/-- A scaled fraction is the fraction, divided by a power of ten. -/
theorem scale10_eq (hb : 0 < b) : 0 < (scale10 a b e).2 ∧
    ((scale10 a b e).1 : ℚ) / (scale10 a b e).2 = (a : ℚ) / b / 10 ^ e := by
  have hbq : (b : ℚ) ≠ 0 := by exact_mod_cast hb.ne'
  unfold scale10
  by_cases he : 0 ≤ e
  · rw [if_pos he]
    refine ⟨by positivity, ?_⟩
    rw [Nat.cast_mul, zpow_toNat 10 he, Nat.cast_ofNat, div_div]
  · rw [if_neg he]
    refine ⟨hb, ?_⟩
    rw [Nat.cast_mul, zpow_toNat (e := -e) 10 (by omega), Nat.cast_ofNat, zpow_neg]
    field_simp

theorem intLog_eq {base : ℕ} (hbase : 1 < base) (hq : 0 < q) {z : ℤ} (hlow : (base : ℚ) ^ z ≤ q)
    (hhigh : q < (base : ℚ) ^ (z + 1)) : Int.log base q = z := by
  have h1 := (Int.zpow_le_iff_le_log hbase hq).1 hlow
  have h2 := (Int.lt_zpow_iff_log_lt hbase hq).1 hhigh
  omega

/-- The power of two below a fraction, from those below its parts. -/
theorem log_ratio (ha : 0 < a) (hb : 0 < b) : Int.log 2 ((a : ℚ) / b) =
    if (scale a b (Nat.log2 a - Nat.log2 b)).1 < (scale a b (Nat.log2 a - Nat.log2 b)).2
      then (Nat.log2 a - Nat.log2 b : ℤ) - 1 else Nat.log2 a - Nat.log2 b := by
  have haq : (0 : ℚ) < a := by exact_mod_cast ha
  have hbq : (0 : ℚ) < b := by exact_mod_cast hb
  have hq : (0 : ℚ) < (a : ℚ) / b := div_pos haq hbq
  obtain ⟨hd, hscale⟩ := @scale_eq a b (Nat.log2 a - Nat.log2 b) hb
  generalize hg : (Nat.log2 a - Nat.log2 b : ℤ) = g at hd hscale ⊢
  have hdq : (0 : ℚ) < (scale a b g).2 := by exact_mod_cast hd
  have hpow : (0 : ℚ) < 2 ^ g := by positivity
  have hlt : (scale a b g).1 < (scale a b g).2 ↔ (a : ℚ) / b < 2 ^ g := by
    rw [← div_lt_one hpow, ← hscale, div_lt_one hdq]
    exact_mod_cast Iff.rfl
  have ha1 : (2 : ℚ) ^ (Nat.log2 a : ℤ) ≤ a := by
    rw [zpow_natCast]
    exact_mod_cast Nat.log2_self_le ha.ne'
  have ha2 : (a : ℚ) < 2 ^ (Nat.log2 a + 1 : ℤ) := by
    have h : (a : ℚ) < 2 ^ (Nat.log2 a + 1) := by exact_mod_cast @Nat.lt_log2_self a
    exact_mod_cast h
  have hb1 : (2 : ℚ) ^ (Nat.log2 b : ℤ) ≤ b := by
    rw [zpow_natCast]
    exact_mod_cast Nat.log2_self_le hb.ne'
  have hb2 : (b : ℚ) < 2 ^ (Nat.log2 b + 1 : ℤ) := by
    have h : (b : ℚ) < 2 ^ (Nat.log2 b + 1) := by exact_mod_cast @Nat.lt_log2_self b
    exact_mod_cast h
  have hlow : (2 : ℚ) ^ (g - 1) ≤ (a : ℚ) / b := by
    rw [le_div_iff₀ hbq]
    calc (2 : ℚ) ^ (g - 1) * b ≤ 2 ^ (g - 1) * 2 ^ (Nat.log2 b + 1 : ℤ) := by gcongr
      _ = 2 ^ (Nat.log2 a : ℤ) := by
        rw [← zpow_add₀ two_ne_zero]
        congr 1
        omega
      _ ≤ a := ha1
  have hhigh : (a : ℚ) / b < 2 ^ (g + 1) := by
    rw [div_lt_iff₀ hbq]
    calc (a : ℚ) < 2 ^ (Nat.log2 a + 1 : ℤ) := ha2
      _ = 2 ^ (g + 1) * 2 ^ (Nat.log2 b : ℤ) := by
        rw [← zpow_add₀ two_ne_zero]
        congr 1
        omega
      _ ≤ 2 ^ (g + 1) * b := by gcongr
  split
  · rename_i h
    refine intLog_eq one_lt_two hq (by exact_mod_cast hlow) ?_
    rw [sub_add_cancel]
    exact_mod_cast hlt.1 h
  · rename_i h
    refine intLog_eq one_lt_two hq ?_ (by exact_mod_cast hhigh)
    exact_mod_cast not_lt.1 (mt hlt.2 h)

/-! ## Rounding to a float -/

namespace Float64

/-- A rounded mantissa and its exponent; a mantissa of 54 bits is carried. -/
def pack (neg : Bool) (m : ℕ) (e : ℤ) : Float64 :=
  let (m, e) := if m = 2 ^ 53 then (2 ^ 52, e + 1) else (m, e)
  if 971 < e then .inf neg else .finite neg m (if m = 0 then 0 else e)

/-- The exponent of the last bit of a rational. -/
def lastBit (q : ℚ) : ℤ := max (-1074) (Int.log 2 q - 52)

/-- The nearest float, ties to even. -/
def nearest (neg : Bool) (q : ℚ) : Float64 :=
  if q = 0 then .finite neg 0 0 else pack neg (roundEven (q / 2 ^ lastBit q)) (lastBit q)

/-- **A fraction is rounded as the rational it is.** -/
theorem ofRatio_eq_nearest (hb : 0 < b) : ofRatio neg a b = nearest neg ((a : ℚ) / b) := by
  have hbq : (b : ℚ) ≠ 0 := by exact_mod_cast hb.ne'
  unfold ofRatio nearest
  by_cases ha : a = 0
  · rw [if_pos ha, if_pos (by simp [ha])]
  · rw [if_neg ha, if_neg (by simp [ha, hbq])]
    have hlog := log_ratio (Nat.pos_of_ne_zero ha) hb
    obtain ⟨hd, hscale⟩ := @scale_eq a b (lastBit ((a : ℚ) / b)) hb
    dsimp only
    rw [← hlog, ← lastBit, roundHalfEven_eq hd, hscale]
    rfl

/-- The decimal literal of a rational; far exponents are answered first. -/
def decimal (neg : Bool) (q : ℚ) : Float64 :=
  if q = 0 then .finite neg 0 0
  else if 310 < Int.log 10 q + 1 then .inf neg
  else if Int.log 10 q + 1 < -325 then .finite neg 0 0
  else nearest neg q

theorem log_decimal (ha : 0 < a) : Int.log 10 ((a : ℚ) * 10 ^ e) + 1 = (natDigits a).length + e := by
  have haq : (0 : ℚ) < a := by exact_mod_cast ha
  have hlow : (10 ^ Nat.log 10 a : ℕ) ≤ a := Nat.pow_log_le_self 10 ha.ne'
  have hhigh : a < 10 ^ (Nat.log 10 a + 1) := Nat.lt_pow_succ_log_self (by decide) a
  have hlowq : (10 : ℚ) ^ (Nat.log 10 a : ℤ) ≤ a := by
    rw [zpow_natCast]
    exact_mod_cast hlow
  have hhighq : (a : ℚ) < 10 ^ (Nat.log 10 a + 1 : ℤ) := by
    have h : (a : ℚ) < 10 ^ (Nat.log 10 a + 1) := by exact_mod_cast hhigh
    exact_mod_cast h
  have hlog : Int.log 10 ((a : ℚ) * 10 ^ e) = Nat.log 10 a + e := by
    refine intLog_eq (by decide) (by positivity) ?_ ?_
    · rw [zpow_add₀ (by norm_num)]
      push_cast
      gcongr
    · rw [add_right_comm, zpow_add₀ (by norm_num)]
      push_cast
      gcongr
  rw [hlog, length_natDigits ha]
  push_cast
  ring

/-- **A literal is read as the rational it is.** -/
theorem ofDecimal_eq : ofDecimal neg a e = decimal neg ((a : ℚ) * 10 ^ e) := by
  have hten : ((10 : ℚ) ^ e) ≠ 0 := by positivity
  unfold ofDecimal decimal
  dsimp only
  by_cases ha : a = 0
  · rw [if_pos ha, if_pos (by simp [ha])]
  · have hq : (a : ℚ) * 10 ^ e ≠ 0 := mul_ne_zero (by exact_mod_cast ha) hten
    rw [if_neg ha, if_neg hq, log_decimal (Nat.pos_of_ne_zero ha)]
    split
    · rfl
    · split
      · rfl
      · split
        · rename_i he
          rw [ofRatio_eq_nearest one_pos, Nat.cast_mul, zpow_toNat 10 he]
          simp
        · rename_i he
          rw [ofRatio_eq_nearest (by positivity), zpow_toNat (e := -e) 10 (by omega), zpow_neg]
          simp

/-! ## Floats round to themselves -/

/-- The mantissa and the exponent of a float: 53 bits, the first of them set unless the exponent
    is the least. -/
structure Normal (m : ℕ) (e : ℤ) : Prop where
  bits : m < 2 ^ 53
  least : -1074 ≤ e
  most : e ≤ 971
  leading : 2 ^ 52 ≤ m ∨ e = -1074

theorem pack_normal (hm : 0 < m) (h : Normal m e) : pack neg m e = .finite neg m e := by
  unfold pack
  rw [if_neg (Nat.ne_of_lt h.bits)]
  dsimp only
  rw [if_neg (not_lt.2 h.most), if_neg hm.ne']

/-- What a rational rounds to, from its last bit. -/
theorem nearest_of_lastBit (hq : 0 < q) (hbit : lastBit q = e) (hlow : ((m : ℚ) - 1 / 2) * 2 ^ e < q)
    (hhigh : q < (m + 1 / 2) * 2 ^ e) : nearest neg q = pack neg m e := by
  have hu : (0 : ℚ) < 2 ^ e := by positivity
  have hround : roundEven (q / 2 ^ e) = m := by
    apply roundEven_of_near
    · rw [lt_div_iff₀ hu]
      exact hlow
    · rw [div_lt_iff₀ hu]
      exact hhigh
  unfold nearest
  rw [if_neg hq.ne', hbit, hround]

/-- **A rational near a float rounds to it**: within half a unit of its last bit, or a quarter
    below a power of two. -/
theorem nearest_of_near (hm : 0 < m) (h : Normal m e) (hlow : ((m : ℚ) - 1 / 2) * 2 ^ e < q)
    (hhigh : q < (m + 1 / 2) * 2 ^ e) (hquarter : m = 2 ^ 52 → ((m : ℚ) - 1 / 4) * 2 ^ e < q) :
    nearest neg q = .finite neg m e := by
  have hu : (0 : ℚ) < 2 ^ e := by positivity
  have hmq : (1 : ℚ) ≤ m := by exact_mod_cast hm
  have hq : 0 < q := by
    refine hlow.trans' (mul_pos ?_ hu)
    linarith
  have hbits : (m : ℚ) + 1 ≤ 2 ^ 53 := by exact_mod_cast h.bits
  have hsplit : ∀ k : ℕ, ((2 : ℕ) : ℚ) ^ (e + k) = 2 ^ k * 2 ^ e := by
    intro k
    rw [Nat.cast_ofNat, zpow_add₀ two_ne_zero, zpow_natCast, mul_comm]
  rcases le_or_gt (2 ^ 52 * 2 ^ e) q with hbig | hsmall
  · -- the leading bit of the rational is that of the float
    have hlog : Int.log 2 q = e + 52 := by
      refine intLog_eq one_lt_two hq ?_ ?_
      · exact (hsplit 52).trans_le hbig
      · have hexp : (e + 52 + 1 : ℤ) = e + (53 : ℕ) := by push_cast; ring
        rw [hexp, hsplit 53]
        refine hhigh.trans ?_
        gcongr
        linarith
    have hbit : lastBit q = e := by
      have hleast := h.least
      unfold lastBit
      omega
    rw [nearest_of_lastBit hq hbit hlow hhigh, pack_normal hm h]
  · have hlog : Int.log 2 q < e + 52 := by
      refine (Int.lt_zpow_iff_log_lt one_lt_two hq).1 ?_
      exact hsmall.trans_eq (hsplit 52).symm
    by_cases he : e = -1074
    · have hbit : lastBit q = e := by
        unfold lastBit
        omega
      rw [nearest_of_lastBit hq hbit hlow hhigh, pack_normal hm h]
    · -- a power of two, and the rational is below it
      have hleading := h.leading.resolve_right he
      have hm52 : m = 2 ^ 52 := by
        have hlt : (m : ℚ) - 1 / 2 < 2 ^ 52 := lt_of_mul_lt_mul_right (hlow.trans hsmall) hu.le
        have hlt' : (m : ℚ) < (2 ^ 52 + 1 : ℕ) := by push_cast; linarith
        have hle : m < 2 ^ 52 + 1 := by exact_mod_cast hlt'
        omega
      have hquarter := hquarter hm52
      subst hm52
      have hhalf : (2 : ℚ) ^ (e - 1) = 2 ^ e / 2 := by
        rw [zpow_sub₀ two_ne_zero, zpow_one]
      have hlog' : Int.log 2 q = e + 51 := by
        have hle : e + 51 ≤ Int.log 2 q := by
          refine (Int.zpow_le_iff_le_log one_lt_two hq).1 ?_
          refine (hsplit 51).trans_le (hquarter.le.trans' ?_)
          gcongr
          norm_num
        omega
      have hbit : lastBit q = e - 1 := by
        have hleast := h.least
        unfold lastBit
        omega
      have hcarry : nearest neg q = pack neg (2 ^ 53) (e - 1) := by
        refine nearest_of_lastBit hq hbit ?_ ?_
        · rw [hhalf]
          push_cast at hquarter ⊢
          linarith
        · rw [hhalf]
          push_cast
          linarith
      have hmost := h.most
      rw [hcarry, pack, if_pos rfl]
      dsimp only
      rw [sub_add_cancel, if_neg (not_lt.2 hmost), if_neg (by norm_num)]

/-! ## Values -/

/-- A float that is kept in its form: a zero, a float of 53 bits, or an infinity. -/
def Canonical : Float64 → Prop
  | .inf _ => True
  | .finite _ m e => m = 0 ∧ e = 0 ∨ 0 < m ∧ Normal m e

theorem value_finite (neg : Bool) (m : ℕ) (e : ℤ) :
    (Float64.finite neg m e).value = (if neg then -1 else 1) * (m * 2 ^ e) := by
  unfold value
  dsimp only
  congr 1
  by_cases he : 0 ≤ e
  · rw [if_pos he, Nat.cast_mul, zpow_toNat 2 he, Nat.cast_ofNat]
  · rw [if_neg he, zpow_toNat (e := -e) 2 (by omega), Nat.cast_ofNat, zpow_neg, div_inv_eq_mul]

theorem ofRat_eq (q : ℚ) : ofRat q = nearest (q < 0) |q| := by
  have habs : ((q.num.natAbs : ℕ) : ℚ) / q.den = |q| := by
    conv_rhs => rw [← Rat.num_div_den q]
    rw [abs_div, Nat.abs_cast, Nat.cast_natAbs, Int.cast_abs]
  unfold ofRat
  rw [ofRatio_eq_nearest q.den_pos, habs]

/-- What a positive rational rounds to. -/
theorem nearest_canonical (hq : 0 < q) : (nearest neg q).Canonical := by
  have hu : (0 : ℚ) < 2 ^ lastBit q := by positivity
  have hlow := Int.zpow_log_le_self one_lt_two hq
  have hhigh := Int.lt_zpow_succ_log_self one_lt_two q
  rw [Nat.cast_ofNat] at hlow hhigh
  have hbit : -1074 ≤ lastBit q := le_max_left _ _
  have hbit' : Int.log 2 q - 52 ≤ lastBit q := le_max_right _ _
  have hround : roundEven (q / 2 ^ lastBit q) ≤ 2 ^ 53 := by
    refine roundEven_le ?_
    rw [div_lt_iff₀ hu]
    refine hhigh.trans_le ?_
    have hpow : ((2 ^ 53 : ℕ) : ℚ) * 2 ^ lastBit q = 2 ^ ((53 : ℕ) + lastBit q) := by
      rw [zpow_add₀ two_ne_zero, zpow_natCast]
      push_cast
      rfl
    rw [hpow]
    refine zpow_le_zpow_right₀ one_le_two ?_
    push_cast
    omega
  have hleading : 2 ^ 52 ≤ roundEven (q / 2 ^ lastBit q) ∨ lastBit q = -1074 := by
    rcases lt_or_ge (Int.log 2 q - 52) (-1074) with h | h
    · right
      unfold lastBit
      omega
    · left
      refine le_roundEven ?_
      rw [le_div_iff₀ hu]
      refine hlow.trans' ?_
      have hexp : lastBit q = Int.log 2 q - 52 := max_eq_right h
      have hpow : ((2 ^ 52 : ℕ) : ℚ) * 2 ^ lastBit q = 2 ^ ((52 : ℕ) + lastBit q) := by
        rw [zpow_add₀ two_ne_zero, zpow_natCast]
        push_cast
        rfl
      rw [hpow, hexp]
      refine zpow_le_zpow_right₀ one_le_two ?_
      push_cast
      omega
  unfold nearest
  rw [if_neg hq.ne']
  generalize roundEven (q / 2 ^ lastBit q) = m at hround hleading
  generalize lastBit q = e at hbit hleading
  unfold pack
  by_cases hcarry : m = 2 ^ 53
  · rw [if_pos hcarry]
    dsimp only
    split
    · trivial
    · rename_i hmost
      rw [if_neg (by norm_num)]
      refine .inr ⟨by norm_num, by norm_num, ?_, not_lt.1 hmost, .inl (Nat.le_refl _)⟩
      omega
  · rw [if_neg hcarry]
    dsimp only
    split
    · trivial
    · rename_i hmost
      rcases Nat.eq_zero_or_pos m with rfl | hpos
      · exact .inl ⟨rfl, rfl⟩
      · rw [if_neg hpos.ne']
        exact .inr ⟨hpos, by omega, hbit, not_lt.1 hmost, hleading⟩

/-- A rational that a float equals. -/
def IsValue (q : ℚ) : Prop := (ofRat q).Canonical ∧ (ofRat q).value = q

theorem isValue_zero : IsValue 0 := by
  unfold IsValue
  rw [ofRat_eq]
  simp [nearest, Canonical, value]

theorem isValue_inf (neg : Bool) : IsValue (Float64.inf neg).value := by
  have hpow : (2 : ℚ) ^ 1024 = 2 ^ (1024 : ℤ) := by rw [zpow_ofNat]
  have hpos : (0 : ℚ) < 2 ^ (1024 : ℤ) := by positivity
  have hlog : Int.log 2 ((2 : ℚ) ^ (1024 : ℤ)) = 1024 := by
    have h := Int.log_zpow (R := ℚ) one_lt_two 1024
    rwa [Nat.cast_ofNat] at h
  have hbit : lastBit ((2 : ℚ) ^ (1024 : ℤ)) = 972 := by
    unfold lastBit
    rw [hlog]
    rfl
  have hdiv : (2 : ℚ) ^ (1024 : ℤ) / 2 ^ (972 : ℤ) = (2 ^ 52 : ℕ) := by
    rw [← zpow_sub₀ two_ne_zero, show (1024 - 972 : ℤ) = (52 : ℕ) from rfl, zpow_natCast]
    push_cast
    rfl
  have hround : roundEven ((2 ^ 52 : ℕ) : ℚ) = 2 ^ 52 := roundEven_of_near (by linarith) (by linarith)
  have hnearest : ∀ neg, nearest neg ((2 : ℚ) ^ (1024 : ℤ)) = .inf neg := by
    intro neg
    unfold nearest
    rw [if_neg hpos.ne', hbit, hdiv, hround]
    rfl
  have hsign : ∀ neg : Bool, ofRat ((if neg then -1 else 1) * 2 ^ (1024 : ℤ)) = .inf neg := by
    intro neg
    rw [ofRat_eq]
    cases neg with
    | false =>
      simp only [Bool.false_eq_true, if_false, one_mul, abs_of_pos hpos, hnearest, not_lt.2 hpos.le, decide_false]
    | true =>
      simp only [if_true, neg_one_mul, abs_neg, abs_of_pos hpos, hnearest, neg_neg_of_pos hpos, decide_true]
  have hvalue : (Float64.inf neg).value = (if neg then -1 else 1) * 2 ^ (1024 : ℤ) := by
    rw [value, hpow]
  unfold IsValue
  rw [hvalue, hsign]
  exact ⟨trivial, hvalue⟩

theorem isValue_finite (hm : 0 < m) (h : Normal m e) (neg : Bool) : IsValue (Float64.finite neg m e).value := by
  have hu : (0 : ℚ) < 2 ^ e := by positivity
  have hmq : (0 : ℚ) < m := by exact_mod_cast hm
  have hpos : (0 : ℚ) < m * 2 ^ e := mul_pos hmq hu
  have hnearest : ∀ neg, nearest neg (m * 2 ^ e) = .finite neg m e := by
    intro neg
    refine nearest_of_near hm h ?_ ?_ ?_
    · rw [sub_mul]
      linarith
    · rw [add_mul]
      linarith
    · intro _
      rw [sub_mul]
      linarith
  have hsign : ofRat ((if neg then -1 else 1) * (m * 2 ^ e)) = .finite neg m e := by
    rw [ofRat_eq]
    cases neg with
    | false =>
      simp only [Bool.false_eq_true, if_false, one_mul, abs_of_pos hpos, hnearest, not_lt.2 hpos.le, decide_false]
    | true =>
      simp only [if_true, neg_one_mul, abs_neg, abs_of_pos hpos, hnearest, neg_neg_of_pos hpos, decide_true]
  unfold IsValue
  rw [value_finite, hsign]
  exact ⟨.inr ⟨hm, h⟩, value_finite neg m e⟩

/-- **The value of a rounded rational is that of a float.** -/
theorem isValue_ofRat (q : ℚ) : IsValue (ofRat q).value := by
  rcases eq_or_ne q 0 with rfl | hq
  · rw [isValue_zero.2]
    exact isValue_zero
  · rw [ofRat_eq]
    have h := @nearest_canonical |q| (decide (q < 0)) (abs_pos.2 hq)
    cases hround : nearest (decide (q < 0)) |q| with
    | inf neg => exact isValue_inf _
    | finite neg m e =>
      rw [hround] at h
      rcases h with ⟨rfl, rfl⟩ | ⟨hpos, hm⟩
      · rw [value_finite]
        simpa using isValue_zero
      · exact isValue_finite hpos hm _

end Float64

/-- What `+` yields is the value of a float. -/
theorem isValue_floatSum (a b : ℚ) : Float64.IsValue (floatSum a b) := Float64.isValue_ofRat (a + b)

end Python
