/-
  The decimal digits of a number, as a writer and a reader see them.

  * `digitsValue_natDigits`: the digits of a number have its value;
  * `length_natDigits`: how many there are;
  * `takeDigits_append`: a reader stops where they end.
-/
import Mathlib.Data.List.Induction
import Mathlib.Data.Nat.Log
import Mathlib.Tactic.Ring
import MercuryRelay.Python.Json

set_option autoImplicit false

namespace Python

variable {n d : ℕ} {s t ds : Str}

/-- A decimal digit. -/
def IsDigit (c : ℕ) : Prop := 48 ≤ c ∧ c ≤ 57

instance (c : ℕ) : Decidable (IsDigit c) := by unfold IsDigit; infer_instance

/-- Decimal digits only. -/
def Digits (s : Str) : Prop := ∀ c ∈ s, IsDigit c

instance (s : Str) : Decidable (Digits s) := by unfold Digits; infer_instance

theorem Digits.append (hs : Digits s) (ht : Digits t) : Digits (s ++ t) := fun c hc =>
  (List.mem_append.1 hc).elim (hs c) (ht c)

theorem Digits.subset (ht : Digits t) (h : s ⊆ t) : Digits s := fun c hc => ht c (h hc)

theorem digits_zeros (n : ℕ) : Digits (List.replicate n 48) := fun c hc => by
  rw [List.eq_of_mem_replicate hc]
  decide

/-! ## The digits of a number -/

theorem natDigits_of_lt (h : n < 10) : natDigits n = [48 + n] := by
  have hchar : ∀ n, n < 10 → (Nat.digitChar n).toNat = 48 + n := by decide
  rw [natDigits, Nat.toDigits_of_lt_base h, List.map_cons, hchar n h]
  rfl

theorem natDigits_of_le (h : 10 ≤ n) : natDigits n = natDigits (n / 10) ++ [48 + n % 10] := by
  have hlast : n % 10 < 10 := Nat.mod_lt n (by decide)
  rw [← natDigits_of_lt hlast, natDigits, natDigits, natDigits, ← List.map_append,
    Nat.toDigits_of_base_le (by decide) h, Nat.toDigits_of_lt_base hlast]

/-- The digits are written one after another, the last one last. -/
theorem natDigits_induction {P : ℕ → Prop} (small : ∀ n, n < 10 → P n)
    (step : ∀ n, 10 ≤ n → P (n / 10) → P n) (n : ℕ) : P n := by
  induction n using Nat.strong_induction_on with
  | _ n ih =>
    rcases Nat.lt_or_ge n 10 with h | h
    · exact small n h
    · exact step n h (ih (n / 10) (by omega))

theorem natDigits_digits (n : ℕ) : Digits (natDigits n) := by
  induction n using natDigits_induction with
  | small n h =>
    intro c hc
    rw [natDigits_of_lt h, List.mem_singleton] at hc
    unfold IsDigit
    omega
  | step n h ih =>
    rw [natDigits_of_le h]
    refine ih.append ?_
    intro c hc
    rw [List.mem_singleton] at hc
    unfold IsDigit
    omega

theorem natDigits_ne_nil (n : ℕ) : natDigits n ≠ [] := by
  rcases Nat.lt_or_ge n 10 with h | h
  · simp [natDigits_of_lt h]
  · simp [natDigits_of_le h]

/-- Only zero begins with a zero. -/
theorem natDigits_head (h : 0 < n) : ∃ c ds, natDigits n = c :: ds ∧ 49 ≤ c ∧ c ≤ 57 := by
  induction n using natDigits_induction with
  | small n hn => exact ⟨48 + n, [], natDigits_of_lt hn, by omega, by omega⟩
  | step n hn ih =>
    obtain ⟨c, ds, hds, hc⟩ := ih (by omega)
    refine ⟨c, ds ++ [48 + n % 10], ?_, hc⟩
    rw [natDigits_of_le hn, hds, List.cons_append]

/-! ## Values -/

@[simp] theorem digitsValue_nil : digitsValue [] = 0 := rfl

theorem digitsValue_snoc (ds : Str) (c : ℕ) : digitsValue (ds ++ [c]) = digitsValue ds * 10 + (c - 48) := by
  simp [digitsValue]

/-- A digit before the others counts ten to their number. -/
theorem digitsValue_append (s t : Str) :
    digitsValue (s ++ t) = digitsValue s * 10 ^ t.length + digitsValue t := by
  induction t using List.reverseRecOn with
  | nil => simp
  | append_singleton t c ih =>
    rw [← List.append_assoc, digitsValue_snoc, digitsValue_snoc, ih, List.length_append,
      List.length_singleton, pow_succ]
    ring

theorem digitsValue_zeros (n : ℕ) : digitsValue (List.replicate n 48) = 0 := by
  induction n with
  | zero => rfl
  | succ n ih => rw [List.replicate_succ', digitsValue_snoc, ih]

/-- Zeros after a number. -/
theorem digitsValue_append_zeros (s : Str) (n : ℕ) :
    digitsValue (s ++ List.replicate n 48) = digitsValue s * 10 ^ n := by
  rw [digitsValue_append, digitsValue_zeros, List.length_replicate, Nat.add_zero]

/-- Zeros before a number. -/
theorem digitsValue_zeros_append (n : ℕ) (s : Str) :
    digitsValue (List.replicate n 48 ++ s) = digitsValue s := by
  rw [digitsValue_append, digitsValue_zeros, Nat.zero_mul, Nat.zero_add]

/-- **The digits of a number have its value.** -/
theorem digitsValue_natDigits (n : ℕ) : digitsValue (natDigits n) = n := by
  induction n using natDigits_induction with
  | small n h =>
    rw [natDigits_of_lt h]
    simp [digitsValue]
  | step n h ih =>
    rw [natDigits_of_le h, digitsValue_snoc, ih]
    omega

theorem natDigits_injective {m n : ℕ} (h : natDigits m = natDigits n) : m = n := by
  rw [← digitsValue_natDigits m, h, digitsValue_natDigits]

/-- **How many digits a number has.** -/
theorem length_natDigits (h : 0 < n) : (natDigits n).length = Nat.log 10 n + 1 := by
  induction n using natDigits_induction with
  | small n hn => rw [natDigits_of_lt hn, Nat.log_of_lt hn, List.length_singleton]
  | step n hn ih =>
    rw [natDigits_of_le hn, List.length_append, ih (by omega), Nat.log_of_one_lt_of_le (by decide) hn]
    rfl

/-- The digits of a power of ten. -/
theorem natDigits_pow (k : ℕ) : natDigits (10 ^ k) = 49 :: List.replicate k 48 := by
  induction k with
  | zero => exact natDigits_of_lt (by decide)
  | succ k ih =>
    have hle : 10 ≤ 10 ^ (k + 1) := Nat.le_self_pow (Nat.succ_ne_zero k) 10
    have hdiv : 10 ^ (k + 1) / 10 = 10 ^ k := by rw [pow_succ, Nat.mul_div_cancel _ (by decide)]
    have hmod : 10 ^ (k + 1) % 10 = 0 := by rw [pow_succ, Nat.mul_mod_left]
    rw [natDigits_of_le hle, hdiv, hmod, ih, List.replicate_succ']
    rfl

/-! ## Reading -/

/-- No digit follows. -/
def NoDigit (s : Str) : Prop := ∀ c ∈ s.head?, ¬ IsDigit c

theorem takeDigits_none (h : NoDigit s) : takeDigits s = ([], s) := by
  cases s with
  | nil => rfl
  | cons c s =>
    have hc : ¬ (48 ≤ c ∧ c ≤ 57) := h c rfl
    rw [takeDigits, if_neg hc]

/-- **A reader takes the digits, and stops where they end.** -/
theorem takeDigits_append (hs : Digits ds) (ht : NoDigit t) : takeDigits (ds ++ t) = (ds, t) := by
  induction ds with
  | nil => exact takeDigits_none ht
  | cons c ds ih =>
    have hc : 48 ≤ c ∧ c ≤ 57 := hs c List.mem_cons_self
    rw [List.cons_append, takeDigits, if_pos hc, ih (hs.subset (List.subset_cons_self c ds))]

end Python
