/-
  The check character of a machine ID (routing_auth.py, `machine_id_check_char`).

  The values of the characters, weighted by their positions, are added up modulo
  31, which is one less than there are letters.

  * `checkChar_substituted`, `checkChar_swapped`: which errors the check finds;
  * `checkChar_detects_iff`: it finds all that it should, unless the body has an
    `A` next to a `7`.
-/
import Mathlib.Data.Nat.ModEq
import Mathlib.Data.List.Nodup
import Mathlib.Tactic.Ring
import Mathlib.Tactic.NormNum.Prime
import MercuryRelay.Python.Text

set_option autoImplicit false

namespace MercuryRelay

open Python

/-- `MACHINE_ID_ALPHABET`. -/
def machineIdAlphabet : Str := lit "ABCDEFGHIJKLMNOPQRSTUVWXYZ234567"

def machineIdCheckModulus : ℕ := 31

namespace MachineId

/-- `MACHINE_ID_ALPHABET.index(c)`. -/
def index (c : ℕ) : ℕ := machineIdAlphabet.idxOf c

/-- The values of the characters, weighted from `weight` on. -/
def weighted : ℕ → Str → ℕ
  | _, [] => 0
  | weight, c :: s => weight * index c + weighted (weight + 1) s

/-- `machine_id_check_char`; `none` is the `RoutingTokenError("invalid_machine_id")`. -/
def checkChar (body : Str) : Option ℕ :=
  if body.length ≠ 24 ∨ body.any fun c => c ∉ machineIdAlphabet then none
  else machineIdAlphabet[weighted 1 body % machineIdCheckModulus]?

/-- The canonical form of a machine ID. -/
structure IsBody (body : Str) : Prop where
  length : body.length = 24
  letters : ∀ c ∈ body, c ∈ machineIdAlphabet

variable {body before after : Str} {a b : ℕ}

/-! ## Letters -/

theorem index_lt (h : a ∈ machineIdAlphabet) : index a < 32 := List.idxOf_lt_length_of_mem h

theorem index_inj (h : a ∈ machineIdAlphabet) : index a = index b ↔ a = b := List.idxOf_inj h

/-- The letters that the modulus does not tell apart. -/
def Blind (a b : ℕ) : Prop := a = 65 ∧ b = 55 ∨ a = 55 ∧ b = 65

instance : Decidable (Blind a b) := inferInstanceAs (Decidable (_ ∨ _))

/-- **Different letters** are congruent if they are `A` and `7` only. -/
theorem modEq_iff_blind (ha : a ∈ machineIdAlphabet) (hb : b ∈ machineIdAlphabet) (hne : a ≠ b) :
    index a ≡ index b [MOD machineIdCheckModulus] ↔ Blind a b := by
  have hindexA : index 65 = 0 := by decide
  have hindex7 : index 55 = 31 := by decide
  constructor
  · intro hmod
    have hx := index_lt ha
    have hy := index_lt hb
    have hxy : index a ≠ index b := fun h => hne ((index_inj ha).1 h)
    unfold Nat.ModEq machineIdCheckModulus at hmod
    have hends : index a = 0 ∧ index b = 31 ∨ index a = 31 ∧ index b = 0 := by omega
    rcases hends with ⟨h0, h31⟩ | ⟨h31, h0⟩
    · exact .inl ⟨(index_inj ha).1 (h0.trans hindexA.symm), (index_inj hb).1 (h31.trans hindex7.symm)⟩
    · exact .inr ⟨(index_inj ha).1 (h31.trans hindex7.symm), (index_inj hb).1 (h0.trans hindexA.symm)⟩
  · rintro (⟨rfl, rfl⟩ | ⟨rfl, rfl⟩)
    · rw [hindexA, hindex7]
      rfl
    · rw [hindexA, hindex7]
      rfl

/-! ## The sum -/

theorem weighted_append (weight : ℕ) (s t : Str) :
    weighted weight (s ++ t) = weighted weight s + weighted (weight + s.length) t := by
  induction s generalizing weight with
  | nil => simp [weighted]
  | cons c s ih =>
    rw [List.cons_append, weighted, ih, weighted, List.length_cons]
    ring_nf

theorem checkChar_eq (h : IsBody body) : checkChar body = machineIdAlphabet[weighted 1 body % machineIdCheckModulus]? := by
  rw [checkChar, if_neg]
  rintro (hlen | hletter)
  · exact hlen h.length
  · obtain ⟨c, hc, hno⟩ := List.any_eq_true.1 hletter
    exact of_decide_eq_true hno (h.letters c hc)

/-- The check characters agree where the sums are congruent. -/
theorem checkChar_eq_iff {body' : Str} (h : IsBody body) (h' : IsBody body') :
    checkChar body = checkChar body' ↔ weighted 1 body ≡ weighted 1 body' [MOD machineIdCheckModulus] := by
  have hnodup : machineIdAlphabet.Nodup := by decide
  have hlen : machineIdAlphabet.length = 32 := rfl
  have hlt : ∀ n, n % machineIdCheckModulus < machineIdAlphabet.length := fun n => by
    have hmod := Nat.mod_lt n (show 0 < machineIdCheckModulus by decide)
    have hmodulus : machineIdCheckModulus = 31 := rfl
    omega
  rw [checkChar_eq h, checkChar_eq h', List.getElem?_eq_getElem (hlt _), List.getElem?_eq_getElem (hlt _),
    Option.some_inj, hnodup.getElem_inj_iff]
  rfl

/-! ## Errors -/

theorem isBody_substituted (h : IsBody (before ++ a :: after)) (hb : b ∈ machineIdAlphabet) :
    IsBody (before ++ b :: after) := by
  constructor
  · rw [← h.length]
    simp
  · intro c hc
    rcases List.mem_append.1 hc with hc | hc
    · exact h.letters c (List.mem_append_left _ hc)
    · rcases List.mem_cons.1 hc with rfl | hc
      · exact hb
      · exact h.letters c (List.mem_append_right _ (List.mem_cons_of_mem a hc))

theorem isBody_swapped (h : IsBody (before ++ a :: b :: after)) : IsBody (before ++ b :: a :: after) := by
  have hperm : (before ++ b :: a :: after).Perm (before ++ a :: b :: after) := (List.Perm.swap a b after).append_left _
  exact ⟨hperm.length_eq.trans h.length, fun c hc => h.letters c (hperm.subset hc)⟩

/-- **A substitution** is found, unless it exchanges `A` and `7`. -/
theorem checkChar_substituted (h : IsBody (before ++ a :: after)) (hb : b ∈ machineIdAlphabet) (hne : a ≠ b) :
    checkChar (before ++ b :: after) ≠ checkChar (before ++ a :: after) ↔ ¬ Blind a b := by
  have ha := h.letters a (by simp)
  rw [ne_eq, checkChar_eq_iff (isBody_substituted h hb) h, ← modEq_iff_blind ha hb hne, weighted_append, weighted_append,
    weighted, weighted, not_iff_not]
  -- The weight is less than the modulus, which is a prime.
  have hcoprime : Nat.gcd machineIdCheckModulus (1 + before.length) = 1 := by
    have hprime : Nat.Prime machineIdCheckModulus := by
      unfold machineIdCheckModulus
      norm_num
    refine (Nat.Prime.coprime_iff_not_dvd hprime).2 fun hdvd => ?_
    have hle := Nat.le_of_dvd (by omega) hdvd
    have hlen := h.length
    rw [List.length_append, List.length_cons] at hlen
    unfold machineIdCheckModulus at hle
    omega
  constructor
  · intro hmod
    have hcancel := Nat.ModEq.add_right_cancel' _ (Nat.ModEq.add_left_cancel' _ hmod)
    exact (Nat.ModEq.cancel_left_of_coprime hcoprime hcancel).symm
  · intro hmod
    exact ((hmod.symm.mul_left _).add_right _).add_left _

/-- **A transposition** is found, unless it is of `A` and `7`. -/
theorem checkChar_swapped (h : IsBody (before ++ a :: b :: after)) (hne : a ≠ b) :
    checkChar (before ++ b :: a :: after) ≠ checkChar (before ++ a :: b :: after) ↔ ¬ Blind a b := by
  have ha := h.letters a (by simp)
  have hb := h.letters b (by simp)
  rw [ne_eq, checkChar_eq_iff (isBody_swapped h) h, ← modEq_iff_blind ha hb hne, not_iff_not]
  -- The sums differ by one letter of each.
  have hsum : ∀ x y, weighted 1 (before ++ x :: y :: after) = weighted 1 before +
      weighted (1 + before.length + 1 + 1) after + (1 + before.length) * (index x + index y) + index y := by
    intro x y
    rw [weighted_append, weighted, weighted]
    ring
  rw [hsum, hsum, Nat.add_comm (index b) (index a)]
  exact ⟨Nat.ModEq.add_left_cancel' _, Nat.ModEq.add_left _⟩

/-- All the errors are found that should be. -/
structure Detects (body : Str) : Prop where
  substitutions : ∀ before a after b, body = before ++ a :: after → b ∈ machineIdAlphabet → a ≠ b → ¬ Blind a b →
    checkChar (before ++ b :: after) ≠ checkChar body
  transpositions : ∀ before a b after, body = before ++ a :: b :: after → a ≠ b →
    checkChar (before ++ b :: a :: after) ≠ checkChar body

/-- **The check character detects errors** in a body if and only if it has no `A` next to a `7`. -/
theorem checkChar_detects_iff (h : IsBody body) :
    Detects body ↔ ¬ lit "A7" <:+: body ∧ ¬ lit "7A" <:+: body := by
  constructor
  · intro hdetects
    have hblind : ∀ a b, Blind a b → ¬ [a, b] <:+: body := by
      rintro a b hblind ⟨before, after, rfl⟩
      have hne : a ≠ b := by
        rintro rfl
        rcases hblind with ⟨rfl, h⟩ | ⟨rfl, h⟩ <;> cases h
      rw [List.append_assoc] at h hdetects
      exact (checkChar_swapped h hne).1 (hdetects.transpositions before a b after rfl hne) hblind
    exact ⟨hblind 65 55 (.inl ⟨rfl, rfl⟩), hblind 55 65 (.inr ⟨rfl, rfl⟩)⟩
  · rintro ⟨hA7, h7A⟩
    constructor
    · rintro before a after b rfl hb hne hblind
      exact (checkChar_substituted h hb hne).2 hblind
    · rintro before a b after rfl hne
      refine (checkChar_swapped h hne).2 ?_
      rintro (⟨rfl, rfl⟩ | ⟨rfl, rfl⟩)
      · exact hA7 ⟨before, after, by rw [List.append_assoc]; rfl⟩
      · exact h7A ⟨before, after, by rw [List.append_assoc]; rfl⟩

theorem checkChar_detects_tested : Detects (lit "TNBSRQZDX37NVQRQSAN7KRFL") :=
  (checkChar_detects_iff ⟨by decide +kernel, by decide +kernel⟩).2 ⟨by decide +kernel, by decide +kernel⟩

/-- An `A` and a `7` that change places are not noticed. -/
theorem checkChar_swap_unnoticed : IsBody (lit "A7BBBBBBBBBBBBBBBBBBBBBB") ∧ ¬ Detects (lit "A7BBBBBBBBBBBBBBBBBBBBBB") := by
  refine ⟨⟨by decide, by decide⟩, fun h => ?_⟩
  exact h.transpositions [] 65 55 (lit "BBBBBBBBBBBBBBBBBBBBBB") rfl (by decide) (by decide)

end MachineId

end MercuryRelay
