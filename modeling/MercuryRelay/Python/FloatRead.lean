/-
  What `float.__repr__` writes is read as the float it was.

  * `shortestFrom_spec`: the digits round to the float; seventeen are enough;
  * `readValue_floatRepr`: the text is read as the float.
-/
import Mathlib.Data.List.TakeWhile
import MercuryRelay.Python.FloatRound

set_option autoImplicit false

namespace Python

variable {a b k m size tries : ℕ} {q : ℚ} {e point : ℤ} {neg : Bool} {s t ds fs : Str} {x : Float64}

/-! ## Reading a number -/

/-- A number ends here. -/
def Ends (t : Str) : Prop := ∀ c ∈ t.head?, ¬ IsDigit c ∧ c ≠ 46 ∧ c ≠ 101 ∧ c ≠ 69

/-- The digits before the point: a zero alone, or no zero first. -/
inductive Whole : Str → Prop
  | zero : Whole [48]
  | cons {c ds} : 49 ≤ c → c ≤ 57 → Digits ds → Whole (c :: ds)

theorem Ends.noDigit (h : Ends t) : NoDigit t := fun c hc => (h c hc).1

theorem readExponent_ends (h : Ends t) : readExponent t = none := by
  cases t with
  | nil => rfl
  | cons c t =>
    obtain ⟨-, -, h1, h2⟩ := h c rfl
    unfold readExponent
    exact if_neg (by simp [h1, h2])

theorem Whole.digits (h : Whole ds) : Digits ds := by
  cases h with
  | zero => decide
  | cons h1 h2 hds =>
    intro c hc
    rcases List.mem_cons.1 hc with rfl | hc
    · unfold IsDigit
      omega
    · exact hds c hc

/-- The digits before the point, and the rest. -/
def wholePart : Str → Option (Str × Str)
  | 48 :: t => some ([48], t)
  | c :: t => if 49 ≤ c ∧ c ≤ 57 then some (takeDigits (c :: t)) else none
  | [] => none

/-- The digits after the point, and the rest. -/
def fractionPart (t : Str) : Str × Str :=
  match t with
  | 46 :: u =>
    match takeDigits u with
    | ([], _) => ([], t)
    | (fs, u) => (fs, u)
  | _ => ([], t)

/-- The number that has these digits, and the exponent that follows. -/
def numberOf (neg : Bool) (ds fs t : Str) : Option (Json × Str) :=
  match fs, readExponent t with
  | [], none =>
    if intMaxStrDigits < ds.length then none
    else some (.int (if neg then -(digitsValue ds : ℤ) else digitsValue ds), t)
  | fs, none => some (.float (.ofDecimal neg (digitsValue (ds ++ fs)) (-fs.length)), t)
  | fs, some (e, t) => some (.float (.ofDecimal neg (digitsValue (ds ++ fs)) (e - fs.length)), t)

/-- A number is read part by part. -/
theorem readNumber_eq (neg : Bool) (s : Str) : readNumber neg s = match wholePart s with
    | none => none
    | some (ds, t) => numberOf neg ds (fractionPart t).1 (fractionPart t).2 := rfl

theorem Whole.read (h : Whole ds) (ht : NoDigit t) : wholePart (ds ++ t) = some (ds, t) := by
  have hdigits := h.digits
  cases h with
  | zero => rfl
  | @cons c ds h1 h2 hds =>
    have htake := takeDigits_append hdigits ht
    rw [List.cons_append] at htake ⊢
    unfold wholePart
    split
    · rename_i heq
      have hc := (List.cons.inj heq).1
      omega
    · rename_i heq
      obtain ⟨rfl, rfl⟩ := List.cons.inj heq
      rw [if_pos ⟨h1, h2⟩, htake]
    · rename_i heq
      cases heq

theorem fractionPart_none (h : ∀ u, t ≠ 46 :: u) : fractionPart t = ([], t) := by
  unfold fractionPart
  split
  · rename_i u
    exact absurd rfl (h u)
  · rfl

theorem fractionPart_point (hfs : Digits fs) (hne : fs ≠ []) (ht : NoDigit t) :
    fractionPart (46 :: (fs ++ t)) = (fs, t) := by
  unfold fractionPart
  simp only [takeDigits_append hfs ht]


theorem numberOf_float (h : fs ≠ []) : numberOf neg ds fs t = match readExponent t with
    | none => some (.float (.ofDecimal neg (digitsValue (ds ++ fs)) (-fs.length)), t)
    | some (e, u) => some (.float (.ofDecimal neg (digitsValue (ds ++ fs)) (e - fs.length)), u) := by
  unfold numberOf
  cases fs with
  | nil => exact absurd rfl h
  | cons c fs => cases readExponent t <;> rfl

theorem numberOf_nil : numberOf neg ds [] t = match readExponent t with
    | none => if intMaxStrDigits < ds.length then none
      else some (.int (if neg then -(digitsValue ds : ℤ) else digitsValue ds), t)
    | some (e, u) => some (.float (.ofDecimal neg (digitsValue ds) e), u) := by
  unfold numberOf
  cases readExponent t with
  | none => rfl
  | some r => simp

/-- A number without a point and an exponent. -/
theorem readNumber_int (h : Whole ds) (ht : Ends t) (hsize : ds.length ≤ intMaxStrDigits) :
    readNumber neg (ds ++ t) =
      some (.int (if neg then -(digitsValue ds : ℤ) else digitsValue ds), t) := by
  have hpoint : ∀ u, t ≠ 46 :: u := by
    rintro u rfl
    exact (ht 46 rfl).2.1 rfl
  rw [readNumber_eq, h.read ht.noDigit]
  dsimp only
  rw [fractionPart_none hpoint, numberOf_nil, readExponent_ends ht]
  exact if_neg (not_lt.2 hsize)

/-- An integer of too many digits is refused. -/
theorem readNumber_long (h : Whole ds) (ht : Ends t) (hsize : intMaxStrDigits < ds.length) :
    readNumber neg (ds ++ t) = none := by
  have hpoint : ∀ u, t ≠ 46 :: u := by
    rintro u rfl
    exact (ht 46 rfl).2.1 rfl
  rw [readNumber_eq, h.read ht.noDigit]
  dsimp only
  rw [fractionPart_none hpoint, numberOf_nil, readExponent_ends ht]
  exact if_pos hsize

/-- A number with a point. -/
theorem readNumber_point (h : Whole ds) (hfs : Digits fs) (hne : fs ≠ []) (ht : NoDigit t) :
    readNumber neg (ds ++ 46 :: (fs ++ t)) = match readExponent t with
      | none => some (.float (.ofDecimal neg (digitsValue (ds ++ fs)) (-fs.length)), t)
      | some (e, u) => some (.float (.ofDecimal neg (digitsValue (ds ++ fs)) (e - fs.length)), u) := by
  have hpoint : NoDigit (46 :: (fs ++ t)) := fun c hc => by
    cases hc
    decide
  rw [readNumber_eq, h.read hpoint]
  dsimp only
  rw [fractionPart_point hfs hne ht, numberOf_float hne]

/-- A number with an exponent and no point. -/
theorem readNumber_exponent (h : Whole ds) (ht : NoDigit t) (hpoint : ∀ u, t ≠ 46 :: u) {u : Str}
    (hexp : readExponent t = some (e, u)) :
    readNumber neg (ds ++ t) = some (.float (.ofDecimal neg (digitsValue ds) e), u) := by
  rw [readNumber_eq, h.read ht]
  dsimp only
  rw [fractionPart_none hpoint, numberOf_nil, hexp]

/-- A signed exponent is read. -/
theorem readExponent_signed (hds : Digits ds) (hne : ds ≠ []) (ht : NoDigit t) (neg : Bool) :
    readExponent (101 :: (if neg then 45 else 43) :: (ds ++ t)) =
      some (if neg then -(digitsValue ds : ℤ) else digitsValue ds, t) := by
  have htake := takeDigits_append hds ht
  unfold readExponent
  cases neg with
  | false =>
    simp only [true_or, if_true, Bool.false_eq_true, if_false, htake]
  | true =>
    simp only [true_or, if_true, htake]

/-! ## The text of a float -/

/-- Digits and the place of the point: `0.digits * 10 ^ point`. -/
def placed (ds : Str) (point : ℤ) : ℚ := digitsValue ds * 10 ^ (point - ds.length)

theorem ofDecimal_placed {n : ℕ} (h : (n : ℚ) * 10 ^ e = q) : Float64.ofDecimal neg n e = .decimal neg q := by
  rw [Float64.ofDecimal_eq, h]

/-- Digits that a float may have: the first one is no zero. -/
inductive Leading : Str → Prop
  | cons {c ds} : 49 ≤ c → c ≤ 57 → Digits ds → Leading (c :: ds)

theorem Leading.whole (h : Leading ds) (n : ℕ) : Whole (ds ++ List.replicate n 48) := by
  cases h with
  | cons h1 h2 hds => exact .cons h1 h2 (hds.append (digits_zeros n))

theorem Leading.digits (h : Leading ds) : Digits ds := by
  have hwhole := h.whole 0
  rw [List.replicate_zero, List.append_nil] at hwhole
  exact hwhole.digits

/-- **The text of a float is read as the rational it shows.** -/
theorem readNumber_formatRepr (h : Leading ds) (ht : Ends t) :
    readNumber neg (formatRepr ds point ++ t) = some (.float (.decimal neg (placed ds point)), t) := by
  have hten : (10 : ℚ) ≠ 0 := by norm_num
  have hdigits := h.digits
  have hlen : 0 < ds.length := by
    cases h
    exact Nat.succ_pos _
  unfold formatRepr
  by_cases hnear : -4 < point ∧ point ≤ 16
  · rw [if_pos hnear]
    by_cases hsmall : point ≤ 0
    · -- zeros stand after the point
      have hfs : Digits (List.replicate (-point).toNat 48 ++ ds) := (digits_zeros _).append hdigits
      have hread := @readNumber_point neg _ _ _ .zero hfs (by simp [List.ne_nil_of_length_pos hlen]) ht.noDigit
      rw [readExponent_ends ht] at hread
      rw [if_pos hsmall]
      have htext : lit "0." ++ List.replicate (-point).toNat 48 ++ ds ++ t =
          [48] ++ 46 :: (List.replicate (-point).toNat 48 ++ ds ++ t) := by
        simp [lit]
      rw [htext, hread]
      dsimp only
      rw [ofDecimal_placed (q := placed ds point)]
      have hzero : [48] ++ (List.replicate (-point).toNat 48 ++ ds) =
          List.replicate ((-point).toNat + 1) 48 ++ ds := by
        rw [List.replicate_succ, List.cons_append]
        rfl
      rw [hzero, digitsValue_zeros_append, placed, List.length_append, List.length_replicate]
      congr 2
      push_cast
      omega
    · rw [if_neg hsmall]
      by_cases hall : ds.length ≤ point.toNat
      · -- all digits stand before the point
        have hread := @readNumber_point neg _ _ [48] (h.whole (point.toNat - ds.length))
          (by decide) (by decide) ht.noDigit
        rw [readExponent_ends ht] at hread
        rw [if_pos hall]
        have htext : ds ++ List.replicate (point.toNat - ds.length) 48 ++ lit ".0" ++ t =
            ds ++ List.replicate (point.toNat - ds.length) 48 ++ 46 :: ([48] ++ t) := by
          simp [lit]
        rw [htext, hread]
        dsimp only
        rw [ofDecimal_placed (q := placed ds point)]
        rw [digitsValue_snoc, digitsValue_append_zeros, placed]
        have hexp : point - ds.length = (point.toNat - ds.length : ℕ) := by omega
        rw [hexp, zpow_natCast]
        push_cast
        rw [List.length_singleton]
        norm_num
        field_simp
      · rw [if_neg hall]
        have hsplit : ds.take point.toNat ++ ds.drop point.toNat = ds := List.take_append_drop _ _
        have hdrop : Digits (ds.drop point.toNat) := hdigits.subset (List.drop_subset _ _)
        have htake : Whole (ds.take point.toNat) := by
          obtain ⟨n, hn⟩ : ∃ n, point.toNat = n + 1 := ⟨point.toNat - 1, by omega⟩
          rw [hn]
          cases h with
          | cons h1 h2 hds => exact .cons h1 h2 (hds.subset (List.take_subset n _))
        have hne : ds.drop point.toNat ≠ [] := by
          rw [Ne, List.drop_eq_nil_iff]
          exact hall
        have hread := @readNumber_point neg _ _ _ htake hdrop hne ht.noDigit
        rw [readExponent_ends ht] at hread
        rw [List.append_assoc, List.cons_append, hread]
        dsimp only
        rw [ofDecimal_placed (q := placed ds point)]
        rw [hsplit, placed, List.length_drop]
        congr 2
        omega
  · rw [if_neg hnear]
    dsimp only
    generalize hdigitsOf : natDigits (point - 1).natAbs = size
    have hvalue : digitsValue size = (point - 1).natAbs := hdigitsOf ▸ digitsValue_natDigits _
    have hsize : Digits size := hdigitsOf ▸ natDigits_digits _
    have hsizeNe : size ≠ [] := hdigitsOf ▸ natDigits_ne_nil _
    -- an exponent has two digits at least
    obtain ⟨padded, hpadded, hpad, hpadNe, hpadValue⟩ : ∃ padded,
        (if size.length < 2 then 48 :: size else size) = padded ∧ Digits padded ∧ padded ≠ [] ∧
          digitsValue padded = (point - 1).natAbs := by
      split
      · refine ⟨_, rfl, ?_, by simp, ?_⟩
        · exact (digits_zeros 1).append hsize
        · exact (digitsValue_zeros_append 1 size).trans hvalue
      · exact ⟨_, rfl, hsize, hsizeNe, hvalue⟩
    have hsign : (if point - 1 < 0 then 45 else 43) =
        (if decide (point - 1 < 0) = true then 45 else 43) := by simp
    have hexp := readExponent_signed hpad hpadNe ht.noDigit (decide (point - 1 < 0))
    rw [hpadValue] at hexp
    have hvalueExp : (if decide (point - 1 < 0) = true then -((point - 1).natAbs : ℤ)
        else (point - 1).natAbs) = point - 1 := by
      split
      · rename_i h
        have hneg : point - 1 < 0 := by simpa using h
        omega
      · rename_i h
        have hneg : ¬ point - 1 < 0 := by simpa using h
        omega
    rw [hvalueExp] at hexp
    have hnoDigit : NoDigit (101 :: (if decide (point - 1 < 0) = true then 45 else 43) :: (padded ++ t)) :=
      fun c hc => by
        cases hc
        decide
    rw [hpadded, hsign]
    cases h with
    | @cons c ds h1 h2 hds =>
      have hone : Whole [c] := .cons h1 h2 (by simp [Digits])
      by_cases hshort : (c :: ds).length ≤ 1
      · -- one digit, and no point
        obtain rfl : ds = [] := List.length_eq_zero_iff.1 (by simpa using hshort)
        have hread := @readNumber_exponent _ neg _ _ hone hnoDigit (fun u hu => by cases hu) _ hexp
        have htext : [c].take 1 ++ (if [c].length ≤ 1 then [] else 46 :: [c].drop 1) ++
            101 :: (if decide (point - 1 < 0) = true then 45 else 43) :: padded ++ t =
              [c] ++ 101 :: (if decide (point - 1 < 0) = true then 45 else 43) :: (padded ++ t) := by
          simp
        rw [htext, hread, ofDecimal_placed (q := placed [c] point)]
        rfl
      · have hne : ds ≠ [] := by
          rintro rfl
          exact hshort (by simp)
        have hread := @readNumber_point neg _ _ _ hone hds hne hnoDigit
        rw [hexp] at hread
        have htext : (c :: ds).take 1 ++ (if (c :: ds).length ≤ 1 then [] else 46 :: (c :: ds).drop 1) ++
            101 :: (if decide (point - 1 < 0) = true then 45 else 43) :: padded ++ t =
              [c] ++ 46 :: (ds ++ 101 :: (if decide (point - 1 < 0) = true then 45 else 43) ::
                (padded ++ t)) := by
          rw [if_neg hshort]
          simp
        rw [htext, hread]
        dsimp only
        rw [ofDecimal_placed (q := placed (c :: ds) point)]
        rw [placed, List.singleton_append, List.length_cons]
        congr 2
        push_cast
        ring

/-! ## The digits of a float -/

namespace Float64

/-- The float with this sign. -/
def signed (neg : Bool) : Float64 → Float64
  | .inf _ => .inf neg
  | .finite _ m e => .finite neg m e

theorem decimal_signed (neg : Bool) (q : ℚ) : decimal neg q = signed neg (decimal false q) := by
  unfold decimal nearest pack
  repeat' split
  all_goals rfl

end Float64

theorem log_le_clog {n : ℕ} (h : 0 < n) : 10 ^ Nat.log 10 n ≤ n ∧ n < 10 ^ (Nat.log 10 n + 1) :=
  ⟨Nat.pow_log_le_self 10 h.ne', Nat.lt_pow_succ_log_self (by decide) n⟩

/-- **The place of the point** is that of the leading digit. -/
theorem decimalPoint_eq (ha : 0 < a) (hb : 0 < b) : decimalPoint a b = Int.log 10 ((a : ℚ) / b) + 1 := by
  have haq : (0 : ℚ) < a := by exact_mod_cast ha
  have hbq : (0 : ℚ) < b := by exact_mod_cast hb
  have hq : (0 : ℚ) < (a : ℚ) / b := div_pos haq hbq
  unfold decimalPoint
  by_cases hle : b ≤ a
  · have hone : (1 : ℚ) ≤ (a : ℚ) / b := by
      rw [le_div_iff₀ hbq, one_mul]
      exact_mod_cast hle
    have hdiv : 0 < a / b := Nat.div_pos hle hb
    rw [if_pos hle, length_natDigits hdiv, Int.log_of_one_le_right 10 hone, Nat.floor_div_eq_div]
    push_cast
    ring
  · have hdiv : 0 < b / a := Nat.div_pos (by omega) ha
    obtain ⟨hlow, hhigh⟩ := log_le_clog hdiv
    have hlen := length_natDigits hdiv
    have hdivLe : b / a * a ≤ b := Nat.div_mul_le_self b a
    have hdivLt : b < (b / a + 1) * a := by
      rw [Nat.add_mul, Nat.one_mul, Nat.mul_comm]
      exact Nat.lt_mul_div_succ b ha |>.trans_le (by rw [Nat.mul_add, Nat.mul_one])
    have hpower : natDigits (b / a) = 49 :: List.replicate (Nat.log 10 (b / a) + 1 - 1) 48 ↔
        b / a = 10 ^ Nat.log 10 (b / a) := by
      rw [Nat.add_sub_cancel, ← natDigits_pow]
      exact ⟨natDigits_injective, congrArg natDigits⟩
    have hmod : b % a = 0 ↔ b = b / a * a := by
      have h := Nat.div_add_mod b a
      rw [Nat.mul_comm] at h
      omega
    rw [if_neg hle, hlen]
    generalize hN : b / a = N at *
    generalize hk : Nat.log 10 N = k at *
    have hlog : ∀ z : ℤ, (10 : ℚ) ^ z * b ≤ a → (a : ℚ) < 10 ^ (z + 1) * b →
        Int.log 10 ((a : ℚ) / b) = z := by
      intro z h1 h2
      refine intLog_eq (by decide) hq ?_ ?_
      · rw [le_div_iff₀ hbq]
        exact_mod_cast h1
      · rw [div_lt_iff₀ hbq]
        exact_mod_cast h2
    have hcast : ∀ {u v : ℕ}, u < v → (u : ℚ) < v := fun h => by exact_mod_cast h
    have htenk : (0 : ℚ) < 10 ^ k := by positivity
    by_cases hexact : b % a = 0 ∧ natDigits N = 49 :: List.replicate (k + 1 - 1) 48
    · -- the quotient is a power of ten
      rw [if_pos hexact]
      have hb' : (b : ℚ) = 10 ^ k * a := by
        have h : b = 10 ^ k * a := by
          rw [← (hpower.1 hexact.2)]
          exact hmod.1 hexact.1
        exact_mod_cast h
      rw [hlog (-k)]
      · push_cast
        ring
      · rw [hb', zpow_neg, zpow_natCast, inv_mul_cancel_left₀ htenk.ne']
      · rw [hb', zpow_add₀ (by norm_num), zpow_neg, zpow_natCast, zpow_one]
        field_simp
        linarith
    · rw [if_neg hexact]
      have hupper : b < 10 ^ (k + 1) * a := hdivLt.trans_le (Nat.mul_le_mul_right a hhigh)
      have hlower : 10 ^ k * a < b := by
        have hle' : 10 ^ k * a ≤ N * a := Nat.mul_le_mul_right a hlow
        refine lt_of_le_of_ne (hle'.trans hdivLe) fun heq => hexact ⟨?_, ?_⟩
        · exact hmod.2 (by omega)
        · have hNa : N * a = 10 ^ k * a := by omega
          exact hpower.2 (Nat.eq_of_mul_eq_mul_right ha hNa)
      have hupperq := hcast hupper
      have hlowerq := hcast hlower
      push_cast at hupperq hlowerq
      rw [hlog (-(k + 1))]
      · push_cast
        ring
      · rw [zpow_neg, inv_mul_le_iff₀ (by positivity)]
        exact_mod_cast hupperq.le
      · rw [neg_add, neg_add_cancel_right, zpow_neg, zpow_natCast, lt_inv_mul_iff₀ htenk]
        exact hlowerq

/-! ## Seventeen digits -/

/-- Rounding moves a rational by a half at most. -/
theorem roundEven_near (hq : 0 ≤ q) : q - 1 / 2 ≤ roundEven q ∧ (roundEven q : ℚ) ≤ q + 1 / 2 := by
  have hlow := Nat.floor_le hq
  have hhigh := Nat.lt_floor_add_one q
  unfold roundEven
  split
  · rename_i h
    push_cast
    rcases h with h | ⟨h, -⟩ <;> constructor <;> linarith
  · rename_i h
    rw [not_or] at h
    constructor
    · linarith [not_lt.1 h.1]
    · linarith

/-- Powers of two between powers of ten. -/
theorem pow_bounds : (2 : ℕ) ^ 1024 < 10 ^ 309 ∧ (2 : ℕ) ^ 1074 < 10 ^ 324 ∧ (2 : ℕ) ^ 53 < 10 ^ 16 := by
  decide +kernel

/-- **Seventeen digits are enough**: those nearest to a float round to it. -/
theorem decimal_seventeen (hm : 0 < m) (h : Float64.Normal m e) (hq : q = m * 2 ^ e)
    (hpoint : point = Int.log 10 q + 1) :
    Float64.decimal false (roundEven (q / 10 ^ (point - 17)) * 10 ^ (point - 17)) = .finite false m e := by
  have hmq : (1 : ℚ) ≤ m := by exact_mod_cast hm
  have hu : (0 : ℚ) < 2 ^ e := by positivity
  have hqpos : 0 < q := by
    rw [hq]
    exact mul_pos (by linarith) hu
  have hlow : (10 : ℚ) ^ (point - 1) ≤ q := by
    rw [hpoint, add_sub_cancel_right]
    exact_mod_cast Int.zpow_log_le_self (by decide) hqpos
  have hhigh : q < (10 : ℚ) ^ point := by
    rw [hpoint]
    exact_mod_cast Int.lt_zpow_succ_log_self (by decide) q
  have hbits : (m : ℚ) < 2 ^ 53 := by exact_mod_cast h.bits
  obtain ⟨hmax, hmin, hwide⟩ := pow_bounds
  have hwideq : (2 : ℚ) ^ 53 < 10 ^ 16 := by exact_mod_cast hwide
  have hshift : ∀ n : ℕ, (10 : ℚ) ^ (point - 17 + n) = 10 ^ n * 10 ^ (point - 17) := by
    intro n
    rw [zpow_add₀ (by norm_num), zpow_natCast, mul_comm]
  have h16 : (10 : ℚ) ^ (point - 1) = 10 ^ 16 * 10 ^ (point - 17) := by
    rw [← hshift 16]
    congr 1
    push_cast
    ring
  have h17 : (10 : ℚ) ^ point = 10 ^ 17 * 10 ^ (point - 17) := by
    rw [← hshift 17]
    congr 1
    push_cast
    ring
  rw [h16] at hlow
  rw [h17] at hhigh
  -- the clamps of a literal are not reached
  have hleast : -324 ≤ Int.log 10 q := by
    refine (Int.zpow_le_iff_le_log (by decide) hqpos).1 ?_
    have hle : (2 : ℚ) ^ (-1074 : ℤ) ≤ q := by
      rw [hq]
      calc (2 : ℚ) ^ (-1074 : ℤ) ≤ 2 ^ e := zpow_le_zpow_right₀ one_le_two h.least
        _ ≤ m * 2 ^ e := le_mul_of_one_le_left hu.le hmq
    refine hle.trans' ?_
    have hminq : (2 : ℚ) ^ 1074 ≤ 10 ^ 324 := by exact_mod_cast hmin.le
    have hinv : ((10 : ℚ) ^ 324)⁻¹ ≤ (2 ^ 1074)⁻¹ := inv_anti₀ (by positivity) hminq
    simpa only [zpow_neg, zpow_ofNat, Nat.cast_ofNat] using hinv
  have hmost : Int.log 10 q < 309 := by
    refine (Int.lt_zpow_iff_log_lt (by decide) hqpos).1 ?_
    have hlt : q < 2 ^ 1024 := by
      rw [hq]
      calc (m : ℚ) * 2 ^ e < 2 ^ 53 * 2 ^ e := by gcongr
        _ ≤ 2 ^ 53 * 2 ^ (971 : ℤ) := by
          gcongr
          · exact one_le_two
          · exact h.most
        _ = 2 ^ 1024 := by rw [zpow_ofNat, ← pow_add]
    refine hlt.trans ?_
    have hmaxq : (2 : ℚ) ^ 1024 < 10 ^ 309 := by exact_mod_cast hmax
    simpa only [zpow_ofNat, Nat.cast_ofNat] using hmaxq
  generalize hten : (10 : ℚ) ^ (point - 17) = ten at *
  have htenPos : 0 < ten := by
    rw [← hten]
    positivity
  generalize hunit : (2 : ℚ) ^ e = unit at *
  have hlowy : (10 : ℚ) ^ 16 ≤ q / ten := (le_div_iff₀ htenPos).2 hlow
  have hhighy : q / ten < (10 : ℚ) ^ 17 := (div_lt_iff₀ htenPos).2 hhigh
  have hN16 : (10 ^ 16 : ℕ) ≤ roundEven (q / ten) := le_roundEven (by exact_mod_cast hlowy)
  have hN17 : roundEven (q / ten) ≤ (10 ^ 17 : ℕ) := roundEven_le (by exact_mod_cast hhighy)
  obtain ⟨hnear1, hnear2⟩ := roundEven_near (hlowy.trans' (by positivity))
  generalize roundEven (q / ten) = N at *
  have hN16q : (10 : ℚ) ^ 16 ≤ N := by exact_mod_cast hN16
  have hN17q : (N : ℚ) ≤ 10 ^ 17 := by exact_mod_cast hN17
  have hv1 : q - ten / 2 ≤ N * ten := by
    have h := mul_le_mul_of_nonneg_right hnear1 htenPos.le
    rw [sub_mul, div_mul_cancel₀ _ htenPos.ne'] at h
    linarith
  have hv2 : N * ten ≤ q + ten / 2 := by
    have h := mul_le_mul_of_nonneg_right hnear2 htenPos.le
    rw [add_mul, div_mul_cancel₀ _ htenPos.ne'] at h
    linarith
  have hvpos : 0 < N * ten := mul_pos (by linarith [pow_pos (show (0 : ℚ) < 10 by norm_num) 16]) htenPos
  have hbelow : ten < unit := by
    have h1 : (10 : ℚ) ^ 16 * ten < 10 ^ 16 * unit := by
      calc (10 : ℚ) ^ 16 * ten ≤ m * unit := hq ▸ hlow
        _ < 2 ^ 53 * unit := by gcongr
        _ < 10 ^ 16 * unit := by gcongr
    exact lt_of_mul_lt_mul_left h1 (by positivity)
  have hlogLow : point - 1 ≤ Int.log 10 (N * ten) := by
    refine (Int.zpow_le_iff_le_log (by decide) hvpos).1 ?_
    rw [Nat.cast_ofNat, h16]
    gcongr
  have hlogHigh : Int.log 10 (N * ten) < point + 1 := by
    refine (Int.lt_zpow_iff_log_lt (by decide) hvpos).1 ?_
    rw [Nat.cast_ofNat, zpow_add₀ (by norm_num), h17, zpow_one]
    calc (N : ℚ) * ten ≤ 10 ^ 17 * ten := by gcongr
      _ < 10 ^ 17 * ten * 10 := by linarith [mul_pos (show (0 : ℚ) < 10 ^ 17 by norm_num) htenPos]
  unfold Float64.decimal
  rw [if_neg hvpos.ne', if_neg (by omega), if_neg (by omega)]
  refine Float64.nearest_of_near hm h ?_ ?_ ?_
  · rw [hunit, sub_mul]
    linarith
  · rw [hunit, add_mul]
    linarith
  · intro hm52
    rw [hunit, sub_mul]
    have hhalf : ten < unit / 2 := by
      have h1 : (10 : ℚ) ^ 16 * ten < 10 ^ 16 * (unit / 2) := by
        have h52 : (m : ℚ) = 2 ^ 52 := by exact_mod_cast hm52
        calc (10 : ℚ) ^ 16 * ten ≤ 2 ^ 52 * unit := by rw [← h52, ← hq]; exact hlow
          _ = 2 ^ 53 * (unit / 2) := by ring
          _ < 10 ^ 16 * (unit / 2) := by gcongr
      exact lt_of_mul_lt_mul_left h1 (by positivity)
    linarith

/-- These digits of `a / b` round to `x`. -/
def RoundsTo (x : Float64) (a b : ℕ) (point : ℤ) (size : ℕ) : Prop :=
  .ofDecimal false (roundHalfEven (scale10 a b (point - size)).1 (scale10 a b (point - size)).2)
    (point - size) = x

/-- **The digits that are written round to the float**, if those of some size do. -/
theorem shortestFrom_spec (h : ∃ j < tries, RoundsTo x a b point (size + j)) :
    ∃ n, (shortestFrom x a b point size tries).1 = natDigits n ∧
      .ofDecimal false n ((shortestFrom x a b point size tries).2 - (natDigits n).length) = x := by
  induction tries generalizing size with
  | zero =>
    obtain ⟨j, hj, -⟩ := h
    exact absurd hj (Nat.not_lt_zero j)
  | succ tries ih =>
    have hshift : ∀ n : ℕ, point + (natDigits n).length - size - (natDigits n).length = point - size := by
      intro n
      ring
    unfold shortestFrom
    dsimp only
    split
    · rename_i hnear
      exact ⟨_, rfl, by rw [hshift]; exact hnear⟩
    · rename_i hnear
      split
      · rename_i hfar
        exact ⟨_, rfl, by rw [hshift]; exact hfar⟩
      · obtain ⟨j, hj, hround⟩ := h
        cases j with
        | zero => exact absurd hround hnear
        | succ j =>
          refine ih ⟨j, by omega, ?_⟩
          rw [Nat.add_right_comm]
          exact hround

/-- Zeros at the end are left out. -/
theorem stripZeros_append (s : Str) : ∃ n, s = stripZeros s ++ List.replicate n 48 := by
  have hsplit := congrArg List.reverse (List.takeWhile_append_dropWhile (p := (· = 48)) (l := s.reverse))
  rw [List.reverse_append, List.reverse_reverse] at hsplit
  refine ⟨(s.reverse.takeWhile (· = 48)).length, hsplit.symm.trans ?_⟩
  congr 1
  rw [List.eq_replicate_iff]
  refine ⟨List.length_reverse, ?_⟩
  intro c hc
  simpa using List.mem_takeWhile_imp (List.mem_reverse.1 hc)

/-- The digits that are shown, and where the point is. -/
theorem stripZeros_placed {n : ℕ} (hn : 0 < n) (point : ℤ) : Leading (stripZeros (natDigits n)) ∧
    placed (stripZeros (natDigits n)) point = n * 10 ^ (point - (natDigits n).length) := by
  obtain ⟨z, hz⟩ := stripZeros_append (natDigits n)
  obtain ⟨c, ds, hds, hc1, hc2⟩ := natDigits_head hn
  constructor
  · have hdigits : Digits (stripZeros (natDigits n)) :=
      (natDigits_digits n).subset fun d hd => by
        rw [hz]
        exact List.mem_append_left _ hd
    cases hstrip : stripZeros (natDigits n) with
    | nil =>
      have hhead : c ∈ List.replicate z 48 := by
        rw [hstrip, List.nil_append, hds] at hz
        rw [← hz]
        exact List.mem_cons_self
      have hzero := List.eq_of_mem_replicate hhead
      omega
    | cons d rest =>
      have hd : c = d := by
        rw [hstrip, hds, List.cons_append] at hz
        exact (List.cons.inj hz).1
      subst hd
      rw [hstrip] at hdigits
      exact .cons hc1 hc2 (hdigits.subset (List.subset_cons_self c rest))
  · have hvalue : (n : ℚ) = digitsValue (stripZeros (natDigits n)) * 10 ^ z := by
      have h := digitsValue_natDigits n
      rw [hz, digitsValue_append_zeros] at h
      exact_mod_cast h.symm
    have hlen : ((natDigits n).length : ℤ) = (stripZeros (natDigits n)).length + z := by
      have h := congrArg List.length hz
      rw [List.length_append, List.length_replicate] at h
      exact_mod_cast h
    have hten : (10 : ℚ) ≠ 0 := by norm_num
    rw [placed, hvalue, hlen, mul_assoc, ← zpow_natCast, ← zpow_add₀ hten]
    congr 2
    ring

/-! ## Round trip -/

/-- What `formatRepr` writes begins with a digit. -/
theorem formatRepr_head (h : Leading ds) : ∃ c s, formatRepr ds point = c :: s ∧ IsDigit c := by
  cases h with
  | @cons c ds h1 h2 hds =>
    have hc : IsDigit c := ⟨by omega, h2⟩
    unfold formatRepr
    split
    · split
      · exact ⟨48, _, rfl, by decide⟩
      · split
        · exact ⟨c, _, rfl, hc⟩
        · obtain ⟨n, hn⟩ : ∃ n, point.toNat = n + 1 := ⟨point.toNat - 1, by omega⟩
          rw [hn]
          exact ⟨c, _, rfl, hc⟩
    · exact ⟨c, _, rfl, hc⟩

/-- The text of a float without its sign. -/
theorem floatRepr_body (hx : (Float64.finite neg m e).Canonical) : ∃ body,
    floatRepr (.finite neg m e) = (if neg then [45] else []) ++ body ∧
    (∃ c s, body = c :: s ∧ IsDigit c) ∧
    ∀ t, Ends t → readNumber neg (body ++ t) = some (.float (.finite neg m e), t) := by
  unfold floatRepr
  rcases hx with ⟨rfl, rfl⟩ | ⟨hm, hnormal⟩
  · refine ⟨_, rfl, ⟨48, _, rfl, by decide⟩, ?_⟩
    intro t ht
    have hread := @readNumber_point neg _ _ [48] .zero (by decide) (by decide) ht.noDigit
    rw [readExponent_ends ht] at hread
    exact hread
  · obtain ⟨hb, hscale⟩ := @scale_eq m 1 (-e) one_pos
    generalize hab : scale m 1 (-e) = ab at hb hscale
    obtain ⟨a, b⟩ := ab
    have hq : (a : ℚ) / b = m * 2 ^ e := by
      rw [hscale, Nat.cast_one, div_one, zpow_neg, div_inv_eq_mul]
    have hmq : (0 : ℚ) < m := by exact_mod_cast hm
    have ha : 0 < a := by
      refine Nat.pos_of_ne_zero fun h0 => ?_
      have hzero : (0 : ℚ) = m * 2 ^ e := by
        rw [← hq, h0, Nat.cast_zero, zero_div]
      exact absurd hzero (mul_pos hmq (by positivity)).ne
    have hpoint := decimalPoint_eq ha hb
    have hround : RoundsTo (.finite false m e) a b (decimalPoint a b) 17 := by
      obtain ⟨hd, hscale10⟩ := @scale10_eq a b (decimalPoint a b - (17 : ℕ)) hb
      unfold RoundsTo
      rw [Float64.ofDecimal_eq, roundHalfEven_eq hd, hscale10, hq]
      exact decimal_seventeen hm hnormal rfl (hq ▸ hpoint)
    obtain ⟨n, hdigits, hx⟩ := @shortestFrom_spec _ _ _ 17 _ _ ⟨16, by omega, hround⟩
    have hn : 0 < n := by
      refine Nat.pos_of_ne_zero fun h0 => ?_
      subst h0
      simp only [Float64.ofDecimal, if_true, Float64.finite.injEq] at hx
      omega
    obtain ⟨hleading, hplaced⟩ := stripZeros_placed hn
      (shortestFrom (.finite false m e) a b (decimalPoint a b) 1 17).2
    dsimp only
    rw [if_neg hm.ne', hab]
    dsimp only
    rw [hdigits]
    refine ⟨_, rfl, formatRepr_head hleading, ?_⟩
    intro t ht
    rw [readNumber_formatRepr hleading ht, hplaced, Float64.decimal_signed, ← Float64.ofDecimal_eq, hx]
    rfl

theorem readValue_digit {c fuel : ℕ} (hc : IsDigit c) (s : Str) :
    readValue (fuel + 1) (c :: s) = readNumber false (c :: s) := by
  unfold IsDigit at hc
  unfold readValue
  split
  all_goals first
    | rfl
    | (rename_i heq
       have hhead := (List.cons.inj heq).1
       omega)

/-- **A float is read as it was written.** -/
theorem readValue_floatRepr {fuel : ℕ} (hx : (Float64.finite neg m e).Canonical) (ht : Ends t) :
    readValue (fuel + 1) (floatRepr (.finite neg m e) ++ t) = some (.float (.finite neg m e), t) := by
  obtain ⟨body, htext, ⟨c, s, hbody, hc⟩, hread⟩ := floatRepr_body hx
  have hread := hread t ht
  rw [htext]
  cases neg with
  | true => exact hread
  | false =>
    rw [hbody] at hread ⊢
    exact (readValue_digit hc _).trans hread

end Python
