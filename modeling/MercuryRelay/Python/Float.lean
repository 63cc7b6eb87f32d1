/-
  Python floats: binary64, as `float()` reads decimal literals and as
  `float.__repr__` writes them.  A JSON text gives no NaN.
-/
import Mathlib.Data.Int.Notation
import Mathlib.Data.Rat.Defs
import MercuryRelay.Python.Text

set_option autoImplicit false

namespace Python

/-- A binary64 value: `mantissa * 2 ^ exponent` with a sign, or an infinity. -/
inductive Float64 where
  | finite (neg : Bool) (mantissa : ℕ) (exponent : ℤ)
  | inf (neg : Bool)
  deriving DecidableEq

/-- The decimal digits of a natural number. -/
def natDigits (n : ℕ) : Str := (Nat.toDigits 10 n).map Char.toNat

/-- `repr` of an `int`. -/
def intRepr : ℤ → Str
  | .ofNat n => natDigits n
  | .negSucc n => 45 :: natDigits (n + 1)

/-- `a / b` to the nearest natural number, ties to even. -/
def roundHalfEven (a b : ℕ) : ℕ :=
  let q := a / b
  let r := a % b
  if b < 2 * r ∨ (2 * r = b ∧ q % 2 = 1) then q + 1 else q

/-- `a / b` divided by `2 ^ e`, as a numerator and a denominator. -/
def scale (a b : ℕ) (e : ℤ) : ℕ × ℕ :=
  if 0 ≤ e then (a, b * 2 ^ e.toNat) else (a * 2 ^ (-e).toNat, b)

/-- `a / b` as a binary64; a mantissa that underflows gives the one zero. -/
def Float64.ofRatio (neg : Bool) (a b : ℕ) : Float64 :=
  if a = 0 then .finite neg 0 0
  else
    let guess : ℤ := Nat.log2 a - Nat.log2 b
    let (n, d) := scale a b guess
    let e := max (-1074) ((if n < d then guess - 1 else guess) - 52)
    let (n, d) := scale a b e
    let m := roundHalfEven n d
    let (m, e) := if m = 2 ^ 53 then (2 ^ 52, e + 1) else (m, e)
    if 971 < e then .inf neg else .finite neg m (if m = 0 then 0 else e)

/-- The literal `digits * 10 ^ exponent`; far exponents are answered first. -/
def Float64.ofDecimal (neg : Bool) (digits : ℕ) (exponent : ℤ) : Float64 :=
  let size : ℤ := (natDigits digits).length
  if digits = 0 then .finite neg 0 0
  else if 310 < size + exponent then .inf neg
  else if size + exponent < -325 then .finite neg 0 0
  else if 0 ≤ exponent then .ofRatio neg (digits * 10 ^ exponent.toNat) 1
  else .ofRatio neg digits (10 ^ (-exponent).toNat)

/-- The integer a float equals, if it equals one. -/
def Float64.toInt? : Float64 → Option ℤ
  | .inf _ => none
  | .finite neg m e =>
    let sign : ℤ := if neg then -1 else 1
    if m = 0 then some 0
    else if 0 ≤ e then some (sign * (m * 2 ^ e.toNat : ℕ))
    else if m % 2 ^ (-e).toNat = 0 then some (sign * (m / 2 ^ (-e).toNat : ℕ))
    else none

/-- The value of a float; an infinity counts as the least power of two past the floats. -/
def Float64.value : Float64 → ℚ
  | .inf neg => (if neg then -1 else 1) * 2 ^ 1024
  | .finite neg m e =>
    (if neg then -1 else 1) *
      (if 0 ≤ e then ((m * 2 ^ e.toNat : ℕ) : ℚ) else (m : ℚ) / ((2 ^ (-e).toNat : ℕ) : ℚ))

/-- `math.isfinite`. -/
def Float64.isFinite : Float64 → Bool
  | .inf _ => false
  | .finite .. => true

/-- A rational as the float nearest to it. -/
def Float64.ofRat (q : ℚ) : Float64 := .ofRatio (q < 0) q.num.natAbs q.den

/-- `a + b` of two floats. -/
def floatSum (a b : ℚ) : ℚ := (Float64.ofRat (a + b)).value

/-! ## `repr` -/

/-- `a / b` divided by `10 ^ e`, as a numerator and a denominator. -/
def scale10 (a b : ℕ) (e : ℤ) : ℕ × ℕ :=
  if 0 ≤ e then (a, b * 10 ^ e.toNat) else (a * 10 ^ (-e).toNat, b)

/-- Of the two integers around `a / b`, the one that is not nearest. -/
def otherNeighbour (a b : ℕ) : ℕ := if roundHalfEven a b = a / b then a / b + 1 else a / b

/-- The shortest digits, `size` of them or more, that round to `a / b = x`, and
    the position of the decimal point; among digits of one length, the nearest. -/
def shortestFrom (x : Float64) (a b : ℕ) (point : ℤ) (size : ℕ) : ℕ → Str × ℤ
  | 0 => (natDigits (roundHalfEven a b), point)
  | tries + 1 =>
    let shift : ℤ := point - size
    let q := scale10 a b shift
    let near := roundHalfEven q.1 q.2
    let far := otherNeighbour q.1 q.2
    if Float64.ofDecimal false near shift = x then
      (natDigits near, point + (natDigits near).length - size)
    else if Float64.ofDecimal false far shift = x then
      (natDigits far, point + (natDigits far).length - size)
    else shortestFrom x a b point (size + 1) tries

/-- The position of the decimal point of `a / b`. -/
def decimalPoint (a b : ℕ) : ℤ :=
  if b ≤ a then (natDigits (a / b)).length
  else 1 - ((natDigits (b / a)).length : ℤ) + (if b % a = 0 ∧
    natDigits (b / a) = 49 :: List.replicate ((natDigits (b / a)).length - 1) 48 then 1 else 0)

/-- Digits without trailing zeros. -/
def stripZeros (digits : Str) : Str := (digits.reverse.dropWhile (· = 48)).reverse

/-- `float.__repr__` of `0.digits * 10 ^ point`. -/
def formatRepr (digits : Str) (point : ℤ) : Str :=
  if -4 < point ∧ point ≤ 16 then
    if point ≤ 0 then lit "0." ++ List.replicate (-point).toNat 48 ++ digits
    else if digits.length ≤ point.toNat then
      digits ++ List.replicate (point.toNat - digits.length) 48 ++ lit ".0"
    else digits.take point.toNat ++ 46 :: digits.drop point.toNat
  else
    let e := point - 1
    let size := natDigits e.natAbs
    digits.take 1 ++ (if digits.length ≤ 1 then [] else 46 :: digits.drop 1) ++ 101 ::
      (if e < 0 then 45 else 43) :: (if size.length < 2 then 48 :: size else size)

/-- `float.__repr__`, with the infinities as JSON writes them. -/
def floatRepr : Float64 → Str
  | .inf neg => (if neg then [45] else []) ++ lit "Infinity"
  | .finite neg m e =>
    (if neg then [45] else []) ++
      if m = 0 then lit "0.0"
      else
        let (a, b) := scale m 1 (-e)
        let (digits, point) := shortestFrom (.finite false m e) a b (decimalPoint a b) 1 17
        formatRepr (stripZeros digits) point

/-! ## Numbers are written in ASCII -/

theorem natDigits_ascii (n : ℕ) : Ascii (natDigits n) := by
  intro c hc
  obtain ⟨d, hd, rfl⟩ := List.mem_map.1 hc
  have h := Nat.isDigit_of_mem_toDigits (by decide) (by decide) hd
  simp only [Char.isDigit, Bool.and_eq_true, decide_eq_true_eq] at h
  have h2 : d.toNat ≤ 57 := h.2
  omega

theorem intRepr_ascii : ∀ n : ℤ, Ascii (intRepr n)
  | .ofNat n => natDigits_ascii n
  | .negSucc n => .cons (by decide) (natDigits_ascii _)

theorem shortestFrom_ascii (x : Float64) (a b : ℕ) (point : ℤ) (size tries : ℕ) :
    Ascii (shortestFrom x a b point size tries).1 := by
  induction tries generalizing size with
  | zero => exact natDigits_ascii _
  | succ tries ih =>
    rw [shortestFrom]
    split
    · exact natDigits_ascii _
    · split
      · exact natDigits_ascii _
      · exact ih _

theorem formatRepr_ascii {digits : Str} (h : Ascii digits) (point : ℤ) :
    Ascii (formatRepr digits point) := by
  have htake : ∀ n, Ascii (digits.take n) := fun n => h.subset (List.take_subset n _)
  have hdrop : ∀ n, Ascii (digits.drop n) := fun n => h.subset (List.drop_subset n _)
  have hzeros : ∀ n, Ascii (List.replicate n 48) := fun n => .replicate (by decide)
  unfold formatRepr
  split
  · split
    · exact ((show Ascii (lit "0.") by decide).append (hzeros _)).append h
    · split
      · exact (h.append (hzeros _)).append (by decide)
      · exact (htake _).append (.cons (by decide) (hdrop _))
  · refine ((htake 1).append ?_).append (.cons (by decide) (.cons ?_ ?_))
    · split
      · exact fun c hc => absurd hc List.not_mem_nil
      · exact .cons (by decide) (hdrop 1)
    · split <;> decide
    · split
      · exact .cons (by decide) (natDigits_ascii _)
      · exact natDigits_ascii _

theorem floatRepr_ascii (x : Float64) : Ascii (floatRepr x) := by
  have hsign : ∀ neg : Bool, Ascii (if neg then [45] else []) := by decide
  cases x with
  | inf neg => exact (hsign neg).append (by decide)
  | finite neg m e =>
    rw [floatRepr]
    refine (hsign neg).append ?_
    split
    · decide
    · refine formatRepr_ascii ?_ _
      refine (shortestFrom_ascii (.finite false m e) (scale m 1 (-e)).1 (scale m 1 (-e)).2
        (decimalPoint (scale m 1 (-e)).1 (scale m 1 (-e)).2) 1 17).subset fun c hc => ?_
      exact List.mem_reverse.1 (List.dropWhile_subset _ (List.mem_reverse.1 hc))

end Python
