/-
  Natural numbers as octets, the most significant first.

  * `value_octets`, `octets_value`: the two directions are inverse to each other;
  * `fields_flatten`, `flatten_fields`: so are the joining of fields and the cutting into
    them;
  * `prefixed_flatten_injective`: fields that follow their lengths can be told apart.
-/
import Mathlib.Algebra.Order.Ring.Nat
import Mathlib.Data.List.Induction

set_option autoImplicit false

namespace BigEndian

/-- The last `width` octets of `n`. -/
def octets : ℕ → ℕ → List UInt8
  | 0, _ => []
  | width + 1, n => octets width (n / 256) ++ [.ofNat (n % 256)]

/-- The number that octets stand for. -/
def value (bs : List UInt8) : ℕ := bs.foldl (fun n b => n * 256 + b.toNat) 0

@[simp] theorem octets_length (width n : ℕ) : (octets width n).length = width := by
  induction width generalizing n with
  | zero => rfl
  | succ width ih => simp [octets, ih]

@[simp] theorem value_nil : value [] = 0 := rfl

theorem value_snoc (bs : List UInt8) (b : UInt8) : value (bs ++ [b]) = value bs * 256 + b.toNat := by
  simp [value, List.foldl_append]

/-- What was written is read back. -/
theorem value_octets {width n : ℕ} (h : n < 256 ^ width) : value (octets width n) = n := by
  induction width generalizing n with
  | zero =>
    rw [Nat.pow_zero] at h
    simp [octets]
    omega
  | succ width ih =>
    have hn : n / 256 < 256 ^ width := by
      rw [Nat.pow_succ, Nat.mul_comm] at h
      exact Nat.div_lt_of_lt_mul h
    have hb : (UInt8.ofNat (n % 256)).toNat = n % 256 := by
      simp
    rw [octets, value_snoc, ih hn, hb]
    omega

/-- What is read is written so. -/
theorem octets_value (bs : List UInt8) : octets bs.length (value bs) = bs := by
  induction bs using List.reverseRecOn with
  | nil => rfl
  | append_singleton bs b ih =>
    have hb : b.toNat < 256 := b.toNat_lt
    have hdiv : (value bs * 256 + b.toNat) / 256 = value bs := by omega
    have hmod : (value bs * 256 + b.toNat) % 256 = b.toNat := by omega
    rw [value_snoc, List.length_append, List.length_singleton, octets, hdiv, hmod, ih]
    simp

theorem octets_value_of_length {bs : List UInt8} {width : ℕ} (h : bs.length = width) :
    octets width (value bs) = bs := by
  rw [← h]
  exact octets_value bs

/-! ## Fields -/

/-- Cut octets into fields of given widths. -/
def fields : List ℕ → List UInt8 → List (List UInt8)
  | [], _ => []
  | width :: widths, bs => bs.take width :: fields widths (bs.drop width)

/-- Fields that were joined are found again, whatever follows them. -/
theorem fields_flatten (xs : List (List UInt8)) (rest : List UInt8) :
    fields (xs.map List.length) (xs.flatten ++ rest) = xs := by
  induction xs with
  | nil => rfl
  | cons x xs ih =>
    rw [List.flatten_cons, List.append_assoc]
    simp [fields, ih]

/-- Together the fields are what they were cut from. -/
theorem flatten_fields (widths : List ℕ) (bs : List UInt8) :
    (fields widths bs).flatten = bs.take widths.sum := by
  induction widths generalizing bs with
  | nil => simp [fields]
  | cons width widths ih =>
    rw [fields, List.flatten_cons, ih, List.sum_cons, List.take_add]

/-! ## Fields that follow their lengths -/

section Prefixed

variable {width : ℕ} {x y r s : List UInt8} {xs ys : List (List UInt8)}

/-- A field after its length. -/
def prefixed (width : ℕ) (bs : List UInt8) : List UInt8 := octets width bs.length ++ bs

/-- The first field is found, whatever follows it. -/
theorem prefixed_append_inj (hx : x.length < 256 ^ width) (hy : y.length < 256 ^ width)
    (h : prefixed width x ++ r = prefixed width y ++ s) : x = y ∧ r = s := by
  rw [prefixed, prefixed, List.append_assoc, List.append_assoc] at h
  obtain ⟨hsize, hrest⟩ := List.append_inj h (by rw [octets_length, octets_length])
  have hlen : x.length = y.length := by
    rw [← value_octets hx, hsize, value_octets hy]
  exact List.append_inj hrest hlen

/-- **As many fields** that give the same octets are the same fields. -/
theorem prefixed_flatten_injective (hlen : xs.length = ys.length) (hxs : ∀ x ∈ xs, x.length < 256 ^ width)
    (hys : ∀ y ∈ ys, y.length < 256 ^ width)
    (h : (xs.map (prefixed width)).flatten = (ys.map (prefixed width)).flatten) : xs = ys := by
  induction xs generalizing ys with
  | nil => exact (List.length_eq_zero_iff.1 hlen.symm).symm
  | cons x xs ih =>
    cases ys with
    | nil => cases hlen
    | cons y ys =>
      rw [List.forall_mem_cons] at hxs hys
      rw [List.map_cons, List.map_cons, List.flatten_cons, List.flatten_cons] at h
      obtain ⟨rfl, hrest⟩ := prefixed_append_inj hxs.1 hys.1 h
      rw [ih (Nat.succ.inj hlen) hxs.2 hys.2 hrest]

end Prefixed

end BigEndian
