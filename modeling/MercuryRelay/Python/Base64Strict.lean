/-
  `base64.b64decode(s, validate=True)`: the decoder that refuses what the lenient
  one skips.

  * `b64decodeStrict_encode`: it undoes the encoder.
-/
import MercuryRelay.Python.Base64

set_option autoImplicit false

namespace Python

/-- The six-bit value of a character of the standard alphabet. -/
def b64StandardValue (c : ℕ) : Option ℕ := if c = 45 ∨ c = 95 then none else b64Value c

/-- `binascii.a2b_base64` in strict mode, after the first character; `started` is where padding was seen. -/
def a2bStrict (quad left pads : ℕ) (started : Bool) : Str → Option Bytes
  | [] => if quad = 0 then some [] else none
  | c :: s =>
    if c = 61 then
      if 2 ≤ quad ∧ 4 ≤ quad + (pads + 1) then if s = [] then some [] else none
      else a2bStrict quad left (if 2 ≤ quad then pads + 1 else pads) true s
    else
      match b64StandardValue c with
      | none => none
      | some v =>
        if started then none
        else
          match quad with
          | 0 => a2bStrict 1 v 0 started s
          | 1 => (a2bStrict 2 (v % 16) 0 started s).map (.ofNat (left * 4 + v / 16) :: ·)
          | 2 => (a2bStrict 3 (v % 4) 0 started s).map (.ofNat (left * 16 + v / 4) :: ·)
          | _ => (a2bStrict 0 0 0 started s).map (.ofNat (left * 64 + v) :: ·)

/-- `base64.b64decode(s.encode("ascii"), validate=True)`; `none` where either raises. -/
def b64decodeStrict (s : Str) : Option Bytes :=
  if s.all (· < 128) ∧ s.head? ≠ some 61 then a2bStrict 0 0 0 false s else none

/-! ## Round trip -/

/-- The character of a six-bit value in the standard alphabet. -/
def b64StandardChar (n : ℕ) : ℕ :=
  let c := b64urlChar n
  if c = 45 then 43 else if c = 95 then 47 else c

theorem b64StandardChar_spec {n : ℕ} (h : n < 64) :
    b64StandardValue (b64StandardChar n) = some n ∧ b64StandardChar n ≠ 61 ∧ b64StandardChar n < 128 := by
  have hall : ∀ m < 64, b64StandardValue (b64StandardChar m) = some m ∧ b64StandardChar m ≠ 61 ∧
      b64StandardChar m < 128 := by decide
  exact hall n h

section Decoder

variable {n : ℕ} (h : n < 64) (left pads : ℕ) (s : Str)

include h

theorem a2bStrict_char0 : a2bStrict 0 left pads false (b64StandardChar n :: s) = a2bStrict 1 n 0 false s := by
  obtain ⟨hvalue, hpad, -⟩ := b64StandardChar_spec h
  simp only [a2bStrict, hpad, if_false, hvalue, Bool.false_eq_true]

theorem a2bStrict_char1 : a2bStrict 1 left pads false (b64StandardChar n :: s) =
    (a2bStrict 2 (n % 16) 0 false s).map (.ofNat (left * 4 + n / 16) :: ·) := by
  obtain ⟨hvalue, hpad, -⟩ := b64StandardChar_spec h
  simp only [a2bStrict, hpad, if_false, hvalue, Bool.false_eq_true]

theorem a2bStrict_char2 : a2bStrict 2 left pads false (b64StandardChar n :: s) =
    (a2bStrict 3 (n % 4) 0 false s).map (.ofNat (left * 16 + n / 4) :: ·) := by
  obtain ⟨hvalue, hpad, -⟩ := b64StandardChar_spec h
  simp only [a2bStrict, hpad, if_false, hvalue, Bool.false_eq_true]

theorem a2bStrict_char3 : a2bStrict 3 left pads false (b64StandardChar n :: s) =
    (a2bStrict 0 0 0 false s).map (.ofNat (left * 64 + n) :: ·) := by
  obtain ⟨hvalue, hpad, -⟩ := b64StandardChar_spec h
  simp only [a2bStrict, hpad, if_false, hvalue, Bool.false_eq_true]

end Decoder

theorem a2bStrict_encode : ∀ b : Bytes, a2bStrict 0 0 0 false (b64encode b) = some b
  | [] => rfl
  | [a] => by
    have ha := a.toNat_lt
    have hend : a2bStrict 2 (a.toNat * 16 % 64 % 16) 0 false [61, 61] = some [] := rfl
    show a2bStrict 0 0 0 false (b64StandardChar (a.toNat * 16 / 64) :: b64StandardChar (a.toNat * 16 % 64) :: [61, 61]) = _
    rw [a2bStrict_char0 (by omega), a2bStrict_char1 (by omega), hend, uint8_ofNat (a := a) (by omega)]
    rfl
  | [a, b] => by
    have ha := a.toNat_lt
    have hb := b.toNat_lt
    generalize hx : (a.toNat * 256 + b.toNat) * 4 = x
    have hend : a2bStrict 3 (x % 64 % 4) 0 false [61] = some [] := rfl
    have htext : b64encode [a, b] =
        [b64StandardChar (x / 4096), b64StandardChar (x / 64 % 64), b64StandardChar (x % 64), 61] := by
      rw [← hx]
      rfl
    rw [htext, a2bStrict_char0 (by omega), a2bStrict_char1 (by omega), a2bStrict_char2 (by omega), hend,
      uint8_ofNat (a := a) (by omega), uint8_ofNat (a := b) (by omega)]
    rfl
  | a :: b :: c :: r => by
    have ha := a.toNat_lt
    have hb := b.toNat_lt
    have hc := c.toNat_lt
    generalize hx : a.toNat * 65536 + b.toNat * 256 + c.toNat = x
    have htext : b64encode (a :: b :: c :: r) = b64StandardChar (x / 262144) :: b64StandardChar (x / 4096 % 64) ::
        b64StandardChar (x / 64 % 64) :: b64StandardChar (x % 64) :: b64encode r := by
      rw [← hx]
      rfl
    rw [htext, a2bStrict_char0 (by omega), a2bStrict_char1 (by omega), a2bStrict_char2 (by omega),
      a2bStrict_char3 (by omega), a2bStrict_encode r, uint8_ofNat (a := a) (by omega),
      uint8_ofNat (a := b) (by omega), uint8_ofNat (a := c) (by omega)]
    rfl

/-- The text is ASCII, and does not begin with padding. -/
theorem b64encode_start (b : Bytes) : (∀ c ∈ b64encode b, c < 128) ∧ (b64encode b).head? ≠ some 61 := by
  obtain ⟨core, p, hb, hcore, hp, hlen⟩ := urlsafeB64encode_core b
  have htranslate : ∀ c, (c = 61 ∨ c ≠ 61 ∧ c < 128) → (if c = 45 then 43 else if c = 95 then 47 else c) < 128 := by
    intro c hc
    repeat' split
    all_goals omega
  constructor
  · intro c hc
    rw [b64encode, hb] at hc
    obtain ⟨d, hd, rfl⟩ := List.mem_map.1 hc
    refine htranslate d ?_
    rcases List.mem_append.1 hd with hd | hd
    · exact .inr (hcore d hd)
    · exact .inl (List.eq_of_mem_replicate hd)
  · rw [b64encode, hb]
    cases core with
    | nil =>
      rw [List.length_nil] at hlen
      obtain rfl : p = 0 := by omega
      simp
    | cons c core =>
      have hc := (hcore c List.mem_cons_self).1
      simp only [List.cons_append, List.map_cons, List.head?_cons, ne_eq, Option.some.injEq]
      repeat' split
      all_goals omega

/-- **The strict decoder undoes the encoder.** -/
theorem b64decodeStrict_encode (b : Bytes) : b64decodeStrict (b64encode b) = some b := by
  obtain ⟨hascii, hhead⟩ := b64encode_start b
  rw [b64decodeStrict, if_pos ⟨by simpa using hascii, hhead⟩, a2bStrict_encode]

end Python
