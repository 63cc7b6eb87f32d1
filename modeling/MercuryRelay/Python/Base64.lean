/-
  The URL-safe half of Python's `base64`: `urlsafe_b64encode` and the lenient
  `urlsafe_b64decode`, which skips characters outside its alphabet.
-/
import MercuryRelay.Python.Text

set_option autoImplicit false

namespace Python

/-- The character of a six-bit value in the URL-safe alphabet. -/
def b64urlChar (n : ℕ) : ℕ :=
  if n < 26 then 65 + n else if n < 52 then 71 + n else if n < 62 then n - 4
  else if n = 62 then 45 else 95

/-- `base64.urlsafe_b64encode(b).decode("ascii")`. -/
def urlsafeB64encode : Bytes → Str
  | [] => []
  | [a] => let x := a.toNat * 16; [b64urlChar (x / 64), b64urlChar (x % 64), 61, 61]
  | [a, b] =>
    let x := (a.toNat * 256 + b.toNat) * 4
    [b64urlChar (x / 4096), b64urlChar (x / 64 % 64), b64urlChar (x % 64), 61]
  | a :: b :: c :: r =>
    let x := a.toNat * 65536 + b.toNat * 256 + c.toNat
    [b64urlChar (x / 262144), b64urlChar (x / 4096 % 64), b64urlChar (x / 64 % 64),
      b64urlChar (x % 64)] ++ urlsafeB64encode r

/-- `base64.b64encode(b).decode("ascii")`: `+` and `/` for `-` and `_`. -/
def b64encode (b : Bytes) : Str :=
  (urlsafeB64encode b).map fun c => if c = 45 then 43 else if c = 95 then 47 else c

theorem length_urlsafeB64encode : ∀ b : Bytes, (urlsafeB64encode b).length = 4 * ((b.length + 2) / 3)
  | [] => rfl
  | [_] => by simp [urlsafeB64encode]
  | [_, _] => by simp [urlsafeB64encode]
  | _ :: _ :: _ :: r => by
    simp only [urlsafeB64encode, List.length_append, List.length_cons, List.length_nil,
      length_urlsafeB64encode r]
    omega

/-- A character of the alphabet or the padding. -/
theorem urlsafeB64encode_mem : ∀ {b : Bytes} {c : ℕ}, c ∈ urlsafeB64encode b →
    c = 61 ∨ ∃ n, c = b64urlChar n
  | [], c, h => by simp [urlsafeB64encode] at h
  | [_], c, h => by
    simp only [urlsafeB64encode, List.mem_cons, List.not_mem_nil, or_false] at h
    rcases h with h | h | h | h
    · exact .inr ⟨_, h⟩
    · exact .inr ⟨_, h⟩
    · exact .inl h
    · exact .inl h
  | [_, _], c, h => by
    simp only [urlsafeB64encode, List.mem_cons, List.not_mem_nil, or_false] at h
    rcases h with h | h | h | h
    · exact .inr ⟨_, h⟩
    · exact .inr ⟨_, h⟩
    · exact .inr ⟨_, h⟩
    · exact .inl h
  | _ :: _ :: _ :: r, c, h => by
    simp only [urlsafeB64encode, List.mem_append, List.mem_cons, List.not_mem_nil, or_false] at h
    rcases h with (h | h | h | h) | h
    · exact .inr ⟨_, h⟩
    · exact .inr ⟨_, h⟩
    · exact .inr ⟨_, h⟩
    · exact .inr ⟨_, h⟩
    · exact urlsafeB64encode_mem h

/-- The six-bit value of a character after `-_` were translated to `+/`. -/
def b64Value (c : ℕ) : Option ℕ :=
  if 65 ≤ c ∧ c ≤ 90 then some (c - 65)
  else if 97 ≤ c ∧ c ≤ 122 then some (c - 71)
  else if 48 ≤ c ∧ c ≤ 57 then some (c + 4)
  else if c = 43 ∨ c = 45 then some 62
  else if c = 47 ∨ c = 95 then some 63
  else none

/-- `binascii.a2b_base64` outside strict mode, at position `quad` of a quad
    with `left` bits kept and `pads` padding characters seen. -/
def a2bBase64 (quad left pads : ℕ) : Str → Option Bytes
  | [] => if quad = 0 then some [] else none
  | c :: s =>
    if c = 61 then
      if 2 ≤ quad ∧ 4 ≤ quad + (pads + 1) then some []
      else a2bBase64 quad left (if 2 ≤ quad then pads + 1 else pads) s
    else
      match b64Value c with
      | none => a2bBase64 quad left pads s
      | some v =>
        match quad with
        | 0 => a2bBase64 1 v 0 s
        | 1 => (a2bBase64 2 (v % 16) 0 s).map (.ofNat (left * 4 + v / 16) :: ·)
        | 2 => (a2bBase64 3 (v % 4) 0 s).map (.ofNat (left * 16 + v / 4) :: ·)
        | _ => (a2bBase64 0 0 0 s).map (.ofNat (left * 64 + v) :: ·)

/-- `base64.urlsafe_b64decode(s.encode("ascii"))`; `none` where either raises. -/
def urlsafeB64decode (s : Str) : Option Bytes :=
  if s.all (· < 128) then a2bBase64 0 0 0 s else none

/-! ## Round trip -/

theorem b64urlChar_spec {n : ℕ} (h : n < 64) :
    b64Value (b64urlChar n) = some n ∧ b64urlChar n ≠ 61 ∧ b64urlChar n < 128 := by
  have hall : ∀ m < 64,
      b64Value (b64urlChar m) = some m ∧ b64urlChar m ≠ 61 ∧ b64urlChar m < 128 := by decide
  exact hall n h

/-! The decoder at a character of the alphabet, for each position in a quad. -/

section Decoder

variable {n : ℕ} (h : n < 64) (left pads : ℕ) (s : Str)

include h

theorem a2bBase64_char0 : a2bBase64 0 left pads (b64urlChar n :: s) = a2bBase64 1 n 0 s := by
  obtain ⟨hvalue, hpad, -⟩ := b64urlChar_spec h
  simp only [a2bBase64, hpad, if_false, hvalue]

theorem a2bBase64_char1 : a2bBase64 1 left pads (b64urlChar n :: s) =
    (a2bBase64 2 (n % 16) 0 s).map (.ofNat (left * 4 + n / 16) :: ·) := by
  obtain ⟨hvalue, hpad, -⟩ := b64urlChar_spec h
  simp only [a2bBase64, hpad, if_false, hvalue]

theorem a2bBase64_char2 : a2bBase64 2 left pads (b64urlChar n :: s) =
    (a2bBase64 3 (n % 4) 0 s).map (.ofNat (left * 16 + n / 4) :: ·) := by
  obtain ⟨hvalue, hpad, -⟩ := b64urlChar_spec h
  simp only [a2bBase64, hpad, if_false, hvalue]

theorem a2bBase64_char3 : a2bBase64 3 left pads (b64urlChar n :: s) =
    (a2bBase64 0 0 0 s).map (.ofNat (left * 64 + n) :: ·) := by
  obtain ⟨hvalue, hpad, -⟩ := b64urlChar_spec h
  simp only [a2bBase64, hpad, if_false, hvalue]

end Decoder

theorem uint8_ofNat {a : UInt8} {n : ℕ} (h : n = a.toNat) : UInt8.ofNat n = a := by
  rw [h, UInt8.ofNat_toNat]

theorem a2bBase64_encode : ∀ b : Bytes, a2bBase64 0 0 0 (urlsafeB64encode b) = some b
  | [] => rfl
  | [a] => by
    have ha := a.toNat_lt
    have hend : a2bBase64 2 (a.toNat * 16 % 64 % 16) 0 [61, 61] = some [] := rfl
    rw [urlsafeB64encode, a2bBase64_char0 (by omega), a2bBase64_char1 (by omega), hend,
      uint8_ofNat (a := a) (by omega)]
    rfl
  | [a, b] => by
    have ha := a.toNat_lt
    have hb := b.toNat_lt
    generalize hx : (a.toNat * 256 + b.toNat) * 4 = x
    have hend : a2bBase64 3 (x % 64 % 4) 0 [61] = some [] := rfl
    rw [urlsafeB64encode, hx, a2bBase64_char0 (by omega), a2bBase64_char1 (by omega),
      a2bBase64_char2 (by omega), hend, uint8_ofNat (a := a) (by omega),
      uint8_ofNat (a := b) (by omega)]
    rfl
  | a :: b :: c :: r => by
    have ha := a.toNat_lt
    have hb := b.toNat_lt
    have hc := c.toNat_lt
    generalize hx : a.toNat * 65536 + b.toNat * 256 + c.toNat = x
    rw [urlsafeB64encode, hx]
    show a2bBase64 0 0 0 (b64urlChar (x / 262144) :: b64urlChar (x / 4096 % 64) ::
      b64urlChar (x / 64 % 64) :: b64urlChar (x % 64) :: urlsafeB64encode r) = _
    rw [a2bBase64_char0 (by omega), a2bBase64_char1 (by omega), a2bBase64_char2 (by omega),
      a2bBase64_char3 (by omega), a2bBase64_encode r, uint8_ofNat (a := a) (by omega),
      uint8_ofNat (a := b) (by omega), uint8_ofNat (a := c) (by omega)]
    rfl

/-- The encoded text, its padding apart. -/
theorem urlsafeB64encode_core : ∀ b : Bytes, ∃ core p, urlsafeB64encode b = core ++ List.replicate p 61 ∧
    (∀ c ∈ core, c ≠ 61 ∧ c < 128) ∧ p ≤ 2 ∧ 3 * (core.length + p) = 4 * (b.length + p)
  | [] => ⟨[], 0, rfl, by simp, by simp, rfl⟩
  | [a] => by
    have ha := a.toNat_lt
    refine ⟨[b64urlChar (a.toNat * 16 / 64), b64urlChar (a.toNat * 16 % 64)], 2, rfl, ?_, by simp, by simp⟩
    have h1 := b64urlChar_spec (n := a.toNat * 16 / 64) (by omega)
    have h2 := b64urlChar_spec (n := a.toNat * 16 % 64) (by omega)
    simp [h1, h2]
  | [a, b] => by
    have ha := a.toNat_lt
    have hb := b.toNat_lt
    generalize hx : (a.toNat * 256 + b.toNat) * 4 = x
    refine ⟨[b64urlChar (x / 4096), b64urlChar (x / 64 % 64), b64urlChar (x % 64)], 1,
      by rw [← hx]; rfl, ?_, by simp, by simp⟩
    have h1 := b64urlChar_spec (n := x / 4096) (by omega)
    have h2 := b64urlChar_spec (n := x / 64 % 64) (by omega)
    have h3 := b64urlChar_spec (n := x % 64) (by omega)
    simp [h1, h2, h3]
  | a :: b :: c :: r => by
    have ha := a.toNat_lt
    have hb := b.toNat_lt
    have hc := c.toNat_lt
    obtain ⟨core, p, hr, hcore, hp, hlen⟩ := urlsafeB64encode_core r
    generalize hx : a.toNat * 65536 + b.toNat * 256 + c.toNat = x
    have h1 := b64urlChar_spec (n := x / 262144) (by omega)
    have h2 := b64urlChar_spec (n := x / 4096 % 64) (by omega)
    have h3 := b64urlChar_spec (n := x / 64 % 64) (by omega)
    have h4 := b64urlChar_spec (n := x % 64) (by omega)
    refine ⟨[b64urlChar (x / 262144), b64urlChar (x / 4096 % 64), b64urlChar (x / 64 % 64),
      b64urlChar (x % 64)] ++ core, p, ?_, ?_, hp, ?_⟩
    · rw [urlsafeB64encode, hr, ← hx]
      simp
    · simpa [h1, h2, h3, h4] using hcore
    · simp only [List.length_append, List.length_cons, List.length_nil]
      omega

/-- **The decoder inverts the encoder.** -/
theorem urlsafeB64decode_encode (b : Bytes) : urlsafeB64decode (urlsafeB64encode b) = some b := by
  obtain ⟨core, p, hb, hcore, -⟩ := urlsafeB64encode_core b
  have hascii : (urlsafeB64encode b).all (· < 128) = true := by
    rw [hb, List.all_eq_true]
    intro c hc
    rcases List.mem_append.1 hc with hc | hc
    · simpa using (hcore c hc).2
    · rw [List.eq_of_mem_replicate hc]
      rfl
  rw [urlsafeB64decode, if_pos hascii, a2bBase64_encode]

end Python
