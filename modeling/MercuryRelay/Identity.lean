/-
  Identifiers that travel in URL paths (identity.py): the canonical URL-safe
  base64 text of their octets, and the decoder that accepts nothing else.
-/
import Mathlib.Data.List.TakeWhile
import MercuryRelay.Python.Base64

set_option autoImplicit false

namespace MercuryRelay

open Python

def rawBytes : ℕ := 32
def maxB64Text : ℕ := 128

/-- `_b64url_encode`: the padding is stripped. -/
def b64urlEncode (value : Bytes) : Str :=
  ((urlsafeB64encode value).reverse.dropWhile (· = 61)).reverse

/-- `_b64url_decode_exact`; `none` is its `ValueError`. -/
def b64urlDecodeExact (value : Str) (expectedLength : ℕ) : Option Bytes :=
  if value.length > maxB64Text ∨ value = [] then none
  else
    let padding := List.replicate ((4 - value.length % 4) % 4) 61
    match urlsafeB64decode (value ++ padding) with
    | none => none
    | some decoded =>
      if decoded.length ≠ expectedLength ∨ b64urlEncode decoded ≠ value then none
      else some decoded

/-- A character of the URL-safe alphabet. -/
def isUrlChar (c : ℕ) : Bool :=
  (65 ≤ c && c ≤ 90) || (97 ≤ c && c ≤ 122) || (48 ≤ c && c ≤ 57) || c = 95 || c = 45

theorem isUrlChar_b64urlChar (n : ℕ) : isUrlChar (b64urlChar n) = true := by
  unfold isUrlChar b64urlChar
  simp only [Bool.or_eq_true, Bool.and_eq_true, decide_eq_true_eq]
  split
  · omega
  · split
    · omega
    · split
      · omega
      · split <;> omega

/-- The padding is what is stripped. -/
theorem b64urlEncode_of_core {b : Bytes} {core : Str} {p : ℕ} (hb : urlsafeB64encode b = core ++ List.replicate p 61)
    (hcore : ∀ c ∈ core, c ≠ 61) : b64urlEncode b = core := by
  have hstrip : ∀ c ∈ List.replicate p 61, decide (c = 61) = true := by
    intro c hc
    simpa using List.eq_of_mem_replicate hc
  have hkeep : core.reverse.dropWhile (fun c => decide (c = 61)) = core.reverse := by
    rw [List.dropWhile_eq_self_iff]
    intro h
    simpa using hcore _ (List.mem_reverse.1 (List.getElem_mem h))
  rw [b64urlEncode, hb, List.reverse_append, List.reverse_replicate,
    List.dropWhile_append_of_pos hstrip, hkeep, List.reverse_reverse]

/-- The identifier made of octets, and the padding it is stripped of. -/
theorem b64urlEncode_spec (b : Bytes) : ∃ p, urlsafeB64encode b = b64urlEncode b ++ List.replicate p 61 ∧
    (∀ c ∈ b64urlEncode b, isUrlChar c = true) ∧ p ≤ 2 ∧
      3 * ((b64urlEncode b).length + p) = 4 * (b.length + p) := by
  obtain ⟨core, p, hb, hcore, hp, hlen⟩ := urlsafeB64encode_core b
  have henc : b64urlEncode b = core := b64urlEncode_of_core hb fun c hc => (hcore c hc).1
  rw [henc]
  refine ⟨p, hb, ?_, hp, hlen⟩
  intro c hc
  have hmem : c ∈ urlsafeB64encode b := by
    rw [hb]
    exact List.mem_append_left _ hc
  rcases urlsafeB64encode_mem hmem with rfl | ⟨n, rfl⟩
  · exact absurd rfl (hcore _ hc).1
  · exact isUrlChar_b64urlChar n

/-- Four characters for three octets, less the padding. -/
theorem length_b64urlEncode (b : Bytes) : (b64urlEncode b).length = (4 * b.length + 2) / 3 := by
  obtain ⟨p, -, -, hp, hlen⟩ := b64urlEncode_spec b
  omega

theorem b64urlEncode_ne_nil {b : Bytes} (h : b ≠ []) : b64urlEncode b ≠ [] := by
  intro hnil
  have hlen := length_b64urlEncode b
  have hpos : 0 < b.length := List.length_pos_iff.2 h
  rw [hnil, List.length_nil] at hlen
  omega

/-- With its padding put back, the identifier decodes to the octets. -/
theorem urlsafeB64decode_padded (b : Bytes) : urlsafeB64decode (b64urlEncode b ++
    List.replicate ((4 - (b64urlEncode b).length % 4) % 4) 61) = some b := by
  obtain ⟨p, hb, -, hp, hlen⟩ := b64urlEncode_spec b
  have hpad : (4 - (b64urlEncode b).length % 4) % 4 = p := by omega
  rw [hpad, ← hb, urlsafeB64decode_encode]

/-- The identifier made of octets decodes to them. -/
theorem b64urlDecodeExact_encode {b : Bytes} (hpos : b ≠ []) (hlen : b.length ≤ 93) :
    b64urlDecodeExact (b64urlEncode b) b.length = some b := by
  have hlength := length_b64urlEncode b
  have hne := b64urlEncode_ne_nil hpos
  rw [b64urlDecodeExact, if_neg (by rw [not_or]; exact ⟨by unfold maxB64Text; omega, hne⟩)]
  dsimp only
  rw [urlsafeB64decode_padded]
  simp

/-- The host identity record, less the private key, which no repository
    operation reads. -/
structure HostIdentity where
  installationId : Raw
  publicKey : Raw
  deriving DecidableEq

end MercuryRelay
