/-
  The decoders that accept one text for octets (identity.py, `_b64decode_exact` and
  `_b64url_decode_exact`; push_preview.py, `decode_canonical_b64url`).

  * `exact_decoders`: each accepts what its encoder gives, and nothing else.
-/
import MercuryRelay.Python.Base64Strict
import MercuryRelay.Push.Bridge

set_option autoImplicit false

namespace MercuryRelay

open Python

/-- `_b64decode_exact`; `none` is its `ValueError`. -/
def b64decodeExact (value : Str) (expectedLength : ℕ) : Option Bytes :=
  if value.length > maxB64Text ∨ value = [] then none
  else
    match b64decodeStrict value with
    | none => none
    | some decoded =>
      if decoded.length ≠ expectedLength ∨ b64encode decoded ≠ value then none
      else some decoded

variable {s : Str} {b : Bytes} {n : ℕ}

theorem length_b64encode (b : Bytes) : (b64encode b).length = 4 * ((b.length + 2) / 3) := by
  rw [b64encode, List.length_map, length_urlsafeB64encode]

/-- A decoder that undoes an encoder, and compares, accepts what the encoder gives. -/
theorem compared_iff {encode : Bytes → Str} {decode : Str → Option Bytes} (hround : decode (encode b) = some b) :
    (match decode s with
      | none => none
      | some decoded => if decoded.length ≠ n ∨ encode decoded ≠ s then none else some decoded) = some b ↔
      b.length = n ∧ s = encode b := by
  constructor
  · intro h
    split at h
    · cases h
    · split at h
      · cases h
      · rename_i hsame
        rw [not_or, not_not, not_not] at hsame
        obtain rfl := Option.some.inj h
        exact ⟨hsame.1, hsame.2.symm⟩
  · rintro ⟨rfl, rfl⟩
    rw [hround]
    simp

theorem b64decodeExact_iff (hn : 1 ≤ n) (hlimit : 4 * ((n + 2) / 3) ≤ maxB64Text) :
    b64decodeExact s n = some b ↔ b.length = n ∧ s = b64encode b := by
  unfold b64decodeExact
  split
  · rename_i hrefused
    constructor
    · intro h
      cases h
    · rintro ⟨rfl, rfl⟩
      have hlen := length_b64encode b
      rcases hrefused with hlong | hnil
      · omega
      · rw [hnil, List.length_nil] at hlen
        omega
  · exact compared_iff (b64decodeStrict_encode b)

/-- The decoder of the text without padding. -/
def decodeUnpadded (value : Str) : Option Bytes :=
  urlsafeB64decode (value ++ List.replicate ((4 - value.length % 4) % 4) 61)

theorem decodeUnpadded_encode (b : Bytes) : decodeUnpadded (b64urlEncode b) = some b := urlsafeB64decode_padded b

theorem b64urlDecodeExact_iff (hn : 1 ≤ n) (hlimit : (4 * n + 2) / 3 ≤ maxB64Text) :
    b64urlDecodeExact s n = some b ↔ b.length = n ∧ s = b64urlEncode b := by
  unfold b64urlDecodeExact
  split
  · rename_i hrefused
    constructor
    · intro h
      cases h
    · rintro ⟨rfl, rfl⟩
      have hlen := length_b64urlEncode b
      rcases hrefused with hlong | hnil
      · omega
      · rw [hnil, List.length_nil] at hlen
        omega
  · exact @compared_iff _ _ _ _ decodeUnpadded (decodeUnpadded_encode b)

theorem decodeCanonicalB64url_iff : decodeCanonicalB64url s n = some b ↔ b.length = n ∧ s = canonicalB64url b :=
  @compared_iff _ _ _ _ decodeUnpadded (decodeUnpadded_encode b)

/-- **The exact decoders** accept the canonical text of so many octets, and nothing else; those of the
    URL-safe text agree. -/
theorem exact_decoders (s : Str) (b : Bytes) (hn : 1 ≤ n) :
    (4 * ((n + 2) / 3) ≤ maxB64Text → (b64decodeExact s n = some b ↔ b.length = n ∧ s = b64encode b)) ∧
      ((4 * n + 2) / 3 ≤ maxB64Text → (b64urlDecodeExact s n = some b ↔ b.length = n ∧ s = b64urlEncode b)) ∧
      (decodeCanonicalB64url s n = some b ↔ b.length = n ∧ s = canonicalB64url b) ∧
      ((4 * n + 2) / 3 ≤ maxB64Text → b64urlDecodeExact s n = decodeCanonicalB64url s n) := by
  refine ⟨b64decodeExact_iff hn, b64urlDecodeExact_iff hn, decodeCanonicalB64url_iff, fun hlimit => ?_⟩
  refine Option.ext fun decoded => ?_
  rw [b64urlDecodeExact_iff hn hlimit, decodeCanonicalB64url_iff, canonicalB64url]

/-- Of the sixteen spellings of an octet, one is accepted. -/
theorem exact_decoders_one : b64decodeExact (lit "/w==") 1 = some [255] ∧ b64decodeExact (lit "/x==") 1 ≠ some [255] ∧
    b64urlDecodeExact (lit "_w") 1 = some [255] ∧ b64urlDecodeExact (lit "_x") 1 ≠ some [255] ∧
    decodeCanonicalB64url (lit "_w") 1 = some [255] := by
  obtain ⟨hstandard, hurl, hcanonical, -⟩ := exact_decoders (lit "/w==") [255] (le_refl 1)
  obtain ⟨hother, -, -, -⟩ := exact_decoders (lit "/x==") [255] (le_refl 1)
  obtain ⟨-, hurl, hcanonical, -⟩ := exact_decoders (lit "_w") [255] (le_refl 1)
  obtain ⟨-, hspared, -, -⟩ := exact_decoders (lit "_x") [255] (le_refl 1)
  refine ⟨(hstandard (by decide)).2 ⟨rfl, by decide⟩, fun h => ?_, (hurl (by decide)).2 ⟨rfl, by decide⟩, fun h => ?_,
    hcanonical.2 ⟨rfl, by decide⟩⟩
  · exact absurd ((hother (by decide)).1 h).2 (by decide)
  · exact absurd ((hspared (by decide)).1 h).2 (by decide)

end MercuryRelay
