/-
  What the ciphertext of a preview is bound to (push_preview.py,
  `aad_for_preview` and `encrypt_preview`).

  The associated data names the environment, the wake handle, the event and the
  key, each after its length.

  * `aad_injective`: no two wakes have their associated data in common;
  * `preview_bound_to_wake`: so no ciphertext opens for another wake.
-/
import MercuryRelay.Push.Preview
import MercuryRelay.Python.Sha256

set_option autoImplicit false

namespace MercuryRelay

open Python

/-- What a preview is bound to. -/
structure PreviewWake where
  environment : Str
  wakeHandle : Str
  eventId : Str
  keyId : Str
  deriving DecidableEq

namespace PreviewWake

variable {w w' : PreviewWake}

/-- The fields that `aad_for_preview` joins. -/
def fields (w : PreviewWake) : List Str :=
  [aadDomain, lit "1", previewAlgorithm, w.environment, w.wakeHandle, w.eventId, w.keyId]

def aad (w : PreviewWake) : Option Bytes := aadForPreview w.environment w.wakeHandle w.eventId w.keyId

/-- The fields encode, in less than 2^32 octets each. -/
def Short (w : PreviewWake) : Prop :=
  ∀ field ∈ [w.environment, w.wakeHandle, w.eventId, w.keyId], ∃ encoded, utf8 field = some encoded ∧
    encoded.length < 2 ^ 32

theorem mapM_cons_some {f : Str → Option Bytes} {x : Str} {xs : List Str} {bs : List Bytes} :
    (x :: xs).mapM f = some bs ↔ ∃ first rest, f x = some first ∧ xs.mapM f = some rest ∧ bs = first :: rest := by
  simp only [List.mapM_cons, Option.bind_eq_bind, Option.bind_eq_some_iff, Option.pure_def, Option.some.injEq]
  constructor
  · rintro ⟨first, hfirst, rest, hrest, rfl⟩
    exact ⟨first, rest, hfirst, hrest, rfl⟩
  · rintro ⟨first, rest, hfirst, hrest, rfl⟩
    exact ⟨first, hfirst, rest, hrest, rfl⟩

/-- Fields that encode are prefixed each. -/
theorem mapM_lengthPrefixed {fields : List Str} {encoded : List Bytes} (h : fields.mapM utf8 = some encoded) :
    fields.mapM lengthPrefixed = some (encoded.map (BigEndian.prefixed 4)) := by
  induction fields generalizing encoded with
  | nil =>
    cases h
    rfl
  | cons field fields ih =>
    obtain ⟨first, rest, hfirst, hrest, rfl⟩ := mapM_cons_some.1 h
    refine mapM_cons_some.2 ⟨_, _, ?_, ih hrest, rfl⟩
    rw [lengthPrefixed, hfirst]
    rfl

/-- What the fields of a wake encode to. -/
theorem Short.encoded (h : w.Short) : ∃ encoded, w.fields.mapM utf8 = some encoded ∧ encoded.length = 7 ∧
    ∀ bs ∈ encoded, bs.length < 256 ^ 4 := by
  simp only [Short, List.forall_mem_cons] at h
  obtain ⟨⟨e1, h1, l1⟩, ⟨e2, h2, l2⟩, ⟨e3, h3, l3⟩, ⟨e4, h4, l4⟩, -⟩ := h
  have hdomain : ∃ d1 d2 d3, utf8 aadDomain = some d1 ∧ utf8 (lit "1") = some d2 ∧
      utf8 previewAlgorithm = some d3 ∧ d1.length < 256 ^ 4 ∧ d2.length < 256 ^ 4 ∧ d3.length < 256 ^ 4 :=
    ⟨_, _, _, rfl, rfl, rfl, by decide, by decide, by decide⟩
  obtain ⟨d1, d2, d3, hd1, hd2, hd3, k1, k2, k3⟩ := hdomain
  refine ⟨[d1, d2, d3, e1, e2, e3, e4], ?_, rfl, ?_⟩
  · simp only [fields, List.mapM_cons, List.mapM_nil, h1, h2, h3, h4, hd1, hd2, hd3]
    rfl
  · simp only [List.forall_mem_cons]
    exact ⟨k1, k2, k3, l1, l2, l3, l4, by simp⟩

theorem Short.aad_eq (h : w.Short) : ∃ encoded, w.fields.mapM utf8 = some encoded ∧ encoded.length = 7 ∧
    (∀ bs ∈ encoded, bs.length < 256 ^ 4) ∧ w.aad = some (encoded.map (BigEndian.prefixed 4)).flatten := by
  obtain ⟨encoded, hencoded, hlen, hshort⟩ := h.encoded
  refine ⟨encoded, hencoded, hlen, hshort, ?_⟩
  rw [aad, aadForPreview, ← fields, mapM_lengthPrefixed hencoded, Option.map_some]

/-- Texts that encode to the same octets are the same. -/
theorem utf8_mapM_injective {xs ys : List Str} {encoded : List Bytes} (hx : xs.mapM utf8 = some encoded)
    (hy : ys.mapM utf8 = some encoded) : xs = ys := by
  induction xs generalizing ys encoded with
  | nil =>
    cases hx
    cases ys with
    | nil => rfl
    | cons y ys =>
      obtain ⟨_, _, -, -, hcons⟩ := mapM_cons_some.1 hy
      cases hcons
  | cons x xs ih =>
    obtain ⟨first, rest, hfirst, hrest, rfl⟩ := mapM_cons_some.1 hx
    cases ys with
    | nil => cases hy
    | cons y ys =>
      obtain ⟨first', rest', hfirst', hrest', heq⟩ := mapM_cons_some.1 hy
      obtain ⟨rfl, rfl⟩ := List.cons.inj heq
      have hxy : some x = some y := (decodeUtf8_iff.2 hfirst).symm.trans (decodeUtf8_iff.2 hfirst')
      rw [Option.some.inj hxy, ih hrest hrest']

/-- **The associated data** of two wakes differs. -/
theorem aad_injective (h : w.Short) (h' : w'.Short) (heq : w.aad = w'.aad) : w = w' := by
  obtain ⟨encoded, hencoded, hlen, hshort, haad⟩ := h.aad_eq
  obtain ⟨encoded', hencoded', hlen', hshort', haad'⟩ := h'.aad_eq
  rw [haad, haad'] at heq
  have hsame := BigEndian.prefixed_flatten_injective (hlen.trans hlen'.symm) hshort hshort' (Option.some.inj heq)
  have hfields : w.fields = w'.fields := utf8_mapM_injective hencoded (hsame ▸ hencoded')
  obtain ⟨environment, wakeHandle, eventId, keyId⟩ := w
  obtain ⟨environment', wakeHandle', eventId', keyId'⟩ := w'
  simp only [fields, List.cons.injEq, true_and, and_true] at hfields
  obtain ⟨rfl, rfl, rfl, rfl⟩ := hfields
  rfl

/-- What `encrypt_preview` makes of a wake. -/
def encrypt (w : PreviewWake) (aead : Chacha20Poly1305) (key nonce plaintext : Bytes) : Except PreviewFault Str :=
  encryptPreview aead key nonce plaintext w.environment w.wakeHandle w.eventId w.keyId

theorem encrypt_sealed {aead : Chacha20Poly1305} {key nonce plaintext : Bytes} {ciphertext : Str}
    (h : w.encrypt aead key nonce plaintext = .ok ciphertext) :
    ∃ aad, w.aad = some aad ∧ ciphertext = canonicalB64url (aead.encrypt key nonce plaintext aad) := by
  unfold encrypt encryptPreview at h
  split at h
  · cases h
  · rw [← aad] at h
    cases haad : w.aad with
    | none =>
      rw [haad] at h
      cases h
    | some aad =>
      rw [haad] at h
      exact ⟨aad, rfl, (Except.ok.inj h).symm⟩

end PreviewWake

/-- **A preview is bound to its wake**: no two wakes have their associated data in common, and where no
    text opens under other associated data than its own, the text for one wake opens for no other. -/
theorem preview_bound_to_wake {w w' : PreviewWake} (h : w.Short) (h' : w'.Short) :
    (w.aad = w'.aad → w = w') ∧
      ∀ (aead : Chacha20Poly1305) (decrypt : Bytes → Bytes → Bytes → Bytes → Option Bytes)
        (key nonce plaintext : Bytes) (ciphertext : Str),
        (∀ aad aad', w.aad = some aad → w'.aad = some aad' → aad ≠ aad' →
          decrypt key nonce (aead.encrypt key nonce plaintext aad) aad' = none) →
        w.encrypt aead key nonce plaintext = .ok ciphertext → w ≠ w' →
        ∃ text aad', ciphertext = canonicalB64url text ∧ w'.aad = some aad' ∧ decrypt key nonce text aad' = none := by
  refine ⟨PreviewWake.aad_injective h h', ?_⟩
  intro aead decrypt key nonce plaintext ciphertext hauthentic hencrypt hne
  obtain ⟨aad, haad, htext⟩ := PreviewWake.encrypt_sealed hencrypt
  obtain ⟨_, -, -, -, haad'⟩ := h'.aad_eq
  refine ⟨_, _, htext, haad', hauthentic _ _ haad haad' ?_⟩
  rintro rfl
  exact hne (PreviewWake.aad_injective h h' (haad.trans haad'.symm))

/-- The tag is made of the digest of the associated data. -/
def digestAead : Chacha20Poly1305 where
  encrypt _ _ plaintext aad := plaintext ++ (sha256 aad).1.take 16
  length _ _ plaintext aad := by rw [List.length_append, List.length_take, (sha256 aad).2]; rfl

def digestDecrypt (_ _ text aad : Bytes) : Option Bytes :=
  if text.drop (text.length - 16) = (sha256 aad).1.take 16 then some (text.take (text.length - 16)) else none

/-- The handle of one wake begins with that of the other. -/
def prefixWakes : PreviewWake × PreviewWake :=
  (⟨lit "sandbox", lit "ab", lit "c", []⟩, ⟨lit "sandbox", lit "a", lit "bc", []⟩)

theorem preview_bound_to_wake_prefix : prefixWakes.1.aad ≠ prefixWakes.2.aad ∧ ∃ ciphertext text aad',
    prefixWakes.1.encrypt digestAead (List.replicate 32 0) (List.replicate 12 0) [1, 2, 3] = .ok ciphertext ∧
      ciphertext = canonicalB64url text ∧ prefixWakes.2.aad = some aad' ∧
      digestDecrypt (List.replicate 32 0) (List.replicate 12 0) text aad' = none := by
  have hshort : prefixWakes.1.Short ∧ prefixWakes.2.Short := by
    constructor <;> simp only [PreviewWake.Short, List.forall_mem_cons] <;>
      exact ⟨⟨_, rfl, by decide⟩, ⟨_, rfl, by decide⟩, ⟨_, rfl, by decide⟩, ⟨_, rfl, by decide⟩, by simp⟩
  have hne : prefixWakes.1 ≠ prefixWakes.2 := by decide
  obtain ⟨hinjective, hbound⟩ := preview_bound_to_wake hshort.1 hshort.2
  refine ⟨fun heq => hne (hinjective heq), ?_⟩
  obtain ⟨aad, haad⟩ : ∃ aad, prefixWakes.1.aad = some aad := ⟨_, rfl⟩
  have hencrypt : prefixWakes.1.encrypt digestAead (List.replicate 32 0) (List.replicate 12 0) [1, 2, 3] =
      .ok (canonicalB64url ([1, 2, 3] ++ (sha256 aad).1.take 16)) := by
    rw [PreviewWake.encrypt, encryptPreview, if_neg (by decide), ← PreviewWake.aad, haad]
    rfl
  have hauthentic : ∀ aad aad', prefixWakes.1.aad = some aad → prefixWakes.2.aad = some aad' → aad ≠ aad' →
      digestDecrypt (List.replicate 32 0) (List.replicate 12 0) (digestAead.encrypt (List.replicate 32 0)
        (List.replicate 12 0) [1, 2, 3] aad) aad' = none := by
    intro aad aad' haad haad' _
    have hcomputed : (prefixWakes.1.aad.bind fun aad => prefixWakes.2.aad.map fun aad' =>
        digestDecrypt (List.replicate 32 0) (List.replicate 12 0) (digestAead.encrypt (List.replicate 32 0)
          (List.replicate 12 0) [1, 2, 3] aad) aad') = some none := by decide +kernel
    rw [haad, haad'] at hcomputed
    exact Option.some.inj hcomputed
  obtain ⟨text, aad', htext, haad', hnone⟩ := hbound digestAead digestDecrypt _ _ _ _ hauthentic hencrypt hne
  exact ⟨_, text, aad', hencrypt, htext, haad', hnone⟩

end MercuryRelay
