/-
  How often a routing token can be spelled (routing_auth.py, `_b64url_decode_loose`
  and `verify_routing_token`).

  The last character of a segment can have bits that the decoder leaves out; four
  for one octet more than a multiple of three, two for two octets more.

  * `eq_spelled`: a segment is made of its octets and these bits;
  * `token_spelling_iff`: so a token is canonical if and only if they are zero.
-/
import MercuryRelay.Routing.Token

set_option autoImplicit false

namespace MercuryRelay

open Python

/-! ## Spellings -/

/-- The text of octets whose last character has these bits to spare. -/
def spelled : Bytes → ℕ → Str
  | [], _ => []
  | [a], k => [b64urlChar (a.toNat / 4), b64urlChar (a.toNat % 4 * 16 + k)]
  | [a, b], k =>
    [b64urlChar (a.toNat / 4), b64urlChar (a.toNat % 4 * 16 + b.toNat / 16), b64urlChar (b.toNat % 16 * 4 + k)]
  | a :: b :: c :: r, k =>
    [b64urlChar (a.toNat / 4), b64urlChar (a.toNat % 4 * 16 + b.toNat / 16),
      b64urlChar (b.toNat % 16 * 4 + c.toNat / 64), b64urlChar (c.toNat % 64)] ++ spelled r k

/-- The bits of the last character that the decoder leaves out. -/
def spareBits (s : Str) : ℕ :=
  let value := (s.getLast?.bind b64Value).getD 0
  if s.length % 4 = 2 then value % 16 else if s.length % 4 = 3 then value % 4 else 0

variable {s s' : Str} {b : Bytes}

theorem spareBits_cons (w x y z : ℕ) (s : Str) : spareBits (w :: x :: y :: z :: s) = spareBits s := by
  cases s with
  | nil => simp [spareBits]
  | cons c s =>
    have hlast : (w :: x :: y :: z :: c :: s).getLast? = (c :: s).getLast? := by simp
    have hlen : (w :: x :: y :: z :: c :: s).length % 4 = (c :: s).length % 4 := by
      simp only [List.length_cons]
      omega
    rw [spareBits, hlast, hlen, spareBits]

/-- The canonical text has no bits to spare. -/
theorem spelled_zero : ∀ b : Bytes, ∃ p, urlsafeB64encode b = spelled b 0 ++ List.replicate p 61
  | [] => ⟨0, rfl⟩
  | [a] => by
    refine ⟨2, ?_⟩
    have h1 : a.toNat * 16 / 64 = a.toNat / 4 := by omega
    have h2 : a.toNat * 16 % 64 = a.toNat % 4 * 16 := by omega
    simp [urlsafeB64encode, spelled, h1, h2]
  | [a, b] => by
    refine ⟨1, ?_⟩
    have hb := b.toNat_lt
    have h1 : (a.toNat * 256 + b.toNat) * 4 / 4096 = a.toNat / 4 := by omega
    have h2 : (a.toNat * 256 + b.toNat) * 4 / 64 % 64 = a.toNat % 4 * 16 + b.toNat / 16 := by omega
    have h3 : (a.toNat * 256 + b.toNat) * 4 % 64 = b.toNat % 16 * 4 := by omega
    simp [urlsafeB64encode, spelled, h1, h2, h3]
  | a :: b :: c :: r => by
    obtain ⟨p, hr⟩ := spelled_zero r
    refine ⟨p, ?_⟩
    have hb := b.toNat_lt
    have hc := c.toNat_lt
    generalize hx : a.toNat * 65536 + b.toNat * 256 + c.toNat = x
    have h1 : x / 262144 = a.toNat / 4 := by omega
    have h2 : x / 4096 % 64 = a.toNat % 4 * 16 + b.toNat / 16 := by omega
    have h3 : x / 64 % 64 = b.toNat % 16 * 4 + c.toNat / 64 := by omega
    have h4 : x % 64 = c.toNat % 64 := by omega
    rw [urlsafeB64encode, hx, hr, h1, h2, h3, h4]
    rfl

theorem isUrlChar_value {c : ℕ} (h : isUrlChar c = true) : ∃ n < 64, c = b64urlChar n := by
  simp only [isUrlChar, Bool.or_eq_true, Bool.and_eq_true, decide_eq_true_eq] at h
  unfold b64urlChar
  rcases h with (((hupper | hlower) | hdigit) | rfl) | rfl
  · refine ⟨c - 65, by omega, ?_⟩
    rw [if_pos (by omega)]
    omega
  · refine ⟨c - 71, by omega, ?_⟩
    rw [if_neg (by omega), if_pos (by omega)]
    omega
  · refine ⟨c + 4, by omega, ?_⟩
    rw [if_neg (by omega), if_neg (by omega), if_pos (by omega)]
    omega
  · exact ⟨63, by omega, rfl⟩
  · exact ⟨62, by omega, rfl⟩

theorem toNat_octet {n : ℕ} (h : n < 256) : (UInt8.ofNat n).toNat = n := by
  rw [UInt8.toNat_ofNat']
  omega

/-- **A segment that decodes** is made of its octets and the bits to spare. -/
theorem eq_spelled {s : Str} {b : Bytes} (hs : ∀ c ∈ s, isUrlChar c = true)
    (h : a2bBase64 0 0 0 (s ++ List.replicate ((4 - s.length % 4) % 4) 61) = some b) : s = spelled b (spareBits s) := by
  match s, b, hs, h with
  | [], b, hs, h =>
    cases h
    rfl
  | [c], b, hs, h =>
    obtain ⟨n, hn, rfl⟩ := isUrlChar_value (hs c (by simp))
    rw [List.singleton_append, a2bBase64_char0 hn] at h
    cases h
  | [c, d], b, hs, h =>
    obtain ⟨m, hm, rfl⟩ := isUrlChar_value (hs c (by simp))
    obtain ⟨n, hn, rfl⟩ := isUrlChar_value (hs d (by simp))
    have hspare : spareBits [b64urlChar m, b64urlChar n] = n % 16 := by
      simp [spareBits, (b64urlChar_spec hn).1]
    rw [List.cons_append, List.singleton_append, a2bBase64_char0 hm, a2bBase64_char1 hn] at h
    obtain rfl := Option.some.inj h
    have hfirst : (m * 4 + n / 16) / 4 = m := by omega
    have hlast : (m * 4 + n / 16) % 4 * 16 + n % 16 = n := by omega
    rw [hspare, spelled, toNat_octet (by omega), hfirst, hlast]
  | [c, d, e], b, hs, h =>
    obtain ⟨l, hl, rfl⟩ := isUrlChar_value (hs c (by simp))
    obtain ⟨m, hm, rfl⟩ := isUrlChar_value (hs d (by simp))
    obtain ⟨n, hn, rfl⟩ := isUrlChar_value (hs e (by simp))
    have hspare : spareBits [b64urlChar l, b64urlChar m, b64urlChar n] = n % 4 := by
      simp [spareBits, (b64urlChar_spec hn).1]
    rw [List.cons_append, List.cons_append, List.singleton_append, a2bBase64_char0 hl, a2bBase64_char1 hm,
      a2bBase64_char2 hn] at h
    obtain rfl := Option.some.inj h
    have hfirst : (l * 4 + m / 16) / 4 = l := by omega
    have hsecond : (l * 4 + m / 16) % 4 * 16 + (m % 16 * 16 + n / 4) / 16 = m := by omega
    have hlast : (m % 16 * 16 + n / 4) % 16 * 4 + n % 4 = n := by omega
    rw [hspare, spelled, toNat_octet (by omega), toNat_octet (by omega), hfirst, hsecond, hlast]
  | c :: d :: e :: f :: s, b, hs, h =>
    obtain ⟨k, hk, rfl⟩ := isUrlChar_value (hs c (by simp))
    obtain ⟨l, hl, rfl⟩ := isUrlChar_value (hs d (by simp))
    obtain ⟨m, hm, rfl⟩ := isUrlChar_value (hs e (by simp))
    obtain ⟨n, hn, rfl⟩ := isUrlChar_value (hs f (by simp))
    have hpad : (4 - (b64urlChar k :: b64urlChar l :: b64urlChar m :: b64urlChar n :: s).length % 4) % 4 =
        (4 - s.length % 4) % 4 := by
      simp only [List.length_cons]
      omega
    rw [hpad, List.cons_append, List.cons_append, List.cons_append, List.cons_append, a2bBase64_char0 hk,
      a2bBase64_char1 hl, a2bBase64_char2 hm, a2bBase64_char3 hn, Option.map_map, Option.map_map] at h
    obtain ⟨rest, hrest, rfl⟩ := Option.map_eq_some_iff.1 h
    have hfirst : (k * 4 + l / 16) / 4 = k := by omega
    have hsecond : (k * 4 + l / 16) % 4 * 16 + (l % 16 * 16 + m / 4) / 16 = l := by omega
    have hthird : (l % 16 * 16 + m / 4) % 16 * 4 + (m % 4 * 64 + n) / 64 = m := by omega
    have hlast : (m % 4 * 64 + n) % 64 = n := by omega
    have hs' := eq_spelled (fun c hc => hs c (by simp [hc])) hrest
    simp only [Function.comp_apply]
    rw [spareBits_cons, spelled, toNat_octet (by omega), toNat_octet (by omega), toNat_octet (by omega), hfirst,
      hsecond, hthird, hlast, ← hs']
    rfl

theorem spelled_chars {c : ℕ} (k : ℕ) : ∀ {b : Bytes}, c ∈ spelled b k → ∃ n, c = b64urlChar n
  | [], h => by cases h
  | [_], h => by
    simp only [spelled, List.mem_cons, List.not_mem_nil, or_false] at h
    rcases h with h | h <;> exact ⟨_, h⟩
  | [_, _], h => by
    simp only [spelled, List.mem_cons, List.not_mem_nil, or_false] at h
    rcases h with h | h | h <;> exact ⟨_, h⟩
  | _ :: _ :: _ :: r, h => by
    simp only [spelled, List.mem_append, List.mem_cons, List.not_mem_nil, or_false] at h
    rcases h with (h | h | h | h) | h
    · exact ⟨_, h⟩
    · exact ⟨_, h⟩
    · exact ⟨_, h⟩
    · exact ⟨_, h⟩
    · exact spelled_chars k h

theorem b64urlEncode_eq_spelled (b : Bytes) : b64urlEncode b = spelled b 0 := by
  obtain ⟨p, hb⟩ := spelled_zero b
  refine b64urlEncode_of_core hb fun c hc => ?_
  obtain ⟨n, rfl⟩ := spelled_chars 0 hc
  rintro hpad
  have hurl := isUrlChar_b64urlChar n
  rw [hpad] at hurl
  cases hurl

theorem spareBits_spelled_zero : ∀ b : Bytes, spareBits (spelled b 0) = 0
  | [] => rfl
  | [a] => by
    have hvalue := (@b64urlChar_spec (a.toNat % 4 * 16) (by omega)).1
    simp [spareBits, spelled, hvalue]
  | [a, b] => by
    have hvalue := (@b64urlChar_spec (b.toNat % 16 * 4) (by omega)).1
    simp [spareBits, spelled, hvalue]
  | _ :: _ :: _ :: r => by
    rw [spelled]
    exact (spareBits_cons _ _ _ _ _).trans (spareBits_spelled_zero r)

/-! ## Segments -/

theorem eq_spelled_of_decode (h : b64urlDecodeLoose s = some b) : s = spelled b (spareBits s) := by
  unfold b64urlDecodeLoose at h
  split at h
  · cases h
  · rename_i hchars
    rw [not_or, not_not, List.all_eq_true] at hchars
    unfold urlsafeB64decode at h
    split at h
    · exact eq_spelled hchars.2 h
    · cases h

/-- A text is canonical if it has no bits set that are left out. -/
theorem eq_b64urlEncode_iff (h : b64urlDecodeLoose s = some b) : s = b64urlEncode b ↔ spareBits s = 0 := by
  rw [b64urlEncode_eq_spelled]
  constructor
  · intro heq
    rw [heq, spareBits_spelled_zero]
  · intro hzero
    have heq := eq_spelled_of_decode h
    rwa [hzero] at heq

/-- Texts of the same octets differ in the bits that are left out. -/
theorem eq_iff_spareBits (h : b64urlDecodeLoose s = some b) (h' : b64urlDecodeLoose s' = some b) :
    s = s' ↔ spareBits s = spareBits s' := by
  constructor
  · exact congrArg spareBits
  · intro hspare
    rw [eq_spelled_of_decode h, eq_spelled_of_decode h', hspare]

/-- The one text for its octets. -/
def Canonical (s : Str) : Prop := ∃ b, b64urlDecodeLoose s = some b ∧ s = b64urlEncode b

theorem canonical_iff (h : b64urlDecodeLoose s = some b) : Canonical s ↔ spareBits s = 0 := by
  rw [← eq_b64urlEncode_iff h]
  constructor
  · rintro ⟨b', hb', heq⟩
    rw [h] at hb'
    rwa [Option.some.inj hb']
  · exact fun heq => ⟨b, h, heq⟩

/-! ## Tokens -/

/-- The segments after the header. -/
def tokenSegments (token : Str) : List Str := (token.splitOn 46).drop 1

/-- The octets that the segments decode to. -/
def tokenOctets (token : Str) : List (Option Bytes) := (token.splitOn 46).map b64urlDecodeLoose

/-- The segments of a token and the key that it names are canonical. -/
structure OneSpelling (token : Str) (claims : List (Str × Json)) : Prop where
  segments : ∀ segment ∈ tokenSegments token, Canonical segment
  key : ∀ pk, Json.lookup claims (lit "pk") = some (.str pk) → Canonical pk

/-- No bits are left out of them. -/
structure Spareless (token : Str) (claims : List (Str × Json)) : Prop where
  segments : ∀ segment ∈ tokenSegments token, spareBits segment = 0
  key : ∀ pk, Json.lookup claims (lit "pk") = some (.str pk) → spareBits pk = 0

/-- What is known of a token that was accepted. -/
structure Accepted (token : Str) (claims : List (Str × Json)) : Prop where
  split : ∃ claimsB64 signatureB64 claimsRaw signature, token.splitOn 46 = [headerB64, claimsB64, signatureB64] ∧
    b64urlDecodeLoose claimsB64 = some claimsRaw ∧ b64urlDecodeLoose signatureB64 = some signature
  key : ∀ pk, Json.lookup claims (lit "pk") = some (.str pk) → ∃ named, b64urlDecodeLoose pk = some named

variable {ed : Ed25519} {depths : JsonDepths} {token : Str} {publicKey : Bytes} {installation : Option Str}
  {now skewSeconds : ℤ} {claims : List (Str × Json)}

theorem key_of_checkNamedKey (h : checkNamedKey claims publicKey = .ok ()) (pk : Str)
    (hpk : Json.lookup claims (lit "pk") = some (.str pk)) : ∃ named, b64urlDecodeLoose pk = some named := by
  unfold checkNamedKey at h
  rw [hpk] at h
  dsimp only at h
  split at h
  · cases h
  · cases hnamed : b64urlDecodeLoose pk with
    | none =>
      rw [hnamed] at h
      cases h
    | some named => exact ⟨named, rfl⟩

theorem accepted_of_verify (h : verifyRoutingToken ed depths token publicKey installation now skewSeconds = .ok claims) :
    Accepted token claims := by
  unfold verifyRoutingToken at h
  split at h
  · cases h
  split at h
  · rename_i header claimsB64 signatureB64 hsplit
    split at h
    · cases h
    rename_i hheader
    obtain rfl := not_not.1 hheader
    split at h
    · rename_i claimsRaw signature hclaims hsignature
      refine ⟨⟨claimsB64, signatureB64, claimsRaw, signature, hsplit, hclaims, hsignature⟩, ?_⟩
      split at h
      · cases h
      split at h
      · unfold verifyClaims at h
        split at h
        · cases h
        · cases h
        · split at h
          · cases h
          · split at h
            · cases h
            · split at h
              · cases h
              · rename_i hkey
                split at h
                · cases h
                split at h
                · cases h
                obtain rfl := Except.ok.inj h
                exact key_of_checkNamedKey hkey
      · cases h
    · cases h
  · cases h

/-- **A token is spelled canonically** if and only if no bits are left out of its segments and of the key
    that it names; and tokens of the same octets differ in these bits. -/
theorem token_spelling_iff
    (h : verifyRoutingToken ed depths token publicKey installation now skewSeconds = .ok claims) :
    (OneSpelling token claims ↔ Spareless token claims) ∧
      ∀ ed' depths' token' publicKey' installation' now' skewSeconds' claims',
        verifyRoutingToken ed' depths' token' publicKey' installation' now' skewSeconds' = .ok claims' →
        tokenOctets token = tokenOctets token' →
        (token = token' ↔ (tokenSegments token).map spareBits = (tokenSegments token').map spareBits) := by
  obtain ⟨⟨claimsB64, signatureB64, claimsRaw, signature, hsplit, hclaims, hsignature⟩, hkey⟩ := accepted_of_verify h
  have hsegments : tokenSegments token = [claimsB64, signatureB64] := by rw [tokenSegments, hsplit]; rfl
  constructor
  · constructor
    · intro hone
      constructor
      · have hall := hone.segments
        simp only [hsegments, List.forall_mem_cons] at hall ⊢
        exact ⟨(canonical_iff hclaims).1 hall.1, (canonical_iff hsignature).1 hall.2.1, by simp⟩
      · intro pk hpk
        obtain ⟨named, hnamed⟩ := hkey pk hpk
        exact (canonical_iff hnamed).1 (hone.key pk hpk)
    · intro hspare
      constructor
      · have hall := hspare.segments
        simp only [hsegments, List.forall_mem_cons] at hall ⊢
        exact ⟨(canonical_iff hclaims).2 hall.1, (canonical_iff hsignature).2 hall.2.1, by simp⟩
      · intro pk hpk
        obtain ⟨named, hnamed⟩ := hkey pk hpk
        exact (canonical_iff hnamed).2 (hspare.key pk hpk)
  · intro ed' depths' token' publicKey' installation' now' skewSeconds' claims' h' hoctets
    obtain ⟨⟨claimsB64', signatureB64', claimsRaw', signature', hsplit', hclaims', hsignature'⟩, -⟩ :=
      accepted_of_verify h'
    have hsegments' : tokenSegments token' = [claimsB64', signatureB64'] := by rw [tokenSegments, hsplit']; rfl
    simp only [tokenOctets, hsplit, hsplit', List.map_cons, List.map_nil, List.cons.injEq, true_and, and_true, hclaims,
      hclaims', hsignature, hsignature', Option.some.injEq] at hoctets
    obtain ⟨rfl, rfl⟩ := hoctets
    rw [hsegments, hsegments']
    simp only [List.map_cons, List.map_nil, List.cons.injEq, and_true]
    rw [← eq_iff_spareBits hclaims hclaims', ← eq_iff_spareBits hsignature hsignature']
    constructor
    · rintro rfl
      rw [hsplit] at hsplit'
      simp only [List.cons.injEq, true_and, and_true] at hsplit'
      exact hsplit'
    · rintro ⟨rfl, rfl⟩
      have hjoin : [46].intercalate (token.splitOn 46) = token := List.intercalate_splitOn 46
      have hjoin' : [46].intercalate (token'.splitOn 46) = token' := List.intercalate_splitOn 46
      rw [← hjoin, ← hjoin', hsplit, hsplit']

/-- The claims of a token that names the zero key. -/
def hostClaims : Str :=
  lit "\x7b\"aud\":\"mercury-relay\"," ++ lit "\"exp\":2,\"iat\":1,\"inst\":\"\"," ++ lit "\"jti\":\"a\",\"pk\":\"" ++
    b64urlEncode (digestScheme.publicKey zeroRaw).1 ++ lit "\",\"role\":\"host\"\x7d"

def hostToken : Str := signClaims digestScheme zeroRaw hostClaims

/-- The same, with another last character. -/
def respelledToken : Str := hostToken.dropLast ++ (hostToken.getLast?.map (· + 1)).toList

def verifyHost (token : Str) : Except TokenFault (List (Str × Json)) :=
  verifyRoutingToken digestScheme ⟨1, 1⟩ token (digestScheme.publicKey zeroRaw).1 none 1

/-- The key that a verified token names. -/
def namedKey (token : Str) : Option Json := (verifyHost token).toOption.bind fun claims => Json.lookup claims (lit "pk")

theorem namedKey_some {token pk : Str} (h : namedKey token = some (.str pk)) :
    ∃ claims, verifyHost token = .ok claims ∧ Json.lookup claims (lit "pk") = some (.str pk) := by
  unfold namedKey at h
  cases hverify : verifyHost token with
  | error fault =>
    rw [hverify] at h
    cases h
  | ok claims =>
    rw [hverify] at h
    exact ⟨claims, rfl, h⟩

theorem hostToken_respelled : namedKey hostToken = some (.str (b64urlEncode (digestScheme.publicKey zeroRaw).1)) ∧
    namedKey respelledToken = some (.str (b64urlEncode (digestScheme.publicKey zeroRaw).1)) ∧
    hostToken ≠ respelledToken ∧ tokenOctets hostToken = tokenOctets respelledToken ∧
    (tokenSegments hostToken).map spareBits = [0, 0] ∧ (tokenSegments respelledToken).map spareBits = [0, 1] := by
  decide +kernel

theorem hostToken_spelled : ∃ claims, verifyHost hostToken = .ok claims ∧ OneSpelling hostToken claims := by
  obtain ⟨hnamed, -, -, -, hspare, -⟩ := hostToken_respelled
  obtain ⟨claims, hverify, hlookup⟩ := namedKey_some hnamed
  refine ⟨claims, hverify, (token_spelling_iff hverify).1.2 ⟨fun segment hsegment => ?_, fun pk hpk => ?_⟩⟩
  · have hmem := List.mem_map_of_mem (f := spareBits) hsegment
    rw [hspare] at hmem
    simpa using hmem
  · rw [hlookup] at hpk
    obtain rfl := Json.str.inj (Option.some.inj hpk)
    rw [b64urlEncode_eq_spelled, spareBits_spelled_zero]

/-- Both spellings of a token are accepted, and one of them is not canonical. -/
theorem respelledToken_accepted : ∃ claims claims', verifyHost hostToken = .ok claims ∧
    verifyHost respelledToken = .ok claims' ∧ hostToken ≠ respelledToken ∧
    tokenOctets hostToken = tokenOctets respelledToken ∧ ¬ OneSpelling respelledToken claims' := by
  obtain ⟨hnamed, hnamed', hne, hoctets, -, hspare'⟩ := hostToken_respelled
  obtain ⟨claims, hverify, -⟩ := namedKey_some hnamed
  obtain ⟨claims', hverify', -⟩ := namedKey_some hnamed'
  refine ⟨claims, claims', hverify, hverify', hne, hoctets, fun hone => ?_⟩
  have hmem : 1 ∈ (tokenSegments respelledToken).map spareBits := by
    rw [hspare']
    simp
  obtain ⟨segment, hsegment, hspare⟩ := List.mem_map.1 hmem
  obtain ⟨b, hb, hcanonical⟩ := hone.segments segment hsegment
  rw [(eq_b64urlEncode_iff hb).1 hcanonical] at hspare
  cases hspare

end MercuryRelay
