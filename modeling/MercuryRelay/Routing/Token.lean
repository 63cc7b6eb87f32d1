/-
  Routing tokens: the issuer signs claims for one installation, and the verifier
  checks the signature, the claims and their times (routing_auth.py).

  * `verify_minted`: what the verifier makes of a token that was minted;
  * `mint_verify`: it accepts the token for its installation and key, within its
    window, and for no others.
-/
import MercuryRelay.Identity
import MercuryRelay.Python.JsonLoads
import MercuryRelay.Python.Sha256

set_option autoImplicit false

namespace MercuryRelay

open Python

/-- `TOKEN_AUDIENCE`. -/
def tokenAudience : Str := lit "mercury-relay"

def maxTokenChars : ℕ := 1024
def maxJtiChars : ℕ := 64
def jtiBytes : ℕ := 16
def publicKeyB64urlChars : ℕ := 43

/-- `_HEADER_JSON`. -/
def headerJson : Str := lit "\x7b\"alg\":\"EdDSA\",\"typ\":\"mrt1\"\x7d"

/-- `_HEADER_B64`. -/
def headerB64 : Str := b64urlEncode (headerJson.map UInt8.ofNat)

/-- `ROLES`. -/
inductive TokenRole where
  | host | pairingDevice | authorizedDevice
  deriving DecidableEq

def TokenRole.text : TokenRole → Str
  | .host => lit "host"
  | .pairingDevice => lit "pairing_device"
  | .authorizedDevice => lit "authorized_device"

/-- `role in ROLES`, and which it is. -/
def TokenRole.ofText (s : Str) : Option TokenRole :=
  [TokenRole.host, .pairingDevice, .authorizedDevice].find? (·.text = s)

/-- `MAX_TOKEN_LIFETIME_SECONDS`. -/
def maxTokenLifetimeSeconds : TokenRole → ℤ
  | .host => 3600
  | .pairingDevice => 900
  | .authorizedDevice => 45 * 24 * 3600

/-- Ed25519 of the `cryptography` package.  `verifies` is false where
    `from_public_bytes` or `verify` raises. -/
structure Ed25519 where
  publicKey : Raw → Raw
  sign : Raw → Bytes → Bytes
  verifies : Bytes → Bytes → Bytes → Bool

/-- A signature has 64 octets, and is that of its key and message. -/
structure Ed25519.Correct (ed : Ed25519) : Prop where
  length_sign : ∀ key message, (ed.sign key message).length = 64
  verifies_sign : ∀ key message, ed.verifies (ed.publicKey key).1 (ed.sign key message) message = true

/-- What is raised: a `RoutingTokenError` with its reason, or what a call raises. -/
inductive TokenFault where
  | routing (reason : String)
  | random
  | recursion
  | typeError
  deriving DecidableEq

/-! ## Minting -/

section Mint

variable (ed : Ed25519) (key : Raw) (now : ℤ) (jti : Bytes) (role : TokenRole) (installationId : Raw)
  (ttlSeconds : ℤ)

/-- The claims, as they are set. -/
def tokenClaims : List (Str × Json) :=
  [(lit "aud", .str tokenAudience), (lit "role", .str role.text),
   (lit "inst", .str (b64urlEncode installationId.1)), (lit "iat", .int now),
   (lit "exp", .int (now + ttlSeconds)), (lit "jti", .str (b64urlEncode jti)),
   (lit "pk", .str (b64urlEncode (ed.publicKey key).1))]

/-- The token of claims that are written so. -/
def signClaims (claimsText : Str) : Str :=
  let signingInput := headerB64 ++ 46 :: b64urlEncode (claimsText.map UInt8.ofNat)
  signingInput ++ 46 :: b64urlEncode (ed.sign key (signingInput.map UInt8.ofNat))

/-- The random octets of an identifier; `none` where there are none. -/
def newRandomBytes (size : ℕ) (draw : Option Bytes) : Option Bytes := draw.filter (·.length = size)

/-- `RoutingTokenIssuer.mint`, at the second `now`. -/
def mint (depths : JsonDepths) (draw : Option Bytes) (role : Str) (installationId : Bytes) :
    Except TokenFault Str :=
  match TokenRole.ofText role with
  | none => .error (.routing "invalid_role")
  | some role =>
    if h : installationId.length = 32 then
      if ttlSeconds < 1 then .error (.routing "invalid_ttl")
      else
        match newRandomBytes jtiBytes draw with
        | none => .error .random
        | some jti =>
          match dumps depths compactSorted
              (.obj (tokenClaims ed key now jti role ⟨installationId, h⟩ ttlSeconds)) with
          | none => .error .recursion
          | some claimsText =>
            let token := signClaims ed key claimsText
            if maxTokenChars < token.length then .error (.routing "token_too_large") else .ok token
    else .error (.routing "invalid_installation_id")

end Mint

/-! ## Verifying -/

/-- `_b64url_decode_loose`; `none` is its `RoutingTokenError("invalid_token")`. -/
def b64urlDecodeLoose (segment : Str) : Option Bytes :=
  if segment = [] ∨ ¬ segment.all isUrlChar then none
  else urlsafeB64decode (segment ++ List.replicate ((4 - segment.length % 4) % 4) 61)

/-- The shape of the claims: the role and the times. -/
def checkClaims : Json → Except TokenFault (List (Str × Json) × TokenRole × Str × ℤ × ℤ)
  | .obj claims =>
    if Json.lookup claims (lit "aud") ≠ some (.str tokenAudience) then
      .error (.routing "invalid_claims")
    else
      match Json.lookup claims (lit "role") with
      | some (.str role) =>
        match TokenRole.ofText role, Json.lookup claims (lit "inst"), Json.lookup claims (lit "iat"),
          Json.lookup claims (lit "exp"), Json.lookup claims (lit "jti") with
        | some role, some (.str inst), some (.int iat), some (.int exp), some (.str jti) =>
          if 1 ≤ jti.length ∧ jti.length ≤ maxJtiChars then .ok (claims, role, inst, iat, exp)
          else .error (.routing "invalid_claims")
        | _, _, _, _, _ => .error (.routing "invalid_claims")
      | some role =>
        -- `role not in ROLES` hashes the role
        if role.hashable then .error (.routing "invalid_claims") else .error .typeError
      | none => .error (.routing "invalid_claims")
  | _ => .error (.routing "invalid_claims")

/-- The key that the claims name is the one they were verified with. -/
def checkNamedKey (claims : List (Str × Json)) (publicKey : Bytes) : Except TokenFault Unit :=
  match Json.lookup claims (lit "pk") with
  | none => .ok ()
  | some (.str pk) =>
    if pk.length ≠ publicKeyB64urlChars then .error (.routing "invalid_claims")
    else
      match b64urlDecodeLoose pk with
      | none => .error (.routing "invalid_token")
      | some named =>
        if named ≠ publicKey then .error (.routing "invalid_signature") else .ok ()
  | some _ => .error (.routing "invalid_claims")

/-- The claims of a token whose signature was verified. -/
def verifyClaims (depths : JsonDepths) (publicKey : Bytes) (installation : Option Str) (now : ℤ)
    (skewSeconds : ℤ) (claimsRaw : Bytes) : Except TokenFault (List (Str × Json)) :=
  match loads depths claimsRaw with
  | .error .value => .error (.routing "invalid_token")
  | .error .recursion => .error .recursion
  | .ok value =>
    match checkClaims value with
    | .error fault => .error fault
    | .ok (claims, role, inst, iat, exp) =>
      if installation.any (inst ≠ ·) then .error (.routing "invalid_claims")
      else
        match checkNamedKey claims publicKey with
        | .error fault => .error fault
        | .ok () =>
          if exp - iat < 1 ∨ maxTokenLifetimeSeconds role < exp - iat then
            .error (.routing "invalid_claims")
          else if now < iat - skewSeconds ∨ exp ≤ now then .error (.routing "token_expired")
          else .ok claims

/-- `verify_routing_token`, at the second `now`. -/
def verifyRoutingToken (ed : Ed25519) (depths : JsonDepths) (token : Str) (publicKey : Bytes)
    (installation : Option Str) (now : ℤ) (skewSeconds : ℤ := 120) :
    Except TokenFault (List (Str × Json)) :=
  if ¬ (1 ≤ token.length ∧ token.length ≤ maxTokenChars) then .error (.routing "invalid_token")
  else
    match token.splitOn 46 with
    | [header, claimsB64, signatureB64] =>
      if header ≠ headerB64 then .error (.routing "invalid_token")
      else
        match b64urlDecodeLoose claimsB64, b64urlDecodeLoose signatureB64 with
        | some claimsRaw, some signature =>
          if signature.length ≠ 64 then .error (.routing "invalid_token")
          else if ed.verifies publicKey signature ((header ++ 46 :: claimsB64).map UInt8.ofNat) then
            verifyClaims depths publicKey installation now skewSeconds claimsRaw
          else .error (.routing "invalid_signature")
        | _, _ => .error (.routing "invalid_token")
    | _ => .error (.routing "invalid_token")

/-! ## The texts of a token -/

theorem isUrlChar_spec {c : ℕ} (h : isUrlChar c = true) :
    c < 128 ∧ c ≠ 46 ∧ charLength c = 1 := by
  simp only [isUrlChar, Bool.or_eq_true, Bool.and_eq_true, decide_eq_true_eq] at h
  refine ⟨by omega, by omega, ?_⟩
  unfold charLength
  rw [if_neg (by omega), if_pos (by omega)]

theorem b64urlEncode_chars (b : Bytes) : ∀ c ∈ b64urlEncode b, isUrlChar c = true := by
  obtain ⟨p, -, hchars, -, -⟩ := b64urlEncode_spec b
  exact hchars

theorem b64urlEncode_ascii (b : Bytes) : Ascii (b64urlEncode b) := fun c hc =>
  (isUrlChar_spec (b64urlEncode_chars b c hc)).1

theorem stringLength_b64urlEncode (b : Bytes) :
    stringLength (b64urlEncode b) = (4 * b.length + 2) / 3 + 2 := by
  have hone : (b64urlEncode b).map charLength = (b64urlEncode b).map fun _ => 1 :=
    List.map_congr_left fun c hc => (isUrlChar_spec (b64urlEncode_chars b c hc)).2.2
  rw [stringLength, hone, List.map_const', List.sum_replicate, length_b64urlEncode]
  simp

/-- An encoded segment decodes to its octets. -/
theorem b64urlDecodeLoose_encode {b : Bytes} (h : b ≠ []) : b64urlDecodeLoose (b64urlEncode b) = some b := by
  have hchars : (b64urlEncode b).all isUrlChar = true := List.all_eq_true.2 (b64urlEncode_chars b)
  rw [b64urlDecodeLoose, if_neg (by simp [b64urlEncode_ne_nil h, hchars]), urlsafeB64decode_padded]

/-- A token is split into its segments. -/
theorem splitOn_token (a b c : Bytes) :
    (b64urlEncode a ++ 46 :: b64urlEncode b ++ 46 :: b64urlEncode c).splitOn 46 =
      [b64urlEncode a, b64urlEncode b, b64urlEncode c] := by
  have hdots : ∀ l ∈ [b64urlEncode a, b64urlEncode b, b64urlEncode c], 46 ∉ l := by
    have hno : ∀ x : Bytes, 46 ∉ b64urlEncode x := fun x hx =>
      (isUrlChar_spec (b64urlEncode_chars x 46 hx)).2.1 rfl
    simp [hno]
  have hsplit := List.splitOn_intercalate 46 hdots (by simp)
  rw [← hsplit]
  simp [List.intercalate]

theorem TokenRole.ofText_text (role : TokenRole) : TokenRole.ofText role.text = some role := by
  cases role <;> decide

/-! ## The claims of a token -/

section Claims

variable {ed : Ed25519} {key : Raw} {now : ℤ} {jti : Bytes} {role : TokenRole} {installationId : Raw}
  {ttlSeconds : ℤ}

theorem tokenClaims_flat : ∀ m ∈ tokenClaims ed key now jti role installationId ttlSeconds,
    m.2.depth = 0 := by
  simp [tokenClaims, Json.depth]

theorem tokenClaims_keyed :
    ((tokenClaims ed key now jti role installationId ttlSeconds).map (·.1)).Nodup := by
  have hkeys : (tokenClaims ed key now jti role installationId ttlSeconds).map (·.1) =
    [lit "aud", lit "role", lit "inst", lit "iat", lit "exp", lit "jti", lit "pk"] := rfl
  rw [hkeys]
  decide

/-- The claims as the verifier reads them. -/
theorem lookup_tokenClaims {k : Str} {v : Json}
    (h : (k, v) ∈ tokenClaims ed key now jti role installationId ttlSeconds) :
    Json.lookup (Json.sortMembers (tokenClaims ed key now jti role installationId ttlSeconds)) k = some v := by
  have hkeyed : Dict.Keyed (tokenClaims ed key now jti role installationId ttlSeconds) := tokenClaims_keyed
  rw [Json.lookup_sortMembers tokenClaims_keyed]
  exact hkeyed.get_of_mem h

/-- What is asked of the second of the minting and of the lifetime. -/
structure Mintable (role : TokenRole) (now ttlSeconds : ℤ) : Prop where
  nonneg : 0 ≤ now
  bounded : now < 2 ^ 62
  lifetime : 1 ≤ ttlSeconds ∧ ttlSeconds ≤ maxTokenLifetimeSeconds role

theorem Mintable.ttl_le (h : Mintable role now ttlSeconds) : ttlSeconds ≤ 45 * 24 * 3600 := by
  have hcap : maxTokenLifetimeSeconds role ≤ 45 * 24 * 3600 := by cases role <;> decide
  exact h.lifetime.2.trans hcap

theorem natDigits_second {n : ℤ} (h0 : 0 ≤ n) (h : n < 10 ^ 19) : (natDigits n.natAbs).length ≤ 19 :=
  length_natDigits_le (by decide) (by omega)

theorem tokenClaims_legible (h : Mintable role now ttlSeconds) :
    (Json.obj (tokenClaims ed key now jti role installationId ttlSeconds)).Legible := by
  have httl := h.ttl_le
  have hnow := h.nonneg
  have hbound := h.bounded
  have hlife := h.lifetime.1
  have hint : ∀ n : ℤ, 0 ≤ n → n < 10 ^ 19 → (Json.int n).Legible := fun n h0 h1 =>
    (natDigits_second h0 h1).trans (by decide)
  have hrole : Ascii role.text := by cases role <;> decide
  have hstr : ∀ s : Str, Ascii s → LegibleStr s := fun s hs => LegibleStr.of_utf8 hs.utf8
  refine ⟨tokenClaims_keyed, ?_⟩
  refine ⟨hstr _ (by decide), hstr _ (by decide), hstr _ (by decide), hstr _ hrole,
    hstr _ (by decide), hstr _ (b64urlEncode_ascii _), hstr _ (by decide), hint _ hnow (by omega),
    hstr _ (by decide), hint _ (by omega) (by omega), hstr _ (by decide), hstr _ (b64urlEncode_ascii _),
    hstr _ (by decide), hstr _ (b64urlEncode_ascii _), trivial⟩

theorem write_tokenClaims : write compactSorted (.obj (tokenClaims ed key now jti role installationId ttlSeconds)) =
    write compactSorted.unsorted
      (.obj (Json.sortMembers (tokenClaims ed key now jti role installationId ttlSeconds))) := by
  rw [write_sorted rfl, Json.sorted_flat tokenClaims_flat]

/-- The claims are written in so many characters at most. -/
theorem length_claimsText (h : Mintable role now ttlSeconds) (hjti : jti.length = jtiBytes) :
    (write compactSorted (.obj (tokenClaims ed key now jti role installationId ttlSeconds))).length ≤ 237 := by
  have httl := h.ttl_le
  have hnow := h.nonneg
  have hbound := h.bounded
  have hlife := h.lifetime.1
  have hint : ∀ n : ℤ, 0 ≤ n → n < 10 ^ 19 → (intRepr n).length ≤ 19 := by
    intro n h0 h1
    have hdigits := natDigits_second h0 h1
    obtain ⟨m, rfl⟩ := Int.eq_ofNat_of_zero_le h0
    exact hdigits
  have hiat := hint now hnow (by omega)
  have hexp := hint (now + ttlSeconds) (by omega) (by omega)
  have hrole : stringLength role.text ≤ 19 := by cases role <;> decide
  have hlit : [lit "aud", lit "role", lit "inst", lit "iat", lit "exp", lit "jti", lit "pk",
      tokenAudience].map stringLength = [5, 6, 6, 5, 5, 5, 4, 15] := by decide
  simp only [List.map_cons, List.map_nil, List.cons.injEq, and_true] at hlit
  have hkey : (ed.publicKey key).1.length = 32 := (ed.publicKey key).2
  have hinst : installationId.1.length = 32 := installationId.2
  have hsep : compactSorted.unsorted.itemSeparator.length = 1 ∧
      compactSorted.unsorted.keySeparator.length = 1 := ⟨rfl, rfl⟩
  rw [write_tokenClaims, length_write rfl rfl, Json.textLength_sortMembers, hsep.1, hsep.2]
  simp only [tokenClaims, Json.textLength, Json.membersLength, hlit, List.length_cons, List.length_nil,
    stringLength_b64urlEncode, hkey, hinst, hjti, jtiBytes]
  omega

/-- An object is written from a brace and a quote. -/
theorem write_obj_start {style : DumpStyle} (hsort : style.sortKeys = false) (m : Str × Json)
    (ms : List (Str × Json)) : ∃ s, write style (.obj (m :: ms)) = 123 :: 34 :: s := by
  rw [write_obj hsort, membersText, List.map_cons]
  cases ms with
  | nil => exact ⟨_, rfl⟩
  | cons n ms => exact ⟨_, rfl⟩

theorem tokenClaims_ascii :
    Ascii (write compactSorted (.obj (tokenClaims ed key now jti role installationId ttlSeconds))) := by
  rw [write_sorted rfl]
  exact write_ascii undone_compact rfl _

/-- What the verifier reads of the claims. -/
theorem loads_tokenClaims {depths : JsonDepths} (h : Mintable role now ttlSeconds) (hdepth : 1 ≤ depths.read) :
    loads depths ((write compactSorted
      (.obj (tokenClaims ed key now jti role installationId ttlSeconds))).map UInt8.ofNat) =
      .ok (.obj (Json.sortMembers (tokenClaims ed key now jti role installationId ttlSeconds))) := by
  have hflat : (Json.obj (tokenClaims ed key now jti role installationId ttlSeconds)).depth ≤ depths.read := by
    have hzero := Json.depthMembers_le.2 fun m hm =>
      (@tokenClaims_flat ed key now jti role installationId ttlSeconds m hm).le
    rw [Json.depth]
    omega
  have hload := @loadsStrict_sorted _ compactSorted rfl undone_compact _ (tokenClaims_legible h) hflat
  rw [Json.sorted_flat tokenClaims_flat] at hload
  have hascii := @tokenClaims_ascii ed key now jti role installationId ttlSeconds
  have hstart : ∃ s, write compactSorted (.obj (tokenClaims ed key now jti role installationId ttlSeconds)) =
      123 :: 34 :: s := by
    rw [write_tokenClaims]
    cases hms : Json.sortMembers (tokenClaims ed key now jti role installationId ttlSeconds) with
    | nil =>
      have hlen := Json.length_sortMembers (tokenClaims ed key now jti role installationId ttlSeconds)
      rw [hms] at hlen
      cases hlen
    | cons m ms => exact write_obj_start rfl m ms
  obtain ⟨s, hs⟩ := hstart
  rw [hs] at hload hascii ⊢
  exact loads_strict hascii (by decide) (by decide) hload

/-- The claims have the shape that the verifier asks for. -/
theorem checkClaims_tokenClaims (hjti : jti.length = jtiBytes) :
    checkClaims (.obj (Json.sortMembers (tokenClaims ed key now jti role installationId ttlSeconds))) =
      .ok (Json.sortMembers (tokenClaims ed key now jti role installationId ttlSeconds), role,
        b64urlEncode installationId.1, now, now + ttlSeconds) := by
  have hlen := length_b64urlEncode jti
  rw [hjti, jtiBytes] at hlen
  unfold checkClaims
  dsimp only
  rw [lookup_tokenClaims (k := lit "aud") (v := .str tokenAudience) (by simp [tokenClaims]),
    lookup_tokenClaims (k := lit "role") (v := .str role.text) (by simp [tokenClaims]),
    lookup_tokenClaims (k := lit "inst") (v := .str (b64urlEncode installationId.1)) (by simp [tokenClaims]),
    lookup_tokenClaims (k := lit "iat") (v := .int now) (by simp [tokenClaims]),
    lookup_tokenClaims (k := lit "exp") (v := .int (now + ttlSeconds)) (by simp [tokenClaims]),
    lookup_tokenClaims (k := lit "jti") (v := .str (b64urlEncode jti)) (by simp [tokenClaims])]
  simp only [ne_eq, not_true_eq_false, if_false, TokenRole.ofText_text]
  exact if_pos (by rw [hlen]; decide)

/-- The key that the claims name is the one of the issuer. -/
theorem checkNamedKey_tokenClaims (publicKey : Bytes) :
    checkNamedKey (Json.sortMembers (tokenClaims ed key now jti role installationId ttlSeconds)) publicKey =
      if (ed.publicKey key).1 = publicKey then .ok () else .error (.routing "invalid_signature") := by
  have hkey : (ed.publicKey key).1.length = 32 := (ed.publicKey key).2
  have hne : (ed.publicKey key).1 ≠ [] := by
    intro hnil
    rw [hnil] at hkey
    cases hkey
  unfold checkNamedKey
  rw [lookup_tokenClaims (k := lit "pk") (v := .str (b64urlEncode (ed.publicKey key).1)) (by simp [tokenClaims])]
  dsimp only
  rw [if_neg (by rw [length_b64urlEncode, hkey]; decide), b64urlDecodeLoose_encode hne]
  dsimp only
  rw [ite_not]

end Claims

/-! ## The verifier on a token that was minted -/

section Verify

variable {ed : Ed25519} {key : Raw} {now moment : ℤ} {jti : Bytes} {role : TokenRole} {installationId : Raw}
  {ttlSeconds : ℤ} {depths : JsonDepths} {publicKey : Bytes} {installation : Option Str}

/-- The token of these claims. -/
def mintedToken (ed : Ed25519) (key : Raw) (now : ℤ) (jti : Bytes) (role : TokenRole) (installationId : Raw)
    (ttlSeconds : ℤ) : Str :=
  signClaims ed key (write compactSorted (.obj (tokenClaims ed key now jti role installationId ttlSeconds)))

theorem length_mintedToken (hed : ed.Correct) (h : Mintable role now ttlSeconds) (hjti : jti.length = jtiBytes) :
    1 ≤ (mintedToken ed key now jti role installationId ttlSeconds).length ∧
      (mintedToken ed key now jti role installationId ttlSeconds).length ≤ maxTokenChars := by
  have htext := @length_claimsText ed key _ _ _ installationId _ h hjti
  have hheader : headerB64.length = 38 := by decide
  simp only [mintedToken, signClaims, List.length_append, List.length_cons, length_b64urlEncode, List.length_map,
    hheader, hed.length_sign, maxTokenChars]
  omega

/-- **What minting gives.** -/
theorem mint_spec (hed : ed.Correct) (h : Mintable role now ttlSeconds) (hjti : jti.length = jtiBytes)
    (hdepth : 1 ≤ depths.write) :
    mint ed key now ttlSeconds depths (some jti) role.text installationId.1 =
      .ok (mintedToken ed key now jti role installationId ttlSeconds) := by
  have hdumps : dumps depths compactSorted (.obj (tokenClaims ed key now jti role installationId ttlSeconds)) =
      some (write compactSorted (.obj (tokenClaims ed key now jti role installationId ttlSeconds))) := by
    have hzero := Json.depthMembers_le.2 fun m hm =>
      (@tokenClaims_flat ed key now jti role installationId ttlSeconds m hm).le
    refine if_pos ?_
    rw [Json.depth]
    omega
  have hlength := (@length_mintedToken _ key _ _ _ installationId _ hed h hjti).2
  have hdraw : newRandomBytes jtiBytes (some jti) = some jti := by simp [newRandomBytes, hjti]
  have hlife := h.lifetime.1
  unfold mint
  rw [TokenRole.ofText_text]
  dsimp only
  rw [dif_pos installationId.2, if_neg (by omega), hdraw]
  dsimp only
  rw [hdumps]
  exact if_neg (not_lt.2 hlength)

/-- What was signed. -/
def signingInput (ed : Ed25519) (key : Raw) (now : ℤ) (jti : Bytes) (role : TokenRole) (installationId : Raw)
    (ttlSeconds : ℤ) : Bytes :=
  (headerB64 ++ 46 :: b64urlEncode ((write compactSorted
    (.obj (tokenClaims ed key now jti role installationId ttlSeconds))).map UInt8.ofNat)).map UInt8.ofNat

/-- **What the verifier makes of a token that was minted.** -/
theorem verify_minted (hed : ed.Correct) (h : Mintable role now ttlSeconds) (hjti : jti.length = jtiBytes)
    (hdepth : 1 ≤ depths.read) :
    verifyRoutingToken ed depths (mintedToken ed key now jti role installationId ttlSeconds) publicKey
        installation moment =
      if ed.verifies publicKey (ed.sign key (signingInput ed key now jti role installationId ttlSeconds))
          (signingInput ed key now jti role installationId ttlSeconds) then
        if installation.any (b64urlEncode installationId.1 ≠ ·) then .error (.routing "invalid_claims")
        else if (ed.publicKey key).1 ≠ publicKey then .error (.routing "invalid_signature")
        else if moment < now - 120 ∨ now + ttlSeconds ≤ moment then .error (.routing "token_expired")
        else .ok (Json.sortMembers (tokenClaims ed key now jti role installationId ttlSeconds))
      else .error (.routing "invalid_signature") := by
  have hlength := @length_mintedToken _ key _ _ _ installationId _ hed h hjti
  have hsignature : ed.sign key (signingInput ed key now jti role installationId ttlSeconds) ≠ [] := by
    intro hnil
    have h64 := hed.length_sign key (signingInput ed key now jti role installationId ttlSeconds)
    rw [hnil] at h64
    cases h64
  have htext : (write compactSorted (.obj (tokenClaims ed key now jti role installationId ttlSeconds))).map
      UInt8.ofNat ≠ [] := by
    intro hnil
    have hload := @loads_tokenClaims ed key _ jti _ installationId _ _ h hdepth
    rw [hnil] at hload
    cases hload
  have hsplit := splitOn_token (headerJson.map UInt8.ofNat)
    ((write compactSorted (.obj (tokenClaims ed key now jti role installationId ttlSeconds))).map UInt8.ofNat)
    (ed.sign key (signingInput ed key now jti role installationId ttlSeconds))
  have htoken : mintedToken ed key now jti role installationId ttlSeconds =
      b64urlEncode (headerJson.map UInt8.ofNat) ++ 46 :: b64urlEncode ((write compactSorted
        (.obj (tokenClaims ed key now jti role installationId ttlSeconds))).map UInt8.ofNat) ++ 46 :: b64urlEncode
          (ed.sign key (signingInput ed key now jti role installationId ttlSeconds)) := rfl
  unfold verifyRoutingToken
  have hheader : b64urlEncode (headerJson.map UInt8.ofNat) = headerB64 := rfl
  rw [if_neg (not_not.2 hlength), htoken, hsplit]
  dsimp only
  rw [if_neg (not_not.2 hheader), b64urlDecodeLoose_encode htext, b64urlDecodeLoose_encode hsignature]
  dsimp only
  rw [if_neg (not_not.2 (hed.length_sign _ _))]
  refine if_congr Iff.rfl ?_ rfl
  unfold verifyClaims
  rw [loads_tokenClaims h hdepth]
  dsimp only
  rw [checkClaims_tokenClaims hjti]
  dsimp only
  rw [checkNamedKey_tokenClaims]
  refine if_congr Iff.rfl rfl ?_
  have hlife := h.lifetime
  by_cases hkey : (ed.publicKey key).1 = publicKey
  · rw [if_pos hkey, if_neg (not_not.2 hkey)]
    dsimp only
    rw [if_neg (by omega)]
  · rw [if_neg hkey, if_pos hkey]

/-- The verifier accepts the token, and returns these claims, as a dictionary. -/
def Verifies (result : Except TokenFault (List (Str × Json))) (claims : List (Str × Json)) : Prop :=
  ∃ ms, result = .ok ms ∧ Json.same (.obj ms) (.obj claims)

/-- The verifier raises. -/
def Rejects (result : Except TokenFault (List (Str × Json))) : Prop := ∃ fault, result = .error fault

/-- The order of the members does not matter to `==`. -/
theorem same_sortMembers_tokenClaims : Json.same
    (.obj (Json.sortMembers (tokenClaims ed key now jti role installationId ttlSeconds)))
    (.obj (tokenClaims ed key now jti role installationId ttlSeconds)) := by
  rfl

/-- **A minted token is short, and is accepted, with its claims, for its
    installation and key exactly within its window; for another installation or
    another key it is rejected at every moment.** -/
theorem mint_verify (hed : ed.Correct) (h : Mintable role now ttlSeconds) (hjti : jti.length = jtiBytes)
    (hdepths : 1 ≤ depths.read ∧ 1 ≤ depths.write) :
    ∃ token, mint ed key now ttlSeconds depths (some jti) role.text installationId.1 = .ok token ∧
      token.length ≤ maxTokenChars ∧
      (∀ moment, Verifies (verifyRoutingToken ed depths token (ed.publicKey key).1
          (some (b64urlEncode installationId.1)) moment)
          (tokenClaims ed key now jti role installationId ttlSeconds) ↔
        now - 120 ≤ moment ∧ moment < now + ttlSeconds) ∧
      (∀ moment publicKey installation, installation ≠ b64urlEncode installationId.1 →
        Rejects (verifyRoutingToken ed depths token publicKey (some installation) moment)) ∧
      (∀ moment publicKey installation, publicKey ≠ (ed.publicKey key).1 →
        Rejects (verifyRoutingToken ed depths token publicKey installation moment)) := by
  refine ⟨_, mint_spec hed h hjti hdepths.2, (length_mintedToken hed h hjti).2, ?_, ?_, ?_⟩
  · intro moment
    have hkey := hed.verifies_sign key (signingInput ed key now jti role installationId ttlSeconds)
    rw [verify_minted hed h hjti hdepths.1, if_pos hkey, if_neg (by simp), if_neg (not_not.2 rfl)]
    constructor
    · rintro ⟨ms, hok, -⟩
      split at hok
      · cases hok
      · omega
    · intro hwindow
      rw [if_neg (by omega)]
      exact ⟨_, rfl, same_sortMembers_tokenClaims⟩
  · intro moment publicKey installation hne
    rw [verify_minted hed h hjti hdepths.1, if_pos (c := Option.any _ _ = true) (by simpa using hne.symm)]
    split
    · exact ⟨_, rfl⟩
    · exact ⟨_, rfl⟩
  · intro moment publicKey installation hne
    rw [verify_minted hed h hjti hdepths.1]
    split
    · split
      · exact ⟨_, rfl⟩
      · exact ⟨.routing "invalid_signature", if_pos hne.symm⟩
    · exact ⟨_, rfl⟩

end Verify

/-- A scheme whose signatures are digests of the public key and the message. -/
def digestScheme : Ed25519 where
  publicKey key := sha256 key.1
  sign key message := (sha256 ((sha256 key.1).1 ++ message)).1 ++ (sha256 (message ++ (sha256 key.1).1)).1
  verifies publicKey signature message :=
    signature = (sha256 (publicKey ++ message)).1 ++ (sha256 (message ++ publicKey)).1

theorem digestScheme_correct : digestScheme.Correct where
  length_sign key message := by
    simp only [digestScheme, List.length_append]
    rw [(sha256 _).2, (sha256 _).2]
  verifies_sign key message := by
    simp only [digestScheme, decide_true]

/-- A key, an installation and random octets. -/
def zeroRaw : Raw := ⟨List.replicate 32 0, rfl⟩

theorem mint_verify_pairing : ∃ token,
    mint digestScheme zeroRaw 1000000 900 ⟨1, 1⟩ (some (List.replicate 16 7)) (lit "pairing_device")
      zeroRaw.1 = .ok token ∧
    Verifies (verifyRoutingToken digestScheme ⟨1, 1⟩ token (digestScheme.publicKey zeroRaw).1
      (some (b64urlEncode zeroRaw.1)) 1000899)
      (tokenClaims digestScheme zeroRaw 1000000 (List.replicate 16 7) .pairingDevice zeroRaw 900) ∧
    ¬ Verifies (verifyRoutingToken digestScheme ⟨1, 1⟩ token (digestScheme.publicKey zeroRaw).1
      (some (b64urlEncode zeroRaw.1)) 1000900)
      (tokenClaims digestScheme zeroRaw 1000000 (List.replicate 16 7) .pairingDevice zeroRaw 900) := by
  have hmintable : Mintable .pairingDevice 1000000 900 := ⟨by decide, by decide, by decide, by decide⟩
  obtain ⟨token, hmint, -, hwindow, -⟩ := @mint_verify _ _ _ (List.replicate 16 7) _ _ _ ⟨1, 1⟩
    digestScheme_correct hmintable rfl ⟨le_rfl, le_rfl⟩
  refine ⟨token, hmint, (hwindow 1000899).2 (by decide), fun h => ?_⟩
  exact absurd ((hwindow 1000900).1 h) (by decide)

end MercuryRelay
