/-
  Push previews (push_preview.py): what is shown of a completion or a request, and
  the plaintext that it is put into.

  The database of Unicode characters is a parameter; of it, only control characters
  and surrogates matter.
-/
import MercuryRelay.Identity
import MercuryRelay.Lib.BigEndian
import MercuryRelay.Python.Dict
import MercuryRelay.Python.TextEdit

set_option autoImplicit false

namespace MercuryRelay

open Python

def maxPlaintextBytes : ℕ := 1280
def maxTitleBytes : ℕ := 160
def maxBodyBytes : ℕ := 640
def maxRouteSessionBytes : ℕ := 128
def maxRouteProfileBytes : ℕ := 64
def maxTitleChars : ℕ := 120
def maxBodyChars : ℕ := 240
def previewTtlSeconds : ℤ := 120

/-- `AAD_DOMAIN`. -/
def aadDomain : Str := lit "mercury.push-preview.v1"

/-- `ALGORITHM`. -/
def previewAlgorithm : Str := lit "C20P"

/-- `_INTERRUPT_PREFIX`. -/
def interruptPrefix : Str := lit "Operation interrupted: waiting for model response ("

/-- `_ATTENTION_TEXT`: a title and a body. -/
def attentionText : Dict Str (Str × Str) :=
  let secure := (lit "Hermes needs secure input", lit "Secure input is required to continue")
  [(lit "approval.request", (lit "Hermes needs approval", lit "Authorization is required to continue")),
    (lit "clarify.request", (lit "Hermes needs your input", lit "Clarification is required to continue")),
    (lit "secret.request", secure), (lit "sudo.request", secure), (lit "vault.unlock.request", secure),
    (lit "vault.save_login.request", secure)]

/-- What `unicodedata` says of code points. -/
structure UnicodeData where
  /-- the category starts with `C` -/
  isOther : ℕ → Bool
  /-- control characters, surrogates and what is no code point -/
  other : ∀ c, c < 32 ∨ 127 ≤ c ∧ c < 160 ∨ 0xD800 ≤ c ∧ c < 0xE000 ∨ 0x110000 ≤ c → isOther c = true

/-- Characters of which only those are known that matter. -/
def basicUnicode : UnicodeData where
  isOther c := decide (c < 32 ∨ 127 ≤ c ∧ c < 160 ∨ 0xD800 ≤ c ∧ c < 0xE000 ∨ 0x110000 ≤ c)
  other _ h := decide_eq_true h

/-- What `push_preview` raises; all of them are `ValueError`s. -/
inductive PreviewFault where
  /-- a `UnicodeEncodeError` -/
  | unencodable
  /-- "invalid preview plaintext" -/
  | invalidPlaintext
  /-- "invalid attention kind" -/
  | invalidAttention
  /-- "preview plaintext too large" -/
  | tooLarge
  /-- "invalid preview encryption input" -/
  | invalidEncryption
  deriving DecidableEq

namespace Preview

variable (data : UnicodeData)

/-! ## Text -/

/-- `_without_controls`. -/
def withoutControls (value : Str) (keepNewlines : Bool) : Str :=
  let normalized := replace [13] [10] (replace [13, 10] [10] value)
  normalized.filter fun character => (keepNewlines && character == 10) || !data.isOther character

/-- The text after at most six `#` at the start and a blank, if these are there:
    `^#{1,6}\s`. -/
def afterMarks (line : Str) : Option Str :=
  let marks := (line.takeWhile (· = 35)).length
  if 1 ≤ marks ∧ marks ≤ 6 then
    match line.drop marks with
    | c :: rest => if isSpace c then some rest else none
    | [] => none
  else none

/-- `_HEADING.fullmatch(line)`, for a line without a newline. -/
def isHeading (line : Str) : Bool := (afterMarks line).any (· ≠ [])

/-- `.replace("**", "").replace("__", "").replace("`", "").strip()`. -/
def unmarked (line : Str) : Str :=
  strip (replace [96] [] (replace [95, 95] [] (replace [42, 42] [] line)))

/-- `_clean_line`. -/
def cleanLine (line : Str) : Option Str :=
  let line := strip line
  if isHeading line then none else some (unmarked line)

/-- The loop of `completion_excerpt`, while so many lines are wanted. -/
def excerptLines : ℕ → List Str → List Str
  | 0, _ => []
  | _, [] => []
  | wanted + 1, raw :: raws =>
    match cleanLine raw with
    | some (c :: line) => (c :: line) :: excerptLines wanted raws
    | _ => excerptLines (wanted + 1) raws

/-- `text or None`. -/
def orNone (text : Str) : Option Str := if text = [] then none else some text

/-- `completion_excerpt`; what is no string counts as nothing. -/
def completionExcerpt : Option Str → Except PreviewFault (Option Str)
  | none => .ok none
  | some value =>
    let cleaned := strip (withoutControls data value true)
    if cleaned = [] then .ok none
    else if startsWith cleaned interruptPrefix then .ok (some (lit "Response completed"))
    else
      match excerptLines 3 (cleaned.splitOn 10) with
      | [] => .ok (some (lit "Response completed"))
      | lines =>
        match truncateUtf8 ((join [10] lines).take maxBodyChars) maxBodyBytes with
        | none => .error .unencodable
        | some result => .ok (orNone (rstrip result))

/-- A line of a title: a heading without its marks. -/
def titleLine (raw : Str) : Str :=
  let line := strip raw
  unmarked (((afterMarks line).map lstrip).getD line)

/-- The loop of `normalize_title`. -/
def firstLine : List Str → Str
  | [] => []
  | raw :: raws => if titleLine raw = [] then firstLine raws else titleLine raw

/-- `normalize_title`; what is no string counts as nothing. -/
def normalizeTitle : Option Str → Except PreviewFault (Option Str)
  | none => .ok none
  | some value =>
    let first := firstLine ((withoutControls data value true).splitOn 10)
    match truncateUtf8 (first.take maxTitleChars) maxTitleBytes with
    | none => .error .unencodable
    | some first => .ok (orNone (strip first))

/-- A member of a route: its octets are counted. -/
def routeText (value : Option Json) (limit : ℕ) : Except PreviewFault (Option Str) :=
  match value with
  | some (.str text) =>
    match utf8 text with
    | none => .error .unencodable
    | some encoded => .ok (if 1 ≤ encoded.length ∧ encoded.length ≤ limit then some text else none)
  | _ => .ok none

/-- `_valid_route`: the session id and the profile. -/
def validRoute : Json → Except PreviewFault (Option (Str × Str))
  | .obj members =>
    if ¬ ((members.map (·.1)).all fun key => key = lit "durable_session_id" || key = lit "profile") then .ok none
    else
      match routeText (Json.lookup members (lit "durable_session_id")) maxRouteSessionBytes with
      | .error fault => .error fault
      | .ok none => .ok none
      | .ok (some sid) =>
        match routeText (Json.lookup members (lit "profile")) maxRouteProfileBytes with
        | .error fault => .error fault
        | .ok none => .ok none
        | .ok (some profile) => .ok (if (sid ++ profile).any data.isOther then none else some (sid, profile))
  | _ => .ok none

end Preview

/-! ## The plaintext -/

/-- The value that is written; its members are in this order. -/
structure PreviewValue where
  kind : Str
  title : Option Str
  body : Option Str
  route : Option (Str × Str)
  iat : ℤ
  exp : ℤ

/-- The fields that are made shorter. -/
inductive PreviewField where
  | body | title
  deriving DecidableEq

namespace PreviewValue

variable (p : PreviewValue)

def text : PreviewField → Option Str
  | .body => p.body
  | .title => p.title

def setText : PreviewField → Option Str → PreviewValue
  | .body, text => { p with body := text }
  | .title, text => { p with title := text }

/-- The members of the route. -/
def routeJson (route : Str × Str) : Json := .obj [(lit "sid", .str route.1), (lit "profile", .str route.2)]

def members : List (Str × Json) :=
  [(lit "v", .int 1), (lit "kind", .str p.kind)] ++ (p.title.map fun title => (lit "title", Json.str title)).toList ++
    (p.body.map fun body => (lit "body", Json.str body)).toList ++
    (p.route.map fun route => (lit "route", routeJson route)).toList ++ [(lit "iat", .int p.iat), (lit "exp", .int p.exp)]

/-- `_serialize`. -/
def serialize : Except PreviewFault Bytes :=
  match utf8 (write compactUnicode (.obj p.members)) with
  | none => .error .unencodable
  | some result => .ok result

/-- The loop over a field that loses its last character while the result is too large. -/
def shrink (field : PreviewField) : ℕ → PreviewValue → Bytes → Except PreviewFault (PreviewValue × Bytes)
  | 0, p, result => .ok (p, result)
  | steps + 1, p, result =>
    match p.text field with
    | some (c :: text) =>
      if maxPlaintextBytes < result.length then
        let p := p.setText field (Preview.orNone (c :: text).dropLast)
        p.serialize.bind (shrink field steps p)
      else .ok (p, result)
    | _ => .ok (p, result)

/-- A field is made shorter, as long as there is something left of it. -/
def shrinkField (field : PreviewField) (p : PreviewValue) (result : Bytes) :
    Except PreviewFault (PreviewValue × Bytes) :=
  shrink field ((p.text field).getD []).length p result

end PreviewValue

namespace Preview

variable (data : UnicodeData)

/-- What `build_preview_plaintext` is given. -/
structure Request where
  kind : Str
  attentionKind : Option Str := none
  responseText : Option Str := none
  title : Option Str := none
  includeTitle : Bool
  includeResponseExcerpt : Bool
  route : Json
  now : ℤ

variable (request : Request)

/-- The title and the body. -/
def texts : Except PreviewFault (Option Str × Option Str) :=
  if request.kind = lit "attention" then
    match request.attentionKind.bind attentionText.get with
    | none => .error .invalidAttention
    | some (title, body) => .ok (some title, some body)
  else
    (if request.includeTitle then normalizeTitle data request.title else .ok none).bind fun title =>
      (if request.includeResponseExcerpt then completionExcerpt data request.responseText else .ok none).map fun body =>
        (title, body)

/-- The value before anything is made shorter. -/
def fullValue : Except PreviewFault PreviewValue :=
  if request.kind ≠ lit "completion" ∧ request.kind ≠ lit "attention" ∨ request.now < 0 then
    .error .invalidPlaintext
  else do
    let (title, body) ← texts data request
    let route ← validRoute data request.route
    return {
      kind := request.kind
      title := title
      body := body
      route := route
      iat := request.now
      exp := request.now + previewTtlSeconds }

/-- `build_preview_plaintext`, past the value: the value that is written in the end, too. -/
def fit (p : PreviewValue) : Except PreviewFault (PreviewValue × Bytes) := do
  let result ← p.serialize
  let (p, result) ← p.shrinkField .body result
  let (p, result) ← p.shrinkField .title result
  let (p, result) ← if maxPlaintextBytes < result.length then
      let p := { p with route := none }
      p.serialize.map fun result => (p, result)
    else .ok (p, result)
  if maxPlaintextBytes < result.length then .error .tooLarge else return (p, result)

/-- `build_preview_plaintext`. -/
def buildPreviewPlaintext : Except PreviewFault Bytes := do
  let p ← fullValue data request
  let (_, result) ← fit p
  return result

end Preview

/-! ## Encryption, and the body of a wake -/

/-- `canonical_b64url`. -/
def canonicalB64url (value : Bytes) : Str := b64urlEncode value

/-- `ChaCha20Poly1305(key).encrypt(nonce, plaintext, aad)`; the tag has 16 octets. -/
structure Chacha20Poly1305 where
  encrypt : Bytes → Bytes → Bytes → Bytes → Bytes
  length : ∀ key nonce plaintext aad, (encrypt key nonce plaintext aad).length = plaintext.length + 16

/-- `_length_prefixed`; `none` is the `UnicodeEncodeError`. -/
def lengthPrefixed (value : Str) : Option Bytes :=
  (utf8 value).map fun encoded => BigEndian.octets 4 encoded.length ++ encoded

/-- `aad_for_preview`. -/
def aadForPreview (environment wakeHandle eventId keyId : Str) : Option Bytes :=
  ([aadDomain, lit "1", previewAlgorithm, environment, wakeHandle, eventId, keyId].mapM lengthPrefixed).map
    List.flatten

/-- `encrypt_preview`. -/
def encryptPreview (aead : Chacha20Poly1305) (key nonce plaintext : Bytes) (environment wakeHandle eventId keyId : Str) :
    Except PreviewFault Str :=
  if key.length ≠ 32 ∨ nonce.length ≠ 12 ∨ maxPlaintextBytes < plaintext.length then .error .invalidEncryption
  else
    match aadForPreview environment wakeHandle eventId keyId with
    | none => .error .unencodable
    | some aad => .ok (canonicalB64url (aead.encrypt key nonce plaintext aad))

def maxPushBodyBytes : ℕ := 3072

/-- `ensure_ascii=True, separators=(",", ":")`. -/
def compactAscii : DumpStyle := ⟨true, lit ",", lit ":", false⟩

/-- The fields of a wake with a preview. -/
def previewFields (eventId keyId : Str) (nonce : Bytes) (ciphertext : Str) : List (Str × Json) :=
  [(lit "event_id", .str eventId), (lit "preview", .obj [(lit "version", .int 1), (lit "alg", .str previewAlgorithm),
    (lit "key_id", .str keyId), (lit "nonce", .str (canonicalB64url nonce)), (lit "ciphertext", .str ciphertext)])]

/-- The body that `_post` builds. -/
def postBody (wakeHandle : Str) (fields : List (Str × Json)) : Str :=
  write compactAscii (.obj ((lit "wake_handle", .str wakeHandle) :: fields))

end MercuryRelay
