/-
  The file of the recovery store (lease_recovery.py, `RecoveryStore.__init__`
  and `_validate_row`).

  The constructor holds the rows as the values that were read; `image` says
  which values a store in memory has written.  The reader bounds the text of
  an event, where `observe` bounds the characters of its fields.

  * `load_raw`: a store with sound rows, all of them small, is loaded as it
    was written, less what expired.
-/
import MercuryRelay.Python.JsonLegible
import MercuryRelay.Python.Utf8
import MercuryRelay.Recovery.Store

set_option autoImplicit false

namespace MercuryRelay

open Python

/-! ## Reading -/

/-- `value[key]`; `none` is a `KeyError` or a `TypeError`. -/
def field (v : Option Json) (key : Str) : Option Json :=
  match v with
  | some (.obj members) => Json.lookup members key
  | _ => none

/-- `type(value) in (int, float) and math.isfinite(value)`. -/
def finiteNumber : Json → Bool
  | .int n => (Float64.ofRat n).isFinite
  | .float x => x.isFinite
  | _ => false

/-- The number a row expires at. -/
def number : Json → ℚ
  | .int n => n
  | .float x => x.value
  | _ => 0

/-- A field of a payload that `_validate_row` accepts. -/
def validField (item : Str × Json) : Bool :=
  match item.2 with
  | .str s => (Dict.get textFields item.1).any (s.length ≤ ·)
  | .int n => item.1 ∈ countFields && 0 ≤ n && n ≤ 10000
  | _ => false

/-- `child_key(payload) == key`. -/
def isChildKey (payload : Payload) (key : Json) : Bool := key = optionalStr (childKey payload)

/-- The key of a row: a scope, a profile, a session and a child. -/
def validKey : Option Json → Bool
  | some (.arr [installation, device, .int epoch, profile, durable, _]) =>
    (identifier (some installation)).isSome && (identifier (some device)).isSome &&
      (identifier (some profile)).isSome && (identifier (some durable)).isSome &&
      0 ≤ epoch && epoch ≤ 2 ^ 31 - 1
  | _ => false

/-- The parts of a key that its event names too. -/
def keyItem (key : Option Json) (i : ℕ) : Option Json :=
  match key with
  | some (.arr items) => items[i]?
  | _ => none

/-- `_validate_row`; `false` is the `ValueError`. -/
def validRow (depths : JsonDepths) (row : Json) : Bool :=
  let key := field row (lit "key")
  let event := field row (lit "event")
  let params := field event (lit "params")
  let binding := field params (lit "recovery_binding")
  let session := field params (lit "session_id")
  let durable := field params (lit "durable_session_id")
  let profile := field params (lit "profile")
  validKey key &&
    ((field row (lit "expires_at")).any finiteNumber) &&
    field event (lit "method") = some (.str (lit "event")) &&
    field event (lit "jsonrpc") = some (.str (lit "2.0")) &&
    (identifier session).isSome && field binding (lit "runtime_session_id") = session &&
    durable = keyItem key 4 && field binding (lit "durable_session_id") = keyItem key 4 &&
    profile = keyItem key 3 && field binding (lit "profile") = keyItem key 3 &&
    (match field params (lit "payload"), keyItem key 5, field params (lit "recovery_revision") with
      | some (.obj payload), some child, some (.int revision) =>
        isChildKey payload child && payload.all validField &&
          field params (lit "relay_event_id") = some (projectionId revision)
      | _, _, _ => false) &&
    (match event with
      | some event => ((dumps depths plainAscii event).any (·.length ≤ 32768))
      | none => false)

/-- What the constructor holds. -/
structure LoadedStore where
  rows : List Json
  revision : ℤ
  truncated : Bool
  deriving DecidableEq

/-- The number that stands for `row["expires_at"]`. -/
def expiry (row : Json) : ℚ := ((field row (lit "expires_at")).map number).getD 0

/-- `_prune`, on the rows as they were read. -/
def LoadedStore.prune (s : LoadedStore) (wall : ℚ) (maxRows : ℕ) : LoadedStore :=
  let kept := s.rows.filter fun row => wall < expiry row
  { s with
    truncated := s.truncated || kept.length != s.rows.length || maxRows < kept.length
    rows := kept.drop (kept.length - maxRows) }

/-- The checks of the file's value. -/
def loadValue (depths : JsonDepths) : Json → Option LoadedStore
  | .obj data =>
    match Json.lookup data (lit "version"), Json.lookup data (lit "rows"), Json.lookup data (lit "revision") with
    | some version, some (.arr rows), some (.int revision) =>
      if Json.same version (.int 1) ∧ rows.length ≤ maxStoreRows ∧ 0 ≤ revision ∧ revision ≤ 2 ^ 63 - 1 ∧
          rows.all (validRow depths) then
        some ⟨rows, revision, ((Json.lookup data (lit "truncated")).map Json.truthy).getD false⟩
      else none
    | _, _, _ => none
  | _ => none

/-- `RecoveryStore(path)` at the clock reading `wall`; `none` is any error but a missing file. -/
def load (depths : JsonDepths) (wall : ℚ) (maxRows : ℕ) : Option Bytes → Option LoadedStore
  | none => some ⟨[], 0, false⟩
  | some bytes =>
    if maxStoreBytes < bytes.length then none
    else (((decodeUtf8 bytes).bind (loadsStrict depths)).bind (loadValue depths)).map (·.prune wall maxRows)

theorem load_some (depths : JsonDepths) (wall : ℚ) (maxRows : ℕ) (bytes : Bytes) :
    load depths wall maxRows (some bytes) =
      if maxStoreBytes < bytes.length then none
      else (((decodeUtf8 bytes).bind (loadsStrict depths)).bind (loadValue depths)).map (·.prune wall maxRows) := rfl

theorem length_intRepr_le {n : ℤ} (h0 : 0 ≤ n) (h : n ≤ 2 ^ 63) : (intRepr n).length ≤ 19 := by
  have hn : n.natAbs < 10 ^ 19 := by omega
  rw [← Int.natAbs_of_nonneg h0]
  exact length_natDigits_le (by decide) hn

theorem rendered_of_le {n : ℤ} (h0 : 0 ≤ n) (h : n ≤ 2 ^ 63) : rendered n = true :=
  decide_eq_true ((length_intRepr_le h0 h).trans (by decide))

/-- **A revision that is loaded is one of 63 bits.** -/
theorem load_bounded {depths : JsonDepths} {wall : ℚ} {maxRows : ℕ} {file : Option Bytes} {loaded : LoadedStore}
    (h : load depths wall maxRows file = some loaded) : 0 ≤ loaded.revision ∧ loaded.revision ≤ 2 ^ 63 - 1 := by
  cases file with
  | none =>
    cases h
    exact ⟨le_rfl, by decide⟩
  | some bytes =>
    rw [load_some] at h
    split at h
    · cases h
    · obtain ⟨loaded', hloaded, rfl⟩ := Option.map_eq_some_iff.1 h
      obtain ⟨v, -, hvalue⟩ := Option.bind_eq_some_iff.1 hloaded
      unfold loadValue at hvalue
      split at hvalue
      · split at hvalue
        · split at hvalue
          · rename_i hchecks
            cases hvalue
            exact ⟨hchecks.2.2.1, hchecks.2.2.2.1⟩
          · cases hvalue
        · cases hvalue
      · cases hvalue

/-- A store in memory as the constructor holds it. -/
def image (s : RecoveryStore) : LoadedStore := ⟨s.rows.map (·.toJson), s.revision, s.truncated⟩

/-! ## Sound rows -/

/-- An identifier that is read as it was written. -/
structure Named (s : Str) : Prop where
  pos : 0 < s.length
  short : s.length ≤ 128
  legible : LegibleStr s

theorem Named.identifier {s : Str} (h : Named s) : identifier (some (.str s)) = some s :=
  if_pos ⟨h.pos, h.short⟩

/-- The scope of an admitted lease. -/
structure Scope.Admitted (scope : Scope) : Prop where
  installation : Named scope.installation
  device : Named scope.device
  epoch : ∃ n, scope.epoch = some n ∧ 0 ≤ n ∧ n ≤ 2 ^ 31 - 1

/-- A payload whose keys differ and whose fields keep their bounds. -/
structure SoundPayload (payload : Payload) : Prop where
  keyed : (payload.map (·.1)).Nodup
  fields : ∀ item ∈ payload, validField item = true ∧ item.2.Strings

/-- The event of a stored row. -/
def storedEvent (session kind : Str) (payload : Payload) (revision : ℤ) (durable profile : Str) : TaskEvent where
  sessionId := session
  kind := kind
  payload := payload
  recoveryRevision := revision
  recoveryBinding := some ⟨session, durable, profile, true⟩
  durableSessionId := some durable
  profile := some profile
  relayEventId := some revision

/-- A row that `put` stored: its event is bound, and its key is that of its scope, its binding and
    its child. -/
inductive SoundRow : RecoveryRow → Prop
  | mk {scope session durable profile kind payload revision expiresAt} (hscope : scope.Admitted)
      (hsession : Named session) (hdurable : Named durable) (hprofile : Named profile) (hkind : LegibleStr kind)
      (hpayload : SoundPayload payload) (hrevision : 0 ≤ revision) (hexpiry : Float64.IsValue expiresAt)
      (hfinite : (Float64.ofRat expiresAt).isFinite = true) :
      SoundRow ⟨⟨scope, profile, durable, childKey payload⟩, expiresAt,
        storedEvent session kind payload revision durable profile⟩

/-- Rows of different children, written no later than the revision of the store. -/
structure SoundStore (s : RecoveryStore) : Prop where
  rows : ∀ r ∈ s.rows, SoundRow r ∧ r.event.recoveryRevision ≤ s.revision
  keyed : (s.rows.map (·.key)).Nodup
  revision : 0 ≤ s.revision
  capacity : 1 ≤ s.maxRows ∧ s.maxRows ≤ maxStoreRows

/-- An event that the reader takes. -/
def SmallEvent (e : TaskEvent) : Prop := (write plainAscii e.toJson).length ≤ 32768

/-! ## Reading what was written -/

theorem legible_int {n : ℤ} (h0 : 0 ≤ n) (h : n ≤ 2 ^ 63 - 1) : (Json.int n).Legible := by
  have hlength := length_intRepr_le h0 (h.trans (by decide))
  rw [← Int.natAbs_of_nonneg h0] at hlength
  exact hlength.trans (by decide)

theorem legible_intRepr (n : ℤ) : LegibleStr (intRepr n) := (intRepr_ascii n).legible

theorem validField_spec {item : Str × Json} (h : validField item = true) :
    LegibleStr item.1 ∧ item.2.depth = 0 ∧ (item.2.Strings → item.2.Legible) := by
  obtain ⟨k, v⟩ := item
  have htext : ∀ x ∈ textFields, LegibleStr x.1 := by decide
  have hcount : ∀ k ∈ countFields, LegibleStr k := by decide
  unfold validField at h
  dsimp only at h ⊢
  cases v with
  | str s =>
    obtain ⟨longest, hlongest, -⟩ := (Option.any_eq_true _ _).1 h
    exact ⟨htext _ (Dict.get_mem hlongest), rfl, id⟩
  | int n =>
    simp only [Bool.and_eq_true, decide_eq_true_eq] at h
    obtain ⟨⟨hk, h0⟩, h1⟩ := h
    exact ⟨hcount k hk, rfl, fun _ => legible_int h0 (by omega)⟩
  | _ => cases h

theorem SoundPayload.legible {payload : Payload} (h : SoundPayload payload) : (Json.obj payload).Legible := by
  refine ⟨h.keyed, Json.legibleMembers_iff.2 fun m hm => ?_⟩
  obtain ⟨hvalid, hstrings⟩ := h.fields m hm
  obtain ⟨hk, -, hv⟩ := validField_spec hvalid
  exact ⟨hk, hv hstrings⟩

theorem SoundPayload.depth {payload : Payload} (h : SoundPayload payload) : (Json.obj payload).depth ≤ 1 := by
  have hmembers : Json.depthMembers payload ≤ 0 :=
    Json.depthMembers_le.2 fun m hm => (validField_spec (h.fields m hm).1).2.1.le
  unfold Json.depth
  omega

/-- The parameters of a stored event. -/
def storedParams (session kind : Str) (payload : Payload) (revision : ℤ) (durable profile : Str) :
    List (Str × Json) :=
  [(lit "session_id", .str session), (lit "type", .str kind), (lit "payload", .obj payload),
   (lit "recovery_revision", .int revision),
   (lit "recovery_binding", (Binding.mk session durable profile true).toJson),
   (lit "durable_session_id", .str durable), (lit "profile", .str profile),
   (lit "relay_event_id", projectionId revision)]

theorem storedEvent_toJson (session kind : Str) (payload : Payload) (revision : ℤ) (durable profile : Str) :
    (storedEvent session kind payload revision durable profile).toJson =
      .obj [(lit "jsonrpc", .str (lit "2.0")), (lit "method", .str (lit "event")),
        (lit "params", .obj (storedParams session kind payload revision durable profile))] := rfl

section Legible

variable {session kind durable profile : Str} {payload : Payload} {revision : ℤ}

theorem binding_legible (hsession : LegibleStr session) (hdurable : LegibleStr durable)
    (hprofile : LegibleStr profile) : (Binding.mk session durable profile true).toJson.Legible := by
  have hkeys : ∀ k ∈ [lit "runtime_session_id", lit "durable_session_id", lit "profile", lit "live"],
      LegibleStr k := by decide
  have hnodup : [lit "runtime_session_id", lit "durable_session_id", lit "profile", lit "live"].Nodup := by
    decide
  simp only [List.forall_mem_cons] at hkeys
  obtain ⟨h1, h2, h3, h4, -⟩ := hkeys
  exact ⟨hnodup, h1, hsession, h2, hdurable, h3, hprofile, h4, trivial, trivial⟩

theorem storedEvent_legible (hsession : Named session) (hdurable : Named durable) (hprofile : Named profile)
    (hkind : LegibleStr kind) (hpayload : SoundPayload payload) (hrevision : 0 ≤ revision)
    (hmax : revision ≤ 2 ^ 63 - 1) :
    (storedEvent session kind payload revision durable profile).toJson.Legible := by
  have hkeys : ∀ k ∈ [lit "session_id", lit "type", lit "payload", lit "recovery_revision",
      lit "recovery_binding", lit "durable_session_id", lit "profile", lit "relay_event_id"], LegibleStr k := by
    decide
  have hnodup : [lit "session_id", lit "type", lit "payload", lit "recovery_revision", lit "recovery_binding",
      lit "durable_session_id", lit "profile", lit "relay_event_id"].Nodup := by
    decide
  have houter : ∀ k ∈ [lit "jsonrpc", lit "method", lit "params", lit "2.0", lit "event"], LegibleStr k := by
    decide
  have houter' : [lit "jsonrpc", lit "method", lit "params"].Nodup := by
    decide
  have hid : (projectionId revision).Legible :=
    (show Ascii (lit "projection:") by decide).append_legible (legible_intRepr revision)
  simp only [List.forall_mem_cons] at hkeys houter
  obtain ⟨h1, h2, h3, h4, h5, h6, h7, h8, -⟩ := hkeys
  obtain ⟨o1, o2, o3, o4, o5, -⟩ := houter
  have hparams : (Json.obj (storedParams session kind payload revision durable profile)).Legible :=
    ⟨hnodup, h1, hsession.legible, h2, hkind, h3, hpayload.legible, h4, legible_int hrevision hmax, h5,
      binding_legible hsession.legible hdurable.legible hprofile.legible, h6, hdurable.legible, h7,
      hprofile.legible, h8, hid, trivial⟩
  rw [storedEvent_toJson]
  exact ⟨houter', o1, o4, o2, o5, o3, hparams, trivial⟩

theorem storedEvent_depth (hpayload : SoundPayload payload) :
    (storedEvent session kind payload revision durable profile).toJson.depth ≤ 3 := by
  have hdepth := hpayload.depth
  rw [storedEvent_toJson]
  simp only [storedParams, Binding.toJson, projectionId, Json.depth, Json.depthMembers] at hdepth ⊢
  omega

end Legible

theorem identifier_some {v : Option Json} {s : Str} (h : identifier v = some s) :
    v = some (.str s) ∧ 0 < s.length ∧ s.length ≤ 128 := by
  unfold identifier at h
  split at h
  · split at h
    · rename_i hlen
      cases h
      exact ⟨rfl, hlen⟩
    · cases h
  · cases h

/-- The child that a payload names has a legible key. -/
theorem childKey_legible {payload : Payload} {child : Str} (h : SoundPayload payload)
    (hchild : childKey payload = some child) : LegibleStr child := by
  have hstrings : (Json.obj payload).Strings :=
    Json.stringsMembers_iff.2 fun m hm => ⟨(validField_spec (h.fields m hm).1).1, (h.fields m hm).2⟩
  have hnamed : ∀ {k s}, identifier (Json.lookup payload k) = some s → LegibleStr s := by
    intro k s hs
    exact hstrings.lookup (identifier_some hs).1
  have hprefixes : ∀ s ∈ [lit "subagent_id:", lit "child_session_id:", lit "delegation:"], Ascii s := by
    decide
  simp only [List.forall_mem_cons] at hprefixes
  obtain ⟨p1, p2, p3, -⟩ := hprefixes
  unfold childKey at hchild
  split at hchild
  · rename_i s hs
    cases hchild
    exact p1.append_legible (hnamed hs)
  · split at hchild
    · rename_i s hs
      cases hchild
      exact p2.append_legible (hnamed hs)
    · split at hchild
      · rename_i delegation index hdelegation _
        cases hchild
        rw [List.append_assoc]
        exact p3.append_legible ((hnamed hdelegation).append_ascii (.cons (by decide) (intRepr_ascii index)))
      · cases hchild

theorem floatJson_legible {q : ℚ} (hvalue : Float64.IsValue q) (hfinite : (Float64.ofRat q).isFinite = true) :
    (floatJson q).Legible := by
  have hcanonical := hvalue.1
  unfold floatJson
  cases h : Float64.ofRat q with
  | inf neg =>
    rw [h] at hfinite
    cases hfinite
  | finite neg m e =>
    rw [h] at hcanonical
    exact hcanonical

theorem SoundRow.legible {r : RecoveryRow} (h : SoundRow r) (hmax : r.event.recoveryRevision ≤ 2 ^ 63 - 1) :
    r.toJson.Legible := by
  cases h with
  | @mk scope session durable profile kind payload revision expiresAt hscope hsession hdurable hprofile hkind
      hpayload hrevision hexpiry hfinite =>
    obtain ⟨n, hepoch, h0, h1⟩ := hscope.epoch
    have hkeys : ∀ k ∈ [lit "key", lit "expires_at", lit "event"], LegibleStr k := by decide
    have hnodup : [lit "key", lit "expires_at", lit "event"].Nodup := by decide
    simp only [List.forall_mem_cons] at hkeys
    obtain ⟨k1, k2, k3, -⟩ := hkeys
    have hchild : (optionalStr (childKey payload)).Legible := by
      cases hchild : childKey payload with
      | none => exact trivial
      | some child => exact childKey_legible hpayload hchild
    have hfloat := floatJson_legible hexpiry hfinite
    have hint : (optionalInt scope.epoch).Legible := by
      rw [hepoch]
      exact legible_int h0 (by omega)
    have hevent := storedEvent_legible hsession hdurable hprofile hkind hpayload hrevision hmax
    exact ⟨hnodup, k1, ⟨hscope.installation.legible, hscope.device.legible, hint, hprofile.legible,
      hdurable.legible, hchild, trivial⟩, k2, hfloat, k3, hevent, trivial⟩

theorem SoundRow.depth {r : RecoveryRow} (h : SoundRow r) : r.toJson.depth ≤ 4 := by
  cases h with
  | @mk scope session durable profile kind payload revision expiresAt _ _ _ _ _ hpayload _ _ _ =>
    have hdepth := @storedEvent_depth session kind durable profile _ revision hpayload
    have hint : (optionalInt scope.epoch).depth = 0 := by
      cases scope.epoch <;> rfl
    have hstr : (optionalStr (childKey payload)).depth = 0 := by
      cases childKey payload <;> rfl
    simp only [RecoveryRow.toJson, RowKey.toJson, floatJson, Json.depth, Json.depthMembers, Json.depthItems, hint,
      hstr]
    omega

/-- What the store writes. -/
def RecoveryStore.toJson (s : RecoveryStore) : Json :=
  .obj [(lit "version", .int 1), (lit "revision", .int s.revision), (lit "truncated", .bool s.truncated),
    (lit "rows", .arr (s.rows.map (·.toJson)))]

theorem encode_eq (s : RecoveryStore) : s.encode = write ⟨true, lit ",", lit ":", false⟩ s.toJson := rfl

theorem encode_ascii (s : RecoveryStore) : Ascii s.encode := write_ascii undone_compact rfl s.toJson

theorem utf8_raw (s : RecoveryStore) : utf8 s.encode = some s.raw := by
  obtain ⟨bytes, hbytes⟩ := Option.isSome_iff_exists.1 (encode_ascii s).utf8
  rw [RecoveryStore.raw, hbytes]
  rfl

theorem length_raw (s : RecoveryStore) : s.raw.length ≤ s.encode.length := by
  obtain ⟨bytes, hbytes, hlen⟩ := fitsIn_ascii (encode_ascii s)
  rw [utf8_raw] at hbytes
  cases hbytes
  exact hlen

variable {depths : JsonDepths} {s : RecoveryStore}

/-- **The file of sound rows is read as it was written.** -/
theorem read_raw (hs : SoundStore s) (hmax : s.revision ≤ 2 ^ 63 - 1) (hread : 6 ≤ depths.read) :
    (decodeUtf8 s.raw).bind (loadsStrict depths) = some s.toJson := by
  have hrows : ∀ v ∈ s.rows.map (·.toJson), v.Legible ∧ v.depth ≤ 4 := by
    intro v hv
    obtain ⟨r, hr, rfl⟩ := List.mem_map.1 hv
    obtain ⟨hsound, hrevision⟩ := hs.rows r hr
    exact ⟨hsound.legible (hrevision.trans hmax), hsound.depth⟩
  have hkeys : ∀ k ∈ [lit "version", lit "revision", lit "truncated", lit "rows"], LegibleStr k := by
    decide
  have hnodup : [lit "version", lit "revision", lit "truncated", lit "rows"].Nodup := by decide
  simp only [List.forall_mem_cons] at hkeys
  obtain ⟨k1, k2, k3, k4, -⟩ := hkeys
  have hlegible : s.toJson.Legible :=
    ⟨hnodup, k1, legible_int (by decide) (by decide), k2, legible_int hs.revision hmax, k3, trivial, k4,
      Json.legibleItems_iff.2 fun v hv => (hrows v hv).1, trivial⟩
  have hdepth : s.toJson.depth ≤ 6 := by
    have hitems : Json.depthItems (s.rows.map (·.toJson)) ≤ 4 :=
      Json.depthItems_le.2 fun v hv => (hrows v hv).2
    simp only [RecoveryStore.toJson, Json.depth, Json.depthMembers]
    omega
  rw [decodeUtf8_iff.2 (utf8_raw s), Option.bind_some, encode_eq]
  exact loadsStrict_write undone_compact hlegible (hdepth.trans hread)

/-! ## Loading what was written -/

theorem validKey_toJson {key : RowKey} (hscope : key.scope.Admitted) (hprofile : Named key.profile)
    (hdurable : Named key.durableSessionId) : validKey (some key.toJson) = true := by
  obtain ⟨n, hepoch, h0, h1⟩ := hscope.epoch
  unfold RowKey.toJson
  rw [hepoch]
  simp only [optionalInt, validKey, hscope.installation.identifier, hscope.device.identifier, hprofile.identifier,
    hdurable.identifier, Option.isSome_some, Bool.true_and, h0, h1, decide_true]

theorem field_row (r : RecoveryRow) : field (some r.toJson) (lit "key") = some r.key.toJson ∧
    field (some r.toJson) (lit "expires_at") = some (floatJson r.expiresAt) ∧
    field (some r.toJson) (lit "event") = some r.event.toJson := ⟨rfl, rfl, rfl⟩

section Fields

variable {session kind durable profile : Str} {payload : Payload} {revision : ℤ}

theorem field_event :
    field (some (storedEvent session kind payload revision durable profile).toJson) (lit "params") =
      some (.obj (storedParams session kind payload revision durable profile)) ∧
    field (some (storedEvent session kind payload revision durable profile).toJson) (lit "method") =
      some (.str (lit "event")) ∧
    field (some (storedEvent session kind payload revision durable profile).toJson) (lit "jsonrpc") =
      some (.str (lit "2.0")) := ⟨rfl, rfl, rfl⟩

theorem field_params (k : Str) (v : Json)
    (h : Json.lookup (storedParams session kind payload revision durable profile) k = some v) :
    field (some (.obj (storedParams session kind payload revision durable profile))) k = some v := h

theorem field_binding :
    field (some (Binding.mk session durable profile true).toJson) (lit "runtime_session_id") = some (.str session) ∧
    field (some (Binding.mk session durable profile true).toJson) (lit "durable_session_id") = some (.str durable) ∧
    field (some (Binding.mk session durable profile true).toJson) (lit "profile") = some (.str profile) :=
  ⟨rfl, rfl, rfl⟩

end Fields

/-- A row is accepted if its event is small. -/
theorem validRow_iff {r : RecoveryRow} (h : SoundRow r) (hwrite : 3 ≤ depths.write) :
    validRow depths r.toJson = true ↔ SmallEvent r.event := by
  cases h with
  | @mk scope session durable profile kind payload revision expiresAt hscope hsession hdurable hprofile hkind
      hpayload hrevision hexpiry hfinite =>
    have hkey : validKey (some (RowKey.toJson ⟨scope, profile, durable, childKey payload⟩)) = true :=
      validKey_toJson hscope hprofile hdurable
    have hexpires : finiteNumber (floatJson expiresAt) = true := hfinite
    have hfields : payload.all validField = true := List.all_eq_true.2 fun m hm => (hpayload.fields m hm).1
    have hdepth := (@storedEvent_depth session kind durable profile payload revision hpayload).trans hwrite
    have hdumps : dumps depths plainAscii (storedEvent session kind payload revision durable profile).toJson =
        some (write plainAscii (storedEvent session kind payload revision durable profile).toJson) := if_pos hdepth
    obtain ⟨r1, r2, r3⟩ := field_row ⟨⟨scope, profile, durable, childKey payload⟩, expiresAt,
      storedEvent session kind payload revision durable profile⟩
    obtain ⟨e1, e2, e3⟩ := @field_event session kind durable profile payload revision
    obtain ⟨b1, b2, b3⟩ := @field_binding session durable profile
    have hparams := @field_params session kind durable profile payload revision
    have p1 := hparams (lit "session_id") _ rfl
    have p2 := hparams (lit "payload") _ rfl
    have p3 := hparams (lit "recovery_revision") _ rfl
    have p4 := hparams (lit "recovery_binding") _ rfl
    have p5 := hparams (lit "durable_session_id") _ rfl
    have p6 := hparams (lit "profile") _ rfl
    have p7 := hparams (lit "relay_event_id") _ rfl
    have k3 : keyItem (some (RowKey.toJson ⟨scope, profile, durable, childKey payload⟩)) 3 =
        some (.str profile) := rfl
    have k4 : keyItem (some (RowKey.toJson ⟨scope, profile, durable, childKey payload⟩)) 4 =
        some (.str durable) := rfl
    have k5 : keyItem (some (RowKey.toJson ⟨scope, profile, durable, childKey payload⟩)) 5 =
        some (optionalStr (childKey payload)) := rfl
    unfold validRow SmallEvent
    dsimp only at r1 r2 r3 ⊢
    simp only [r1, r2, r3, e1, e2, e3, p1, p2, p3, p4, p5, p6, p7, b1, b2, b3, k3, k4, k5, hkey, hexpires, hfields,
      hdumps, hsession.identifier, isChildKey, Option.any_some, Option.isSome_some, decide_true, Bool.and_self,
      Bool.true_and, decide_eq_true_eq]

theorem loadValue_toJson (depths : JsonDepths) (s : RecoveryStore) :
    loadValue depths s.toJson =
      if s.rows.length ≤ maxStoreRows ∧ 0 ≤ s.revision ∧ s.revision ≤ 2 ^ 63 - 1 ∧
          ∀ r ∈ s.rows, validRow depths r.toJson = true then some (image s) else none := by
  have h1 : Json.lookup [(lit "version", .int 1), (lit "revision", .int s.revision),
      (lit "truncated", .bool s.truncated), (lit "rows", .arr (s.rows.map (·.toJson)))] (lit "version") =
        some (.int 1) := rfl
  have h2 : Json.lookup [(lit "version", .int 1), (lit "revision", .int s.revision),
      (lit "truncated", .bool s.truncated), (lit "rows", .arr (s.rows.map (·.toJson)))] (lit "revision") =
        some (.int s.revision) := rfl
  have h3 : Json.lookup [(lit "version", .int 1), (lit "revision", .int s.revision),
      (lit "truncated", .bool s.truncated), (lit "rows", .arr (s.rows.map (·.toJson)))] (lit "truncated") =
        some (.bool s.truncated) := rfl
  have h4 : Json.lookup [(lit "version", .int 1), (lit "revision", .int s.revision),
      (lit "truncated", .bool s.truncated), (lit "rows", .arr (s.rows.map (·.toJson)))] (lit "rows") =
        some (.arr (s.rows.map (·.toJson))) := rfl
  unfold RecoveryStore.toJson loadValue
  simp only [h1, h2, h3, h4, Json.same_refl, true_and, List.length_map, List.all_map, Function.comp_def,
    List.all_eq_true]
  rfl

theorem expiry_toJson {r : RecoveryRow} (h : SoundRow r) : expiry r.toJson = r.expiresAt := by
  have hvalue : Float64.IsValue r.expiresAt := by
    cases h with
    | mk _ _ _ _ _ _ _ hexpiry _ => exact hexpiry
  unfold expiry
  rw [(field_row r).2.1]
  exact hvalue.2

/-- Pruning what was loaded and loading what was pruned come to the same. -/
theorem prune_image (hs : ∀ r ∈ s.rows, SoundRow r) (wall : ℚ) :
    (image s).prune wall s.maxRows = image (s.prune wall) := by
  have hfilter : (s.rows.map (·.toJson)).filter (fun row => decide (wall < expiry row)) =
      (s.rows.filter fun r => decide (wall < r.expiresAt)).map (·.toJson) := by
    rw [List.filter_map]
    congr 1
    refine List.filter_congr fun r hr => ?_
    simp only [Function.comp_apply, expiry_toJson (hs r hr)]
  unfold image LoadedStore.prune RecoveryStore.prune
  simp only [hfilter, List.length_map, List.map_drop]

/-- **A store with small sound rows is loaded as it was written.** -/
theorem load_raw (hs : SoundStore s) (hmax : s.revision ≤ 2 ^ 63 - 1) (hrows : s.rows.length ≤ maxStoreRows)
    (hsmall : ∀ r ∈ s.rows, SmallEvent r.event) (hlen : s.encode.length ≤ maxStoreBytes)
    (hread : 6 ≤ depths.read) (hwrite : 3 ≤ depths.write) (wall : ℚ) :
    load depths wall s.maxRows (some s.raw) = some (image (s.prune wall)) := by
  have hbytes : ¬ maxStoreBytes < s.raw.length := Nat.not_lt.2 ((length_raw s).trans hlen)
  have hvalid : ∀ r ∈ s.rows, validRow depths r.toJson = true := fun r hr =>
    (validRow_iff (hs.rows r hr).1 hwrite).2 (hsmall r hr)
  have hvalue : loadValue depths s.toJson = some (image s) := by
    rw [loadValue_toJson]
    exact if_pos ⟨hrows, hs.revision, hmax, hvalid⟩
  rw [load_some, if_neg hbytes, read_raw hs hmax hread, Option.bind_some, hvalue, Option.map_some,
    prune_image fun r hr => (hs.rows r hr).1]

/-- What is loaded from the file of sound rows is what was written. -/
theorem image_of_load (hs : SoundStore s) (hmax : s.revision ≤ 2 ^ 63 - 1) (hread : 6 ≤ depths.read) {wall : ℚ}
    {loaded : LoadedStore} {maxRows : ℕ} (h : load depths wall maxRows (some s.raw) = some loaded) :
    loaded = (image s).prune wall maxRows := by
  rw [load_some] at h
  split at h
  · cases h
  · rw [read_raw hs hmax hread, Option.bind_some, loadValue_toJson] at h
    split at h
    · cases h
      rfl
    · cases h

/-! ## The revision of a file -/

/-- The style of the file. -/
def fileStyle : DumpStyle := ⟨true, lit ",", lit ":", false⟩

theorem undone_file : Undone fileStyle := undone_compact

/-- The first members of a file, before its rows. -/
theorem encode_start (s : RecoveryStore) : ∃ rest, s.encode =
    123 :: (memberText fileStyle (lit "version", .int 1) ++
      44 :: (memberText fileStyle (lit "revision", .int s.revision) ++
        44 :: (memberText fileStyle (lit "truncated", .bool s.truncated) ++ rest))) := by
  refine ⟨44 :: (memberText fileStyle (lit "rows", .arr (s.rows.map (·.toJson))) ++ [125]), ?_⟩
  have htext := @write_obj fileStyle [(lit "version", .int 1), (lit "revision", .int s.revision),
    (lit "truncated", .bool s.truncated), (lit "rows", .arr (s.rows.map (·.toJson)))] rfl
  have hcomma : fileStyle.itemSeparator = [44] := rfl
  rw [encode_eq, RecoveryStore.toJson]
  refine htext.trans ?_
  simp only [membersText, List.map_cons, List.map_nil, join, hcomma, List.append_assoc, List.cons_append,
    List.nil_append]

/-- The rest of a member after its first quote. -/
theorem memberText_start (m : Str × Json) (t : Str) : ∃ u, memberText fileStyle m ++ t = 34 :: u :=
  ⟨_, rfl⟩

/-- An integer member, before another, is read. -/
theorem readMembers_int {fuel : ℕ} {acc : List (Str × Json)} {k : Str} {n : ℤ} {m : Str × Json} {t : Str}
    (hk : LegibleStr k) (hnew : k ∉ acc.map (·.1)) :
    readMembers (fuel + 2) acc (memberText fileStyle (k, .int n) ++ 44 :: (memberText fileStyle m ++ t)) =
      if (natDigits n.natAbs).length ≤ intMaxStrDigits then
        readMembers (fuel + 1) ((k, .int n) :: acc) (memberText fileStyle m ++ t)
      else none := by
  have hends : Ends (44 :: (memberText fileStyle m ++ t)) := by
    intro c hc
    cases hc
    exact ⟨by decide, by decide, by decide, by decide⟩
  have hstart : ∃ c u, write fileStyle (.int n) = c :: u ∧ IsStart c := intRepr_start n
  rw [readMembers_member undone_file hk hstart hnew]
  split
  · rename_i hread
    rw [if_neg]
    intro hlen
    have hvalue := @readValue_intRepr fuel _ n hlen hends
    have hnone : readValue (fuel + 1) (intRepr n ++ 44 :: (memberText fileStyle m ++ t)) = none := hread
    rw [hnone] at hvalue
    cases hvalue
  · rename_i w u hread
    have hread : readValue (fuel + 1) (intRepr n ++ 44 :: (memberText fileStyle m ++ t)) = some (w, u) := hread
    by_cases hlen : (natDigits n.natAbs).length ≤ intMaxStrDigits
    · rw [if_pos hlen]
      rw [readValue_intRepr hlen hends] at hread
      cases hread
      obtain ⟨y, hy⟩ := memberText_start m t
      have hskip : skipWs (34 :: y) = 34 :: y := skipWs_start (by decide) y
      rw [hy, skipWs_start (by decide)]
      exact congrArg (readMembers (fuel + 1) ((k, .int n) :: acc)) hskip
    · rw [readValue_long (Nat.lt_of_not_le hlen) hends] at hread
      cases hread

/-- The revision that is read from a file is the one that was written, whatever its rows are. -/
theorem lookup_revision {v : Json} (h : loadsStrict depths s.encode = some v) :
    (natDigits s.revision.natAbs).length ≤ intMaxStrDigits ∧ ∃ data, v = .obj data ∧
      Json.lookup data (lit "revision") = some (.int s.revision) := by
  obtain ⟨rest, htext⟩ := encode_start s
  have hversion : LegibleStr (lit "version") := by decide
  have hkey : LegibleStr (lit "revision") := by decide
  have hnew : lit "revision" ∉ [(lit "version", Json.int 1)].map (·.1) := by decide
  obtain ⟨y, hy⟩ := memberText_start (lit "version", .int 1)
    (44 :: (memberText fileStyle (lit "revision", .int s.revision) ++
      44 :: (memberText fileStyle (lit "truncated", .bool s.truncated) ++ rest)))
  have hone : (natDigits (1 : ℤ).natAbs).length ≤ intMaxStrDigits := by decide
  unfold loadsStrict at h
  split at h
  · cases h
  · split at h
    · rename_i w u hread
      split at h
      · cases h
        have hfuel : 2 * s.encode.length + 2 = (2 * s.encode.length - 2 + 1) + 2 + 1 := by
          rw [htext, List.length_cons, hy, List.length_cons]
          omega
        rw [hfuel, htext, skipWs_start (by decide), hy, readValue_brace, skipWs_start (by decide)] at hread
        split at hread
        · rename_i heq
          cases heq
        · obtain ⟨⟨ms, t⟩, hms, hv⟩ := Option.map_eq_some_iff.1 hread
          cases hv
          rw [← hy, readMembers_int hversion List.not_mem_nil, if_pos hone, readMembers_int hkey hnew] at hms
          split at hms
          · rename_i hlen
            obtain ⟨tail, rfl⟩ := readMembers_prefix hms
            exact ⟨hlen, _, rfl, rfl⟩
          · cases hms
      · cases h
    · cases h

/-- **A file is loaded with the revision it was written with.** -/
theorem load_revision {wall : ℚ} {loaded : LoadedStore} {maxRows : ℕ}
    (h : load depths wall maxRows (some s.raw) = some loaded) :
    loaded.revision = s.revision ∧ 0 ≤ s.revision ∧ s.revision ≤ 2 ^ 63 - 1 := by
  rw [load_some] at h
  split at h
  · cases h
  · rw [decodeUtf8_iff.2 (utf8_raw s), Option.bind_some] at h
    obtain ⟨loaded', hloaded, rfl⟩ := Option.map_eq_some_iff.1 h
    obtain ⟨v, hv, hvalue⟩ := Option.bind_eq_some_iff.1 hloaded
    obtain ⟨-, data, rfl, hrevision⟩ := lookup_revision hv
    unfold loadValue at hvalue
    dsimp only at hvalue
    split at hvalue
    · rename_i version rows revision _ _ hread
      split at hvalue
      · rename_i hchecks
        obtain ⟨-, -, h0, h1, -⟩ := hchecks
        rw [hrevision] at hread
        cases hread
        cases hvalue
        exact ⟨rfl, h0, h1⟩
      · cases hvalue
    · cases hvalue

end MercuryRelay
