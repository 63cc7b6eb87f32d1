/-
  The first message of a device: an envelope that names it, its profile and its
  lease channel (admission.py, `controller_auth_payload`, `_parse_controller_auth`).

  * `auth_round_trip`: the parser gives back what the payload was made of iff
    the envelope fits and its texts are read as they were written.
-/
import MercuryRelay.Authorization.State
import MercuryRelay.Lease.State
import MercuryRelay.MethodPolicy
import MercuryRelay.Python.JsonSorted
import MercuryRelay.Python.Utf8

set_option autoImplicit false

namespace MercuryRelay

open Python

/-- `AUTH_ENVELOPE_TYPE`. -/
def authEnvelopeType : Str := lit "controller.open"

/-- `MAX_AUTH_ENVELOPE_BYTES`. -/
def maxAuthEnvelopeBytes : ℕ := 512

/-- `DEFAULT_CHANNEL`. -/
def defaultChannel : Str := []

def isChannelChar (c : ℕ) : Bool :=
  (65 ≤ c && c ≤ 90) || (97 ≤ c && c ≤ 122) || (48 ≤ c && c ≤ 57) || c = 95 || c = 45

/-- `_CHANNEL_RE`: `^[A-Za-z0-9_-]{1,64}$`. -/
def isChannel (s : Str) : Bool := 1 ≤ s.length && s.length ≤ 64 && s.all isChannelChar

/-- `validate_channel`; `none` is its `ValueError`. -/
def validateChannel : Json → Option Str
  | .null => some defaultChannel
  | .str s => if isChannel s then some s else none
  | _ => none

/-- The arguments of `controller_auth_payload`. -/
structure AuthArguments where
  deviceId : Str
  profile : Str
  resumeCursor : Option ℤ := none
  recoveryVersion : Option ℤ := none
  channel : Option Str := none
  deviceName : Option Str := none

/-- What `_parse_controller_auth` gives. -/
structure ControllerAuth where
  deviceId : Str
  profile : Str
  resumeCursor : Option ℤ
  recoveryVersion : Option ℤ
  channel : Str
  deviceName : Option Str
  deriving DecidableEq

/-! ## The payload -/

/-- What `controller_auth_payload` raises: an error with its message, or what
    `json.dumps` and `encode` raise. -/
inductive PayloadFault where
  | value (message : String)
  | recursion
  | unicode
  deriving DecidableEq

namespace AuthArguments

variable (args : AuthArguments)

/-- The message of the first argument that is not accepted. -/
def invalid : Option String :=
  if ¬ (1 ≤ args.deviceId.length ∧ args.deviceId.length ≤ 128) then some "invalid device identifier"
  else if ¬ validateProfileId args.profile then some "invalid profile identifier"
  else if args.channel.any (fun c => (validateChannel (.str c)).isNone) then some "invalid lease channel"
  else if args.deviceName.any fun n => ¬ (1 ≤ n.length ∧ n.length ≤ maxDeviceNameChars) then
    some "invalid device name"
  else if args.resumeCursor.any fun n => ¬ (0 ≤ n ∧ n ≤ maxCursor) then some "invalid resume cursor"
  else if args.recoveryVersion.any (· ≠ 1) then some "invalid recovery version"
  else none

/-- The members of the envelope, as they are set. -/
def fields : List (Str × Option Json) :=
  [(lit "type", some (.str authEnvelopeType)), (lit "device_id", some (.str args.deviceId)),
   (lit "profile", some (.str args.profile)), (lit "channel", args.channel.map .str),
   (lit "device_name", args.deviceName.map .str), (lit "resume_cursor", args.resumeCursor.map .int),
   (lit "recovery_version", args.recoveryVersion.map .int)]

def envelope : Json := .obj (Json.given args.fields)

/-- `controller_auth_payload`. -/
def controllerAuthPayload (depths : JsonDepths) : Except PayloadFault Bytes :=
  match args.invalid with
  | some message => .error (.value message)
  | none =>
    match dumps depths compactSorted args.envelope with
    | none => .error .recursion
    | some text =>
      match encodeAscii text with
      | none => .error .unicode
      | some payload => .ok payload

end AuthArguments

/-! ## The parser -/

/-- The fields an envelope has, and those it may have. -/
def requiredAuthFields : List Str := [lit "type", lit "device_id", lit "profile"]

def optionalAuthFields : List Str :=
  [lit "resume_cursor", lit "recovery_version", lit "channel", lit "device_name"]

def parseDeviceId : Option Json → Option Str
  | some (.str s) => if 1 ≤ s.length ∧ s.length ≤ 128 then some s else none
  | _ => none

def parseProfile : Option Json → Option Str
  | some (.str s) => if validateProfileId s then some s else none
  | _ => none

def parseResumeCursor : Option Json → Option (Option ℤ)
  | none => some none
  | some (.int n) => if 0 ≤ n ∧ n ≤ maxCursor then some (some n) else none
  | some _ => none

def parseRecoveryVersion : Option Json → Option (Option ℤ)
  | none => some none
  | some (.int n) => if n = 1 then some (some n) else none
  | some _ => none

def parseChannel : Option Json → Option Str
  | none => some defaultChannel
  | some v => (validateChannel v).filter (· ≠ defaultChannel)

/-- A name may be longer here; the repository cleans it. -/
def parseDeviceName : Option Json → Option (Option Str)
  | none => some none
  | some (.str s) => if s.length ≤ 4 * maxDeviceNameChars then some (some s) else none
  | some _ => none

/-- What is taken of an object with the right fields. -/
def parseAuthFields (value : List (Str × Json)) : Option ControllerAuth :=
  match parseDeviceId (Json.lookup value (lit "device_id")),
    parseProfile (Json.lookup value (lit "profile")),
    parseResumeCursor (Json.lookup value (lit "resume_cursor")),
    parseRecoveryVersion (Json.lookup value (lit "recovery_version")),
    parseChannel (Json.lookup value (lit "channel")),
    parseDeviceName (Json.lookup value (lit "device_name")) with
  | some deviceId, some profile, some cursor, some version, some channel, some name =>
    some ⟨deviceId, profile, cursor, version, channel, name⟩
  | _, _, _, _, _, _ => none

def parseAuthValue : Option Json → Option ControllerAuth
  | some (.obj value) =>
    if ¬ requiredAuthFields.all (Json.hasKey value ·) then none
    else if ¬ value.all (fun m => m.1 ∈ requiredAuthFields ++ optionalAuthFields) then none
    else if Json.lookup value (lit "type") ≠ some (.str authEnvelopeType) then none
    else parseAuthFields value
  | _ => none

/-- `_parse_controller_auth`; `none` is its `AdmissionRejected("invalid_auth_envelope")`. -/
def parseControllerAuth (depths : JsonDepths) (plaintext : Bytes) : Option ControllerAuth :=
  if maxAuthEnvelopeBytes < plaintext.length then none
  else parseAuthValue ((decodeUtf8 plaintext).bind (loadsStrict depths))

/-! ## The round trip -/

namespace AuthArguments

variable {args : AuthArguments}

/-- What the parser is to give for them. -/
def auth (args : AuthArguments) : ControllerAuth :=
  ⟨args.deviceId, args.profile, args.resumeCursor, args.recoveryVersion,
    args.channel.getD defaultChannel, args.deviceName⟩

/-- The octets of the envelope. -/
def octets (args : AuthArguments) : ℕ :=
  50 + stringLength args.deviceId + stringLength args.profile +
    args.channel.elim 0 (fun c => 11 + stringLength c) +
    args.deviceName.elim 0 (fun n => 15 + stringLength n) +
    args.resumeCursor.elim 0 (fun n => 17 + (intRepr n).length) +
    args.recoveryVersion.elim 0 (fun n => 20 + (intRepr n).length)

/-- What the arguments have that are accepted. -/
structure Accepted (args : AuthArguments) : Prop where
  deviceId : 1 ≤ args.deviceId.length ∧ args.deviceId.length ≤ 128
  profile : validateProfileId args.profile = true
  channel : ∀ c ∈ args.channel, isChannel c = true
  deviceName : ∀ n ∈ args.deviceName, 1 ≤ n.length ∧ n.length ≤ maxDeviceNameChars
  resumeCursor : ∀ n ∈ args.resumeCursor, 0 ≤ n ∧ n ≤ maxCursor
  recoveryVersion : ∀ n ∈ args.recoveryVersion, n = 1

theorem accepted_of_invalid (h : args.invalid = none) : args.Accepted := by
  unfold invalid at h
  split at h
  · cases h
  · rename_i hid
    split at h
    · cases h
    · rename_i hprofile
      split at h
      · cases h
      · rename_i hchannel
        split at h
        · cases h
        · rename_i hname
          split at h
          · cases h
          · rename_i hcursor
            split at h
            · cases h
            · rename_i hversion
              exact
                { deviceId := by simpa using hid
                  profile := by simpa using hprofile
                  channel := by
                    intro c hc
                    rw [Option.mem_def] at hc
                    by_contra hno
                    simp [hc, validateChannel, hno] at hchannel
                  deviceName := by
                    intro n hn
                    rw [Option.mem_def] at hn
                    rw [hn] at hname
                    simpa [Nat.one_le_iff_ne_zero] using hname
                  resumeCursor := by
                    intro n hn
                    rw [Option.mem_def] at hn
                    rw [hn] at hcursor
                    simpa using hcursor
                  recoveryVersion := by
                    intro n hn
                    rw [Option.mem_def] at hn
                    rw [hn] at hversion
                    simpa using hversion }

theorem envelope_flat (args : AuthArguments) : ∀ m ∈ Json.given args.fields, m.2.depth = 0 := by
  intro m hm
  rw [Json.mem_given] at hm
  obtain ⟨k, v⟩ := m
  simp only [fields, List.mem_cons, Prod.mk.injEq, List.not_mem_nil, or_false] at hm
  rcases hm with ⟨-, h⟩ | ⟨-, h⟩ | ⟨-, h⟩ | ⟨-, h⟩ | ⟨-, h⟩ | ⟨-, h⟩ | ⟨-, h⟩
  all_goals
    simp only [Option.some.injEq, eq_comm, Option.map_eq_some_iff] at h
    first
      | (subst h; rfl)
      | (obtain ⟨x, -, rfl⟩ := h; rfl)

theorem envelope_depth (args : AuthArguments) : args.envelope.depth ≤ 1 := by
  have hflat : Json.depthMembers (Json.given args.fields) ≤ 0 :=
    Json.depthMembers_le.2 fun m hm => (envelope_flat args m hm).le
  rw [envelope, Json.depth]
  omega

theorem keys_nodup (args : AuthArguments) : (args.fields.map (·.1)).Nodup := by
  have hkeys : args.fields.map (·.1) = [lit "type", lit "device_id", lit "profile", lit "channel",
    lit "device_name", lit "resume_cursor", lit "recovery_version"] := rfl
  rw [hkeys]
  decide

/-- **The envelope is written in so many octets.** -/
theorem length_envelope (args : AuthArguments) : (write compactSorted args.envelope).length = args.octets := by
  have hwrite : write compactSorted args.envelope =
      write compactSorted.unsorted (.obj (Json.sortMembers (Json.given args.fields))) := by
    rw [write_sorted rfl, envelope, Json.sorted_flat (envelope_flat args)]
  have hlit : [lit "type", lit "device_id", lit "profile", lit "channel", lit "device_name",
      lit "resume_cursor", lit "recovery_version", authEnvelopeType].map stringLength =
      [6, 11, 9, 9, 13, 15, 18, 17] := by decide
  simp only [List.map_cons, List.map_nil, List.cons.injEq, and_true] at hlit
  rw [hwrite, length_write rfl rfl, Json.textLength_sortMembers]
  have hsep : compactSorted.unsorted.itemSeparator.length = 1 ∧
      compactSorted.unsorted.keySeparator.length = 1 := ⟨rfl, rfl⟩
  rw [hsep.1, hsep.2, octets]
  obtain ⟨deviceId, profile, cursor, version, channel, name⟩ := args
  cases cursor <;> cases version <;> cases channel <;> cases name <;>
    simp [fields, Json.given, Json.textLength, Json.membersLength, hlit] <;> omega

theorem validateProfileId_ascii {s : Str} (h : validateProfileId s = true) : Ascii s := by
  cases s with
  | nil => intro c hc; cases hc
  | cons c s =>
    simp only [validateProfileId, isProfileStart, Bool.and_eq_true, Bool.or_eq_true, decide_eq_true_eq,
      List.all_eq_true] at h
    obtain ⟨⟨hc, -⟩, hs⟩ := h
    refine .cons (by omega) fun d hd => ?_
    have hchar := hs d hd
    omega

theorem isChannel_ascii {s : Str} (h : isChannel s = true) : Ascii s := by
  simp only [isChannel, isChannelChar, Bool.and_eq_true, Bool.or_eq_true, decide_eq_true_eq,
    List.all_eq_true] at h
  intro c hc
  have hchar := h.2 c hc
  omega

/-- The texts of a peer that are read as they were written. -/
def LegibleTexts (args : AuthArguments) : Prop :=
  LegibleStr args.deviceId ∧ ∀ n ∈ args.deviceName, LegibleStr n

theorem authFields_utf8 : ∀ k ∈ requiredAuthFields ++ optionalAuthFields, (utf8 k).isSome := by decide

theorem envelope_legible (h : args.Accepted) (hlegible : args.LegibleTexts) : args.envelope.Legible := by
  refine ⟨(Json.keys_given _).nodup (keys_nodup args), Json.legibleMembers_iff.2 fun m hm => ?_⟩
  rw [Json.mem_given] at hm
  obtain ⟨k, v⟩ := m
  simp only [fields, List.mem_cons, Prod.mk.injEq, List.not_mem_nil, or_false] at hm
  have hint : ∀ n : ℤ, 0 ≤ n ∧ n ≤ maxCursor → (Json.int n).Legible := by
    intro n hn
    have hlt : n.natAbs < 10 ^ 19 := by
      unfold maxCursor at hn
      omega
    exact (length_natDigits_le (by decide) hlt).trans (by decide)
  rcases hm with ⟨rfl, h'⟩ | ⟨rfl, h'⟩ | ⟨rfl, h'⟩ | ⟨rfl, h'⟩ | ⟨rfl, h'⟩ | ⟨rfl, h'⟩ | ⟨rfl, h'⟩
  all_goals refine ⟨LegibleStr.of_utf8 (authFields_utf8 _ (by simp [requiredAuthFields, optionalAuthFields])), ?_⟩
  · cases h'
    exact LegibleStr.of_utf8 (by decide)
  · cases h'
    exact hlegible.1
  · cases h'
    exact LegibleStr.of_utf8 (validateProfileId_ascii h.profile).utf8
  · obtain ⟨c, hc, rfl⟩ := Option.map_eq_some_iff.1 h'.symm
    exact LegibleStr.of_utf8 (isChannel_ascii (h.channel c hc)).utf8
  · obtain ⟨n, hn, rfl⟩ := Option.map_eq_some_iff.1 h'.symm
    exact hlegible.2 n hn
  · obtain ⟨n, hn, rfl⟩ := Option.map_eq_some_iff.1 h'.symm
    exact hint n (h.resumeCursor n hn)
  · obtain ⟨n, hn, rfl⟩ := Option.map_eq_some_iff.1 h'.symm
    obtain rfl := h.recoveryVersion n hn
    exact hint 1 (by decide)

theorem envelope_ascii (args : AuthArguments) : Ascii (write compactSorted args.envelope) := by
  rw [write_sorted rfl]
  exact write_ascii undone_compact rfl _

/-- The payload of arguments that are accepted. -/
theorem payload_spec {depths : JsonDepths} {payload : Bytes}
    (h : args.controllerAuthPayload depths = .ok payload) : args.Accepted ∧
      payload = (write compactSorted args.envelope).map UInt8.ofNat := by
  unfold controllerAuthPayload at h
  split at h
  · cases h
  · rename_i hinvalid
    refine ⟨accepted_of_invalid hinvalid, ?_⟩
    split at h
    · cases h
    · rename_i text hdumps
      split at h
      · cases h
      · rename_i hascii
        cases h
        obtain rfl : write compactSorted args.envelope = text := by
          unfold dumps at hdumps
          split at hdumps
          · exact Option.some.inj hdumps
          · cases hdumps
        exact (encodeAscii_iff.1 hascii).2

theorem lookup_envelope (args : AuthArguments) {k : Str} {v : Option Json} (hk : (k, v) ∈ args.fields) :
    Json.lookup (Json.sortMembers (Json.given args.fields)) k = v := by
  rw [Json.lookup_sortMembers ((Json.keys_given _).nodup (keys_nodup args))]
  exact Json.lookup_given (keys_nodup args) hk

theorem validateChannel_spec {c : Str} (h : isChannel c = true) :
    (validateChannel (.str c)).filter (· ≠ defaultChannel) = some c := by
  have hne : c ≠ defaultChannel := by
    rintro rfl
    exact absurd h (by decide)
  simp [validateChannel, h, hne]

/-- The sorted envelope is parsed as the arguments. -/
theorem parseAuthValue_envelope (h : args.Accepted) :
    parseAuthValue (some (.obj (Json.sortMembers (Json.given args.fields)))) = some args.auth := by
  have hid := lookup_envelope args (k := lit "device_id") (v := some (.str args.deviceId)) (by simp [fields])
  have hprofile := lookup_envelope args (k := lit "profile") (v := some (.str args.profile)) (by simp [fields])
  have htype := lookup_envelope args (k := lit "type") (v := some (.str authEnvelopeType)) (by simp [fields])
  have hchannel := lookup_envelope args (k := lit "channel") (v := args.channel.map .str) (by simp [fields])
  have hname := lookup_envelope args (k := lit "device_name") (v := args.deviceName.map .str) (by simp [fields])
  have hcursor := lookup_envelope args (k := lit "resume_cursor") (v := args.resumeCursor.map .int)
    (by simp [fields])
  have hversion := lookup_envelope args (k := lit "recovery_version") (v := args.recoveryVersion.map .int)
    (by simp [fields])
  unfold parseAuthValue
  dsimp only
  rw [if_neg, if_neg, if_neg (not_not.2 htype)]
  · unfold parseAuthFields
    rw [hid, hprofile, hchannel, hname, hcursor, hversion]
    have hid' : parseDeviceId (some (.str args.deviceId)) = some args.deviceId := if_pos h.deviceId
    have hprofile' : parseProfile (some (.str args.profile)) = some args.profile := if_pos h.profile
    have hcursor' : parseResumeCursor (args.resumeCursor.map .int) = some args.resumeCursor := by
      cases hc : args.resumeCursor with
      | none => rfl
      | some n => exact if_pos (h.resumeCursor n hc)
    have hversion' : parseRecoveryVersion (args.recoveryVersion.map .int) = some args.recoveryVersion := by
      cases hv : args.recoveryVersion with
      | none => rfl
      | some n => exact if_pos (h.recoveryVersion n hv)
    have hchannel' : parseChannel (args.channel.map .str) = some (args.channel.getD defaultChannel) := by
      cases hc : args.channel with
      | none => rfl
      | some c => exact validateChannel_spec (h.channel c hc)
    have hname' : parseDeviceName (args.deviceName.map .str) = some args.deviceName := by
      cases hn : args.deviceName with
      | none => rfl
      | some n =>
        have hlen := (h.deviceName n hn).2
        exact if_pos (by omega)
    rw [hid', hprofile', hcursor', hversion', hchannel', hname']
    rfl
  · rw [not_not, List.all_eq_true]
    intro m hm
    have hmem := Json.mem_given.1 ((Json.sortMembers_perm _).subset hm)
    have hkey : m.1 ∈ args.fields.map (·.1) := List.mem_map.2 ⟨_, hmem, rfl⟩
    have hkeys : args.fields.map (·.1) ⊆ requiredAuthFields ++ optionalAuthFields := by
      have hfields : args.fields.map (·.1) = [lit "type", lit "device_id", lit "profile", lit "channel",
        lit "device_name", lit "resume_cursor", lit "recovery_version"] := rfl
      rw [hfields]
      decide
    exact decide_eq_true (hkeys hkey)
  · rw [not_not]
    simp only [requiredAuthFields, List.all_cons, List.all_nil, Json.hasKey_of_lookup htype,
      Json.hasKey_of_lookup hid, Json.hasKey_of_lookup hprofile, Bool.and_self]

end AuthArguments

theorem parseDeviceId_spec {v : Option Json} {s : Str} (h : parseDeviceId v = some s) : v = some (.str s) := by
  unfold parseDeviceId at h
  split at h
  · split at h
    · cases h
      rfl
    · cases h
  · cases h

theorem parseDeviceName_spec {v : Option Json} {s : Str} (h : parseDeviceName v = some (some s)) :
    v = some (.str s) := by
  unfold parseDeviceName at h
  split at h
  · cases h
  · split at h
    · cases h
      rfl
    · cases h
  · cases h

/-- What a value has that is accepted. -/
theorem parseAuthValue_spec {v : Option Json} {auth : ControllerAuth} (h : parseAuthValue v = some auth) :
    ∃ value, v = some (.obj value) ∧ Json.lookup value (lit "device_id") = some (.str auth.deviceId) ∧
      ∀ n ∈ auth.deviceName, Json.lookup value (lit "device_name") = some (.str n) := by
  unfold parseAuthValue at h
  split at h
  · split at h
    · cases h
    · split at h
      · cases h
      · split at h
        · cases h
        · unfold parseAuthFields at h
          split at h
          · rename_i hid _ _ _ _ hname
            cases h
            refine ⟨_, rfl, parseDeviceId_spec hid, ?_⟩
            rintro n rfl
            exact parseDeviceName_spec hname
          · cases h
  · cases h

/-- What a plaintext has that is accepted. -/
theorem parseControllerAuth_spec {depths : JsonDepths} {plaintext : Bytes} {auth : ControllerAuth}
    (h : parseControllerAuth depths plaintext = some auth) :
    plaintext.length ≤ maxAuthEnvelopeBytes ∧ 1 ≤ depths.read ∧ LegibleStr auth.deviceId ∧
      ∀ n ∈ auth.deviceName, LegibleStr n := by
  unfold parseControllerAuth at h
  split at h
  · cases h
  · rename_i hlen
    obtain ⟨value, hvalue, hid, hname⟩ := parseAuthValue_spec h
    obtain ⟨text, hdecode, hload⟩ := Option.bind_eq_some_iff.1 hvalue
    have htext : (utf8 text).isSome := by
      rw [decodeUtf8_iff.1 hdecode]
      rfl
    have hstrings := loadsStrict_strings htext hload
    have hdepth := loadsStrict_depth hload
    rw [Json.depth] at hdepth
    refine ⟨not_lt.1 hlen, by omega, ?_, ?_⟩
    · exact Json.Strings.lookup hstrings hid
    · intro n hn
      exact Json.Strings.lookup hstrings (hname n hn)

/-- **The parser gives back what the payload was made of iff the envelope fits
    and its texts are read as they were written.** -/
theorem auth_round_trip {depths : JsonDepths} {args : AuthArguments} {payload : Bytes}
    (h : args.controllerAuthPayload depths = .ok payload) :
    parseControllerAuth depths payload = some args.auth ↔
      args.octets ≤ maxAuthEnvelopeBytes ∧ 1 ≤ depths.read ∧ args.LegibleTexts := by
  obtain ⟨haccepted, rfl⟩ := AuthArguments.payload_spec h
  have hlength := AuthArguments.length_envelope args
  constructor
  · intro hparse
    have hspec := parseControllerAuth_spec hparse
    rw [List.length_map, hlength] at hspec
    exact hspec
  · rintro ⟨hfits, hread, hlegible⟩
    have hload := @loadsStrict_sorted _ compactSorted rfl undone_compact _
      (AuthArguments.envelope_legible haccepted hlegible) ((AuthArguments.envelope_depth args).trans hread)
    have hdecode := (AuthArguments.envelope_ascii args).decode
    unfold parseControllerAuth
    rw [if_neg (by rw [List.length_map, hlength]; omega), hdecode, Option.bind_some, hload,
      AuthArguments.envelope, Json.sorted_flat (AuthArguments.envelope_flat args)]
    exact AuthArguments.parseAuthValue_envelope haccepted

/-! ## A payload that does not fit -/

/-- A device that is named, and its lease channel. -/
def namedArguments : AuthArguments :=
  { deviceId := lit "device", profile := lit "main", resumeCursor := some 7, recoveryVersion := some 1,
    channel := some (lit "c"), deviceName := some (lit "Phone") }

theorem namedArguments_payload :
    (namedArguments.controllerAuthPayload ⟨1, 1⟩).toOption.isSome := by decide +kernel

theorem auth_round_trip_named : ∃ payload, namedArguments.controllerAuthPayload ⟨1, 1⟩ = .ok payload ∧
    parseControllerAuth ⟨1, 1⟩ payload = some namedArguments.auth := by
  cases hpayload : namedArguments.controllerAuthPayload ⟨1, 1⟩ with
  | error fault =>
    have hsome := namedArguments_payload
    rw [hpayload] at hsome
    cases hsome
  | ok payload =>
    refine ⟨payload, rfl, (auth_round_trip hpayload).2 ⟨by decide, le_rfl, ?_⟩⟩
    refine ⟨LegibleStr.of_utf8 (by decide), ?_⟩
    rintro n hn
    cases hn
    exact LegibleStr.of_utf8 (by decide)

/-- A name of 64 characters that are written as twelve each. -/
def wideArguments : AuthArguments :=
  { deviceId := lit "device", profile := lit "main", deviceName := some (List.replicate 64 0x1F600) }

theorem wideArguments_payload : (wideArguments.controllerAuthPayload ⟨1, 1⟩).toOption.any
    (fun payload => decide (payload.length = 849)) = true := by decide +kernel

/-- The name is accepted, and the envelope refused. -/
theorem wide_name_refused : ∃ payload, wideArguments.controllerAuthPayload ⟨1, 1⟩ = .ok payload ∧
    parseControllerAuth ⟨1, 1⟩ payload = none := by
  have hlength := wideArguments_payload
  cases hpayload : wideArguments.controllerAuthPayload ⟨1, 1⟩ with
  | error fault =>
    rw [hpayload] at hlength
    cases hlength
  | ok payload =>
    rw [hpayload] at hlength
    have hlen : payload.length = 849 := of_decide_eq_true hlength
    refine ⟨payload, rfl, if_pos ?_⟩
    rw [hlen]
    decide

end MercuryRelay
