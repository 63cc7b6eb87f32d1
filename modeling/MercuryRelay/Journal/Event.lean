/-
  The closed schema of the connection journal (connection_journal.py,
  `sanitize_connection_event`).

  An event is copied field by field: a string of it is an id of a fixed form, a
  timestamp or a word of a closed vocabulary, and a key that is unknown invalidates
  the whole of it.

  * `sanitize_error_iff`: sanitizing raises exactly where a word to look up has no hash;
  * `sanitize_closed`: an event that is returned is closed;
  * `sanitize_again`: and is returned again.
-/
import MercuryRelay.Python.Dict
import MercuryRelay.Python.Json
import MercuryRelay.Python.Strptime

set_option autoImplicit false

namespace MercuryRelay

open Python

namespace Journal

/-! ## Vocabularies -/

def schemaVersion : ℤ := 1
def maxEventBytes : ℕ := 2 * 1024
def maxEventAgeMs : ℤ := 7 * 24 * 60 * 60 * 1000
def maxGeneration : ℤ := 2 ^ 31 - 1
def maxAttemptNumber : ℤ := 2 ^ 31 - 1
def maxCloseCode : ℤ := 65535

def eventNames : List Str :=
  [lit "connection_attempt", lit "connection_open", lit "disconnect", lit "handshake_outcome",
    lit "admission_outcome", lit "reconnect_attempt", lit "reconnect_backoff", lit "reconnect_result",
    lit "host_generation_change"]

def outcomes : List Str :=
  [lit "unknown", lit "started", lit "success", lit "failed", lit "rejected", lit "timeout", lit "closed"]

def reasons : List Str :=
  [lit "unknown", lit "connect_started", lit "connect_failed", lit "connection_closed",
    lit "connection_failed", lit "connection_limit", lit "handshake_failed", lit "handshake_timeout",
    lit "protocol_violation", lit "timeout", lit "pairing_pending", lit "pairing_rejected",
    lit "pairing_ack_failed", lit "device_not_authorized", lit "invalid_auth_envelope",
    lit "lease_not_available", lit "profile_not_available", lit "runtime_unavailable",
    lit "channel_already_admitted", lit "controller_transport", lit "backpressure", lit "socket_closed",
    lit "shutdown"]

def exceptionCategories : List Str :=
  [lit "timeout", lit "unauthorized", lit "connection", lit "protocol", lit "admission", lit "transport",
    lit "os_error", lit "value_error", lit "cancelled", lit "other", lit "unknown"]

def eventKeys : List Str :=
  [lit "schema_version", lit "timestamp", lit "event", lit "attempt_id", lit "connection_id",
    lit "generation", lit "outcome", lit "reason", lit "exception_category", lit "backoff_ms",
    lit "attempt_number", lit "connection_age_ms", lit "last_send_age_ms", lit "last_receive_age_ms",
    lit "close_code"]

/-! ## Fields -/

/-- An event: its members in their order. -/
abbrev Event := List (Str × Json)

/-- What a value that is no key of a set raises. -/
inductive TypeError where
  | unhashable
  deriving DecidableEq

/-- `_bounded_int`. -/
def boundedInt (value : Json) (maximum : ℤ) : Json :=
  match value with
  | .int n => if 0 ≤ n ∧ n ≤ maximum then .int n else .null
  | _ => .null

/-- `_ID_RE`: `[0-9a-f]{16}`. -/
def isId (s : Str) : Bool :=
  s.length = 16 ∧ s.all fun c => (48 ≤ c && c ≤ 57) || (97 ≤ c && c ≤ 102)

/-- `_safe_id`. -/
def safeId (value : Json) : Json :=
  match value with
  | .str s => if isId s then .str s else .null
  | _ => .null

/-- `_TIMESTAMP_RE`: a zero stands for a digit. -/
def timestampForm : Str := lit "0000-00-00T00:00:00.000Z"

/-- `_TIMESTAMP_RE.fullmatch`. -/
def hasForm (unicode : UnicodeVersion) (s : Str) : Bool :=
  s.length = timestampForm.length ∧
    (s.zip timestampForm).all fun (c, form) => if form = 48 then (decimal unicode c).isSome else c = form

/-- `_safe_timestamp`. -/
def safeTimestamp (unicode : UnicodeVersion) (value : Json) : Option Str :=
  match value with
  | .str s => if hasForm unicode s ∧ (strptime unicode s).isSome then some s else none
  | _ => none

/-- `value in words`, of a set. -/
def inSet (value : Json) (words : List Str) : Except TypeError Bool :=
  if value.hashable then .ok (decide (∃ s ∈ words, value = .str s)) else .error .unhashable

/-- `safe_choice`. -/
def safeChoice (candidate : Json) (allowed : List Str) : Except TypeError Json :=
  if candidate = .null then .ok .null
  else (inSet candidate allowed).map fun known => if known then candidate else .str (lit "unknown")

/-- `value.get(key)`. -/
def get (value : Event) (key : Str) : Json := (Json.lookup value key).getD .null

/-- What `sanitize_connection_event` returns, of the fields that are checked before. -/
def cleaned (value : Event) (timestamp : Str) (event outcome reason category : Json) : Event :=
  [(lit "schema_version", .int schemaVersion), (lit "timestamp", .str timestamp), (lit "event", event),
    (lit "attempt_id", safeId (get value (lit "attempt_id"))),
    (lit "connection_id", safeId (get value (lit "connection_id"))),
    (lit "generation", boundedInt (get value (lit "generation")) maxGeneration),
    (lit "outcome", outcome), (lit "reason", reason), (lit "exception_category", category),
    (lit "backoff_ms", boundedInt (get value (lit "backoff_ms")) maxEventAgeMs),
    (lit "attempt_number", boundedInt (get value (lit "attempt_number")) maxAttemptNumber),
    (lit "connection_age_ms", boundedInt (get value (lit "connection_age_ms")) maxEventAgeMs),
    (lit "last_send_age_ms", boundedInt (get value (lit "last_send_age_ms")) maxEventAgeMs),
    (lit "last_receive_age_ms", boundedInt (get value (lit "last_receive_age_ms")) maxEventAgeMs),
    (lit "close_code", boundedInt (get value (lit "close_code")) maxCloseCode)]

/-- The keys and the version of an event are known. -/
def hasSchema (value : Event) : Bool :=
  value.all (fun member => member.1 ∈ eventKeys) ∧
    (get value (lit "schema_version")).same (.int schemaVersion)

/-- `sanitize_connection_event`. -/
def sanitizeConnectionEvent (unicode : UnicodeVersion) (value : Json) : Except TypeError (Option Event) :=
  match value with
  | .obj value =>
    if ¬ hasSchema value then .ok none
    else
      match safeTimestamp unicode (get value (lit "timestamp")) with
      | none => .ok none
      | some timestamp => do
        let event := get value (lit "event")
        if ¬ (← inSet event eventNames) then return none
        let outcome ← safeChoice (get value (lit "outcome")) outcomes
        let reason ← safeChoice (get value (lit "reason")) reasons
        let category ← safeChoice (get value (lit "exception_category")) exceptionCategories
        return some (cleaned value timestamp event outcome reason category)
  | _ => .ok none

/-- `ensure_ascii=True, separators=(",", ":")`. -/
def journalStyle : DumpStyle := ⟨true, lit ",", lit ":", false⟩

/-- The line of an event in a journal of so many octets a file; `none` if it is too long
    for `record`. -/
def journalLine (maxBytes : ℕ) (event : Event) : Option Bytes :=
  let line := (write journalStyle (.obj event)).map UInt8.ofNat ++ [10]
  if line.length > min maxEventBytes maxBytes then none else some line

variable {unicode : UnicodeVersion} {v : Json} {value e : Event} {words : List Str} {timestamp : Str}

theorem bind_ok_iff {ε α β : Type} {x : Except ε α} {f : α → Except ε β} {b : β} :
    x.bind f = .ok b ↔ ∃ a, x = .ok a ∧ f a = .ok b := by
  cases x <;> simp [Except.bind]

theorem bind_error_iff {ε α β : Type} {x : Except ε α} {f : α → Except ε β} {fault : ε} :
    x.bind f = .error fault ↔ x = .error fault ∨ ∃ a, x = .ok a ∧ f a = .error fault := by
  cases x <;> simp [Except.bind]

/-! ## Raising -/

/-- An event whose word to look up has no hash: its name, or one of its choices when the
    name is known. -/
def Unhashable (unicode : UnicodeVersion) (v : Json) : Prop :=
  ∃ value, v = .obj value ∧ hasSchema value ∧ (safeTimestamp unicode (get value (lit "timestamp"))).isSome ∧
    ((get value (lit "event")).hashable = false ∨
      ((∃ s ∈ eventNames, get value (lit "event") = .str s) ∧
        ∃ key ∈ [lit "outcome", lit "reason", lit "exception_category"],
          (get value key).hashable = false))

theorem inSet_ok {b : Bool} : inSet v words = .ok b ↔ v.hashable ∧ b = decide (∃ s ∈ words, v = .str s) := by
  unfold inSet
  split
  · rename_i h
    simp [h, eq_comm]
  · rename_i h
    simp [h]

theorem inSet_true : inSet v words = .ok true ↔ ∃ s ∈ words, v = .str s := by
  rw [inSet_ok]
  constructor
  · rintro ⟨-, h⟩
    exact of_decide_eq_true h.symm
  · intro h
    obtain ⟨s, -, rfl⟩ := id h
    exact ⟨rfl, (decide_eq_true h).symm⟩

theorem inSet_error {fault : TypeError} : inSet v words = .error fault ↔ v.hashable = false := by
  unfold inSet
  cases fault
  split <;> simp_all

theorem safeChoice_error {fault : TypeError} : safeChoice v words = .error fault ↔ v.hashable = false := by
  unfold safeChoice
  split
  · rename_i h
    simp [h, Json.hashable]
  · cases h : inSet v words with
    | error fault' =>
      cases fault
      cases fault'
      simp [Except.map, inSet_error.1 h]
    | ok b => simp [Except.map, (inSet_ok.1 h).1]

/-- What sanitizing does with an object of the schema. -/
theorem sanitize_obj (hschema : hasSchema value)
    (htimestamp : safeTimestamp unicode (get value (lit "timestamp")) = some timestamp) :
    sanitizeConnectionEvent unicode (.obj value) =
      (inSet (get value (lit "event")) eventNames).bind fun known =>
        if known then
          (safeChoice (get value (lit "outcome")) outcomes).bind fun outcome =>
          (safeChoice (get value (lit "reason")) reasons).bind fun reason =>
          (safeChoice (get value (lit "exception_category")) exceptionCategories).bind fun category =>
          .ok (some (cleaned value timestamp (get value (lit "event")) outcome reason category))
        else .ok none := by
  simp only [sanitizeConnectionEvent, hschema, not_true, if_false, htimestamp]
  cases inSet (get value (lit "event")) eventNames with
  | error fault => rfl
  | ok known => cases known <;> rfl

/-- **Sanitizing raises exactly on an unhashable word.** -/
theorem sanitize_error_iff {fault : TypeError} :
    sanitizeConnectionEvent unicode v = .error fault ↔ Unhashable unicode v := by
  constructor
  · intro h
    cases v with
    | obj value =>
      by_cases hschema : hasSchema value
      · cases htimestamp : safeTimestamp unicode (get value (lit "timestamp")) with
        | none => simp [sanitizeConnectionEvent, hschema, htimestamp] at h
        | some timestamp =>
          refine ⟨value, rfl, hschema, by rw [htimestamp]; rfl, ?_⟩
          rw [sanitize_obj hschema htimestamp] at h
          rcases bind_error_iff.1 h with hevent | ⟨known, hknown, h⟩
          · exact .inl (inSet_error.1 hevent)
          · cases known with
            | false => cases h
            | true =>
              refine .inr ⟨inSet_true.1 hknown, ?_⟩
              rw [if_pos rfl] at h
              rcases bind_error_iff.1 h with houtcome | ⟨outcome, -, h⟩
              · exact ⟨_, by simp, safeChoice_error.1 houtcome⟩
              · rcases bind_error_iff.1 h with hreason | ⟨reason, -, h⟩
                · exact ⟨_, by simp, safeChoice_error.1 hreason⟩
                · rcases bind_error_iff.1 h with hcategory | ⟨category, -, h⟩
                  · exact ⟨_, by simp, safeChoice_error.1 hcategory⟩
                  · cases h
      · simp [sanitizeConnectionEvent, hschema] at h
    | _ => cases h
  · rintro ⟨value, rfl, hschema, htimestamp, h⟩
    obtain ⟨timestamp, htimestamp⟩ := Option.isSome_iff_exists.1 htimestamp
    rw [sanitize_obj hschema htimestamp]
    have hraise : ∀ {key : Str} {allowed : List Str}, (get value key).hashable = false →
        safeChoice (get value key) allowed = .error fault := fun h => safeChoice_error.2 h
    rcases h with hevent | ⟨hevent, key, hkey, h⟩
    · exact bind_error_iff.2 (.inl (inSet_error.2 hevent))
    · refine bind_error_iff.2 (.inr ⟨true, inSet_true.2 hevent, ?_⟩)
      rw [if_pos rfl]
      simp only [List.mem_cons, List.not_mem_nil, or_false] at hkey
      -- a choice before the unhashable one may raise first, and raises the same
      cases houtcome : safeChoice (get value (lit "outcome")) outcomes with
      | error fault' => cases fault; cases fault'; rfl
      | ok outcome =>
        cases hreason : safeChoice (get value (lit "reason")) reasons with
        | error fault' => cases fault; cases fault'; rfl
        | ok reason =>
          cases hcategory : safeChoice (get value (lit "exception_category")) exceptionCategories with
          | error fault' => cases fault; cases fault'; rfl
          | ok category =>
            rcases hkey with rfl | rfl | rfl
            · rw [hraise h] at houtcome; cases houtcome
            · rw [hraise h] at hreason; cases hreason
            · rw [hraise h] at hcategory; cases hcategory

/-! ## Returning -/

/-- The fields of an event that is returned. -/
theorem sanitize_some (h : sanitizeConnectionEvent unicode v = .ok (some e)) :
    ∃ value timestamp outcome reason category, v = .obj value ∧ hasSchema value ∧
      safeTimestamp unicode (get value (lit "timestamp")) = some timestamp ∧
      (∃ s ∈ eventNames, get value (lit "event") = .str s) ∧
      safeChoice (get value (lit "outcome")) outcomes = .ok outcome ∧
      safeChoice (get value (lit "reason")) reasons = .ok reason ∧
      safeChoice (get value (lit "exception_category")) exceptionCategories = .ok category ∧
      e = cleaned value timestamp (get value (lit "event")) outcome reason category := by
  cases v with
  | obj value =>
    by_cases hschema : hasSchema value
    · cases htimestamp : safeTimestamp unicode (get value (lit "timestamp")) with
      | none => simp [sanitizeConnectionEvent, hschema, htimestamp] at h
      | some timestamp =>
        rw [sanitize_obj hschema htimestamp] at h
        obtain ⟨known, hknown, h⟩ := bind_ok_iff.1 h
        cases known with
        | false => cases h
        | true =>
          rw [if_pos rfl] at h
          obtain ⟨outcome, houtcome, h⟩ := bind_ok_iff.1 h
          obtain ⟨reason, hreason, h⟩ := bind_ok_iff.1 h
          obtain ⟨category, hcategory, h⟩ := bind_ok_iff.1 h
          cases h
          exact ⟨value, timestamp, outcome, reason, category, rfl, hschema, htimestamp,
            inSet_true.1 hknown, houtcome, hreason, hcategory, rfl⟩
    · simp [sanitizeConnectionEvent, hschema] at h
  | _ => cases h

/-! ## The closed schema -/

/-- A word of a vocabulary. -/
def IsWord (words : List Str) (v : Json) : Prop := ∃ s ∈ words, v = .str s

/-- An integer within a bound. -/
def IsBounded (maximum : ℤ) (v : Json) : Prop := ∃ n, v = .int n ∧ 0 ≤ n ∧ n ≤ maximum

/-- An ephemeral id. -/
def IsIdentifier (v : Json) : Prop := ∃ s, v = .str s ∧ isId s

/-- `YYYY-MM-DDTHH:MM:SS.fffZ`, of a date. -/
def IsTimestamp (unicode : UnicodeVersion) (v : Json) : Prop :=
  ∃ s, v = .str s ∧ hasForm unicode s ∧ ∃ date, Reads unicode s date

def OrNull (P : Json → Prop) (v : Json) : Prop := v = .null ∨ P v

/-- What each field of an event may hold. -/
def eventSchema (unicode : UnicodeVersion) : List (Str × (Json → Prop)) :=
  [(lit "schema_version", (· = .int schemaVersion)), (lit "timestamp", IsTimestamp unicode),
    (lit "event", IsWord eventNames), (lit "attempt_id", OrNull IsIdentifier),
    (lit "connection_id", OrNull IsIdentifier), (lit "generation", OrNull (IsBounded maxGeneration)),
    (lit "outcome", OrNull (IsWord outcomes)), (lit "reason", OrNull (IsWord reasons)),
    (lit "exception_category", OrNull (IsWord exceptionCategories)),
    (lit "backoff_ms", OrNull (IsBounded maxEventAgeMs)),
    (lit "attempt_number", OrNull (IsBounded maxAttemptNumber)),
    (lit "connection_age_ms", OrNull (IsBounded maxEventAgeMs)),
    (lit "last_send_age_ms", OrNull (IsBounded maxEventAgeMs)),
    (lit "last_receive_age_ms", OrNull (IsBounded maxEventAgeMs)),
    (lit "close_code", OrNull (IsBounded maxCloseCode))]

/-- An event has the fields of the schema, each with a value that it may hold. -/
def Closed (unicode : UnicodeVersion) (e : Event) : Prop :=
  List.Forall₂ (fun member field => member.1 = field.1 ∧ field.2 member.2) e (eventSchema unicode)

theorem boundedInt_spec (v : Json) (maximum : ℤ) : OrNull (IsBounded maximum) (boundedInt v maximum) := by
  unfold boundedInt
  split
  · split
    · rename_i n h
      exact .inr ⟨n, rfl, h⟩
    · exact .inl rfl
  · exact .inl rfl

theorem safeId_spec (v : Json) : OrNull IsIdentifier (safeId v) := by
  unfold safeId
  split
  · split
    · rename_i s h
      exact .inr ⟨s, rfl, h⟩
    · exact .inl rfl
  · exact .inl rfl

theorem safeTimestamp_spec (h : safeTimestamp unicode v = some timestamp) :
    v = .str timestamp ∧ hasForm unicode timestamp ∧ ∃ date, Reads unicode timestamp date := by
  unfold safeTimestamp at h
  split at h
  · split at h
    · rename_i hform
      cases h
      obtain ⟨date, hdate⟩ := Option.isSome_iff_exists.1 hform.2
      exact ⟨rfl, hform.1, date, strptime_reads hdate⟩
    · cases h
  · cases h

theorem safeChoice_spec {choice : Json} (hunknown : lit "unknown" ∈ words)
    (h : safeChoice v words = .ok choice) : OrNull (IsWord words) choice := by
  unfold safeChoice at h
  split at h
  · cases h
    exact .inl rfl
  · cases hknown : inSet v words with
    | error fault => rw [hknown] at h; cases h
    | ok known =>
      rw [hknown] at h
      cases known with
      | true =>
        cases h
        exact .inr (inSet_true.1 hknown)
      | false =>
        cases h
        exact .inr ⟨_, hunknown, rfl⟩

/-- **What is returned is closed.** -/
theorem sanitize_closed (h : sanitizeConnectionEvent unicode v = .ok (some e)) : Closed unicode e := by
  obtain ⟨value, timestamp, outcome, reason, category, rfl, -, htimestamp, hevent, houtcome, hreason,
    hcategory, rfl⟩ := sanitize_some h
  refine .cons ⟨rfl, rfl⟩ <| .cons ⟨rfl, timestamp, rfl, (safeTimestamp_spec htimestamp).2⟩ <|
    .cons ⟨rfl, hevent⟩ <| .cons ⟨rfl, safeId_spec _⟩ <| .cons ⟨rfl, safeId_spec _⟩ <|
    .cons ⟨rfl, boundedInt_spec _ _⟩ <| .cons ⟨rfl, safeChoice_spec (by simp [outcomes]) houtcome⟩ <|
    .cons ⟨rfl, safeChoice_spec (by simp [reasons]) hreason⟩ <|
    .cons ⟨rfl, safeChoice_spec (by simp [exceptionCategories]) hcategory⟩ <|
    .cons ⟨rfl, boundedInt_spec _ _⟩ <| .cons ⟨rfl, boundedInt_spec _ _⟩ <|
    .cons ⟨rfl, boundedInt_spec _ _⟩ <| .cons ⟨rfl, boundedInt_spec _ _⟩ <|
    .cons ⟨rfl, boundedInt_spec _ _⟩ <| .cons ⟨rfl, boundedInt_spec _ _⟩ .nil

/-! ## Sanitizing again -/

theorem boundedInt_again (v : Json) (maximum : ℤ) :
    boundedInt (boundedInt v maximum) maximum = boundedInt v maximum := by
  rcases boundedInt_spec v maximum with h | ⟨n, h, hn⟩
  · rw [h]
    rfl
  · rw [h, boundedInt, if_pos hn]

theorem safeId_again (v : Json) : safeId (safeId v) = safeId v := by
  rcases safeId_spec v with h | ⟨s, h, hs⟩
  · rw [h]
    rfl
  · rw [h, safeId, if_pos hs]

theorem safeTimestamp_again (h : safeTimestamp unicode v = some timestamp) :
    safeTimestamp unicode (.str timestamp) = some timestamp := by
  obtain ⟨rfl, -⟩ := safeTimestamp_spec h
  exact h

theorem safeChoice_again {choice : Json} (hunknown : lit "unknown" ∈ words)
    (h : safeChoice v words = .ok choice) : safeChoice choice words = .ok choice := by
  rcases safeChoice_spec hunknown h with rfl | ⟨s, hs, rfl⟩
  · rfl
  · have hknown : inSet (.str s) words = .ok true := inSet_true.2 ⟨s, hs, rfl⟩
    rw [safeChoice, if_neg (by simp), hknown]
    rfl

theorem eventKeys_nodup : eventKeys.Nodup := by decide

section

variable {name outcome reason category : Json}

theorem keys_cleaned : (cleaned value timestamp name outcome reason category).map (·.1) = eventKeys := rfl

/-- A field of the event is the one at its place. -/
theorem get_cleaned {k : Str} {w : Json} (i : ℕ)
    (h : (cleaned value timestamp name outcome reason category)[i]? = some (k, w)) :
    get (cleaned value timestamp name outcome reason category) k = w := by
  have hkeyed : ((cleaned value timestamp name outcome reason category).map (·.1)).Nodup := by
    rw [keys_cleaned]
    exact eventKeys_nodup
  have hlookup : Json.lookup (cleaned value timestamp name outcome reason category) k = some w :=
    Dict.Keyed.get_of_mem hkeyed (List.mem_of_getElem? h)
  rw [get, hlookup]
  rfl

theorem hasSchema_cleaned : hasSchema (cleaned value timestamp name outcome reason category) := by
  have hkeys : ∀ member ∈ cleaned value timestamp name outcome reason category, member.1 ∈ eventKeys := by
    intro member hmember
    rw [← @keys_cleaned value timestamp name outcome reason category]
    exact List.mem_map_of_mem hmember
  have hversion := @get_cleaned value timestamp name outcome reason category _ _ 0 rfl
  simp only [hasSchema, hversion, List.all_eq_true, decide_eq_true_eq]
  exact ⟨hkeys, Json.same_refl _⟩

end

/-- **Sanitizing what was sanitized changes nothing.** -/
theorem sanitize_again (h : sanitizeConnectionEvent unicode v = .ok (some e)) :
    sanitizeConnectionEvent unicode (.obj e) = .ok (some e) := by
  obtain ⟨value, timestamp, outcome, reason, category, rfl, -, htimestamp, hevent, houtcome, hreason,
    hcategory, rfl⟩ := sanitize_some h
  have hagain : safeTimestamp unicode (get (cleaned value timestamp (get value (lit "event")) outcome reason category)
      (lit "timestamp")) = some timestamp := by
    rw [get_cleaned 1 rfl]
    exact safeTimestamp_again htimestamp
  rw [sanitize_obj hasSchema_cleaned hagain, get_cleaned 2 rfl, get_cleaned 6 rfl, get_cleaned 7 rfl,
    get_cleaned 8 rfl, inSet_true.2 hevent, safeChoice_again (by simp [outcomes]) houtcome,
    safeChoice_again (by simp [reasons]) hreason,
    safeChoice_again (by simp [exceptionCategories]) hcategory]
  show Except.ok (some (cleaned _ _ _ _ _ _)) = _
  congr 2
  rw [cleaned, get_cleaned 3 rfl, get_cleaned 4 rfl, get_cleaned 5 rfl, get_cleaned 9 rfl,
    get_cleaned 10 rfl, get_cleaned 11 rfl, get_cleaned 12 rfl, get_cleaned 13 rfl, get_cleaned 14 rfl]
  simp only [safeId_again, boundedInt_again, cleaned]

end Journal

end MercuryRelay
