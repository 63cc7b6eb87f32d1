/-
  Reading the journal files back at the start (connection_journal.py,
  `_load_persisted`), where what raises turns the storage off.

  * `loadPersisted_iff`: the storage stays on, and the events are those of the lines
    that have a sanitized form, exactly when no line raises;
  * `sanitize_load`: sanitizing and loading, for every value and every content.
-/
import MercuryRelay.Journal.Rotation
import MercuryRelay.Python.JsonLoads

set_option autoImplicit false

namespace MercuryRelay

open Python

namespace Journal

/-! ## Lines -/

/-- The lines of `bs.splitlines()`, of which one is being read. -/
def splitlinesFrom (line : Bytes) : Bytes → List Bytes
  | [] => if line = [] then [] else [line]
  | 13 :: 10 :: bs => line :: splitlinesFrom [] bs
  | b :: bs =>
    if b = 10 ∨ b = 13 then line :: splitlinesFrom [] bs else splitlinesFrom (line ++ [b]) bs

/-- `bs.splitlines()`. -/
def splitlines (bs : Bytes) : List Bytes := splitlinesFrom [] bs

/-- `bs.decode("ascii")`; `none` is the `UnicodeDecodeError`. -/
def decodeAscii (bs : Bytes) : Option Str :=
  if bs.all (· < 128) then some (bs.map UInt8.toNat) else none

/-- `json.loads` of a text. -/
def loadsText (depths : JsonDepths) (text : Str) : Except LoadsFault Json :=
  match scanValue (2 * text.length + 2) depths.read (skipWs text) with
  | .error fault => .error fault
  | .ok (v, s) => if skipWs s = [] then .ok v else .error .value

/-! ## Loading -/

/-- What a line raises in `_load_persisted`. -/
inductive LineFault where
  | recursion
  | typeError
  deriving DecidableEq

/-- What a line of a journal file does: it is skipped, it is an event, or it raises. -/
def readLine (unicode : UnicodeVersion) (depths : JsonDepths) (line : Bytes) : Except LineFault (Option Event) :=
  if line.length > maxEventBytes then .ok none
  else
    match decodeAscii line with
    | none => .ok none
    | some text =>
      match loadsText depths text with
      | .error .value => .ok none
      | .error .recursion => .error .recursion
      | .ok candidate =>
        match sanitizeConnectionEvent unicode candidate with
        | .error .unhashable => .error .typeError
        | .ok event => .ok event

/-- `append` of a `deque(maxlen=limit)`. -/
def remember (limit : ℕ) (events : List Event) (event : Event) : List Event :=
  (events ++ [event]).drop (events.length + 1 - limit)

/-- What `__init__` makes of the journal files. -/
structure Loaded where
  events : List Event
  storageReady : Bool

/-- Lines are read one after another; the first one that raises ends it. -/
def loadLines (unicode : UnicodeVersion) (depths : JsonDepths) (limit : ℕ) : List Event → List Bytes → Loaded
  | events, [] => ⟨events, true⟩
  | events, line :: lines =>
    match readLine unicode depths line with
    | .error _ => ⟨events, false⟩
    | .ok none => loadLines unicode depths limit events lines
    | .ok (some event) => loadLines unicode depths limit (remember limit events event) lines

/-- `_read_bounded` of a journal file, `none` where it raises: there is no such file, it is
    not one of the owner's, or it is too long. -/
def readBounded (maxBytes : ℕ) (content : Option Bytes) : Option Bytes :=
  content.filter fun bs => bs.length ≤ maxBytes

/-- The lines that `_load_persisted` goes through. -/
def persistedLines (maxBytes maxFiles : ℕ) (contents : ℕ → Option Bytes) : List Bytes :=
  (persistedPaths maxFiles).flatMap fun index =>
    ((readBounded maxBytes (contents index)).map splitlines).getD []

/-- `_load_persisted`, under the `except` of `__init__`. -/
def loadPersisted (unicode : UnicodeVersion) (depths : JsonDepths) (maxBytes maxFiles limit : ℕ)
    (contents : ℕ → Option Bytes) : Loaded :=
  loadLines unicode depths limit [] (persistedLines maxBytes maxFiles contents)

/-- The sanitized form of a line, if it has one. -/
def sanitizedForm (unicode : UnicodeVersion) (depths : JsonDepths) (line : Bytes) : Option Event :=
  if line.length > maxEventBytes then none
  else
    (decodeAscii line).bind fun text => (loadsText depths text).toOption.bind fun candidate =>
      (sanitizeConnectionEvent unicode candidate).toOption.join

/-- A line that is deeper than the reader goes, or an event whose word has no hash. -/
def Raises (unicode : UnicodeVersion) (depths : JsonDepths) (line : Bytes) : Prop :=
  line.length ≤ maxEventBytes ∧ ∃ text, decodeAscii line = some text ∧
    (loadsText depths text = .error .recursion ∨ ∃ candidate, loadsText depths text = .ok candidate ∧
      Unhashable unicode candidate)

/-- The last of some events. -/
def latest (limit : ℕ) (events : List Event) : List Event := events.drop (events.length - limit)

variable {unicode : UnicodeVersion} {depths : JsonDepths} {line : Bytes} {lines : List Bytes} {limit : ℕ}
  {events : List Event}

theorem readLine_of_raises (h : Raises unicode depths line) : ∃ fault, readLine unicode depths line = .error fault := by
  obtain ⟨hlength, text, htext, hraises⟩ := h
  unfold readLine
  rw [if_neg (by omega), htext]
  rcases hraises with hdeep | ⟨candidate, hcandidate, hunhashable⟩
  · exact ⟨.recursion, by simp only [hdeep]⟩
  · have herror : sanitizeConnectionEvent unicode candidate = .error .unhashable := sanitize_error_iff.2 hunhashable
    exact ⟨.typeError, by simp only [hcandidate, herror]⟩

theorem readLine_of_not_raises (h : ¬ Raises unicode depths line) :
    readLine unicode depths line = .ok (sanitizedForm unicode depths line) := by
  unfold readLine sanitizedForm
  split
  · rfl
  · rename_i hlength
    cases htext : decodeAscii line with
    | none => rfl
    | some text =>
      cases hloads : loadsText depths text with
      | error fault =>
        cases fault with
        | value => simp [hloads, Except.toOption]
        | recursion => exact absurd ⟨by omega, text, htext, .inl hloads⟩ h
      | ok candidate =>
        cases hsanitize : sanitizeConnectionEvent unicode candidate with
        | error fault =>
          exact absurd ⟨by omega, text, htext, .inr ⟨candidate, hloads, sanitize_error_iff.1 hsanitize⟩⟩ h
        | ok event => simp [hloads, hsanitize, Except.toOption]

theorem remember_latest (limit : ℕ) (events : List Event) (event : Event) :
    remember limit (latest limit events) event = latest limit (events ++ [event]) := by
  unfold remember latest
  rcases Nat.lt_or_ge events.length limit with hlt | hge
  · have hkeep : (events ++ [event]).length - limit = 0 := by
      rw [List.length_append, List.length_singleton]
      omega
    rw [hkeep, show events.length - limit = 0 by omega, List.drop_zero, List.drop_zero,
      show events.length + 1 - limit = 0 by omega, List.drop_zero]
  · have hnew : (events ++ [event]).length - limit = events.length - limit + 1 := by
      rw [List.length_append, List.length_singleton]
      omega
    have hold : (events.drop (events.length - limit)).length + 1 - limit = 1 := by
      rw [List.length_drop]
      omega
    have happend : events.drop (events.length - limit) ++ [event] =
        (events ++ [event]).drop (events.length - limit) := by
      rw [List.drop_append_of_le_length (Nat.sub_le _ _)]
    rw [hold, hnew, happend, List.drop_drop]

/-- Lines that do not raise are read to the end. -/
theorem loadLines_of_not_raises (h : ∀ line ∈ lines, ¬ Raises unicode depths line) :
    loadLines unicode depths limit (latest limit events) lines =
      ⟨latest limit (events ++ lines.filterMap (sanitizedForm unicode depths)), true⟩ := by
  induction lines generalizing events with
  | nil => rw [loadLines, List.filterMap_nil, List.append_nil]
  | cons line lines ih =>
    have hline := readLine_of_not_raises (h line List.mem_cons_self)
    have hlines := fun l hl => h l (List.mem_cons_of_mem _ hl)
    rw [loadLines, hline]
    cases hform : sanitizedForm unicode depths line with
    | none =>
      rw [List.filterMap_cons_none hform]
      exact ih hlines
    | some event =>
      rw [List.filterMap_cons_some hform, List.append_cons]
      show loadLines unicode depths limit (remember limit (latest limit events) event) lines = _
      rw [remember_latest]
      exact ih hlines

/-- A line that raises turns the storage off. -/
theorem loadLines_of_raises (hmem : line ∈ lines) (h : Raises unicode depths line) :
    (loadLines unicode depths limit events lines).storageReady = false := by
  induction lines generalizing events with
  | nil => cases hmem
  | cons first lines ih =>
    unfold loadLines
    rcases List.mem_cons.1 hmem with rfl | hrest
    · obtain ⟨fault, hfault⟩ := readLine_of_raises h
      rw [hfault]
    · split
      · rfl
      · exact ih hrest
      · exact ih hrest

/-- **The storage stays on, with the events of the lines that have a form, exactly when no
    line raises.** -/
theorem loadPersisted_iff {maxBytes maxFiles : ℕ} {contents : ℕ → Option Bytes} :
    ((loadPersisted unicode depths maxBytes maxFiles limit contents).storageReady = true ∧
      (loadPersisted unicode depths maxBytes maxFiles limit contents).events =
        latest limit ((persistedLines maxBytes maxFiles contents).filterMap (sanitizedForm unicode depths))) ↔
    ∀ line ∈ persistedLines maxBytes maxFiles contents, ¬ Raises unicode depths line := by
  constructor
  · rintro ⟨hready, -⟩ line hline hraises
    rw [loadPersisted, loadLines_of_raises hline hraises] at hready
    cases hready
  · intro h
    have hall := @loadLines_of_not_raises unicode depths _ limit [] h
    rw [show latest limit [] = [] from List.drop_nil] at hall
    rw [loadPersisted, hall]
    exact ⟨rfl, rfl⟩

/-- **Sanitizing returns unless a word has no hash; what it returns is closed and is
    returned again; and loading stops at nothing but a line that raises.** -/
theorem sanitize_load (unicode : UnicodeVersion) (v : Json) (depths : JsonDepths) (maxBytes maxFiles limit : ℕ)
    (contents : ℕ → Option Bytes) :
    ((∃ event, sanitizeConnectionEvent unicode v = .ok event) ↔ ¬ Unhashable unicode v) ∧
    (∀ e, sanitizeConnectionEvent unicode v = .ok (some e) →
      Closed unicode e ∧ sanitizeConnectionEvent unicode (.obj e) = .ok (some e)) ∧
    (((loadPersisted unicode depths maxBytes maxFiles limit contents).storageReady = true ∧
        (loadPersisted unicode depths maxBytes maxFiles limit contents).events =
          latest limit ((persistedLines maxBytes maxFiles contents).filterMap (sanitizedForm unicode depths))) ↔
      ∀ line ∈ persistedLines maxBytes maxFiles contents, ¬ Raises unicode depths line) := by
  refine ⟨?_, fun e h => ⟨sanitize_closed h, sanitize_again h⟩, loadPersisted_iff⟩
  constructor
  · rintro ⟨event, hevent⟩ hunhashable
    have herror : sanitizeConnectionEvent unicode v = .error .unhashable := sanitize_error_iff.2 hunhashable
    rw [herror] at hevent
    cases hevent
  · intro h
    cases hresult : sanitizeConnectionEvent unicode v with
    | error fault => exact absurd (sanitize_error_iff.1 hresult) h
    | ok event => exact ⟨event, rfl⟩

section Runs

/-- A journal with one line, the current file's. -/
def oneLine (line : Bytes) : ℕ → Option Bytes := fun index => if index = 0 then some line else none

theorem sanitize_load_open :
    (loadPersisted .unicode15 ⟨900, 900⟩ 65536 2 64 (oneLine openLine)).storageReady = true ∧
      (loadPersisted .unicode15 ⟨900, 900⟩ 65536 2 64 (oneLine openLine)).events =
        latest 64 ((persistedLines 65536 2 (oneLine openLine)).filterMap (sanitizedForm .unicode15 ⟨900, 900⟩)) := by
  refine (sanitize_load .unicode15 (.obj openEvent) ⟨900, 900⟩ 65536 2 64 (oneLine openLine)).2.2.2 fun line hline => ?_
  intro hraises
  obtain ⟨fault, hfault⟩ := readLine_of_raises hraises
  have hread : persistedLines 65536 2 (oneLine openLine) = [openLine.dropLast] ∧
      readLine .unicode15 ⟨900, 900⟩ openLine.dropLast = .ok (some openEvent) := by decide +kernel
  rw [hread.1, List.mem_singleton] at hline
  rw [hline, hread.2] at hfault
  cases hfault

/-- A line whose event is a list. -/
def listEvent : Json :=
  .obj [(lit "schema_version", .int 1), (lit "timestamp", .str (lit "2026-01-01T00:00:00.000Z")),
    (lit "event", .arr [])]

def listLine : Bytes := (write journalStyle listEvent).map UInt8.ofNat ++ [10]

/-- A list for the event raises, and one such line turns the storage off. -/
theorem sanitize_raises_list :
    (¬ ∃ event, sanitizeConnectionEvent .unicode15 listEvent = .ok event) ∧
      (loadPersisted .unicode15 ⟨900, 900⟩ 65536 2 64 (oneLine listLine)).storageReady = false := by
  constructor
  · rintro ⟨event, hevent⟩
    have herror : sanitizeConnectionEvent .unicode15 listEvent = .error .unhashable := by decide +kernel
    rw [herror] at hevent
    cases hevent
  · decide +kernel

end Runs

end Journal

end MercuryRelay
