/-
  Both directions of the virtual websocket, and the readers that wait on them
  (virtual_ws.py).

  An operation runs to its end at once, except that a reader of an empty queue waits
  until something is in it.  A lane is a queue with its count of octets.

  * `Holds.perform`: while it is open, what was read and what is queued is what was accepted;
  * `closed_run`: nothing is accepted or returned after it was closed;
  * `duplex_lossless`: all of it, for every run.
-/
import MercuryRelay.VirtualWebSocket
import MercuryRelay.Lib.Run
import Mathlib.Tactic.Common

set_option autoImplicit false

namespace MercuryRelay

open Python Transition

namespace Duplex

/-! ## The socket -/

inductive Direction where
  | inbound
  | outbound
  deriving DecidableEq

/-- One direction: the queue, its octets, and whether its reader waits. -/
structure Lane where
  queue : List QueueItem := []
  bytes : ℤ := 0
  waiting : Bool := false

/-- Why an operation raised; `ε` is what the validator raises. -/
inductive SocketFault (ε : Type) where
  | closed | frameTooLarge | backpressure
  | unencodable
  | validator (fault : ε)

/-- How an operation ends, or that it waits. -/
inductive Outcome (ε : Type) where
  | queued (direction : Direction) (text : Str)
  | frame (direction : Direction) (text : Str)
  /-- `WebSocketDisconnect` -/
  | disconnected (code : ℕ) (reason : String)
  | raised (fault : SocketFault ε)
  | waits
  | done

structure Socket (ε : Type) where
  maxQueueItems : ℕ
  maxFrameBytes : ℕ
  maxQueueBytes : ℕ
  limits : 0 < maxQueueItems ∧ 0 < maxFrameBytes ∧ 0 < maxQueueBytes
  inboundValidator : Option (Str → Except ε Str) := none
  closed : Bool := false
  closeCode : ℕ := 0
  closeReason : String := ""
  inbound : Lane := {}
  outbound : Lane := {}

variable {ε : Type}

/-- The octets of a text that encodes. -/
def frameSize (text : Str) : ℕ := ((utf8 text).getD []).length

/-- What stays of a lane that is drained for the close signal. -/
def Lane.signal (lane : Lane) (code : ℕ) (reason : String) : Lane :=
  { lane with queue := [.close code reason], bytes := 0 }

/-- `put_nowait` of a text within the limits; `none` if there is no room. -/
def Lane.put (lane : Lane) (maxItems maxBytes : ℕ) (text : Str) (size : ℕ) : Option Lane :=
  if (maxBytes : ℤ) < lane.bytes + size then none
  else if maxItems ≤ lane.queue.length then none
  else some { lane with queue := lane.queue ++ [.text text], bytes := lane.bytes + size }

/-- `await queue.get()`, as far as it gets; the item that was taken. -/
def Lane.take (lane : Lane) : Option QueueItem × Lane :=
  match lane.queue with
  | [] => (none, { lane with waiting := true })
  | .text s :: rest =>
    (some (.text s), { queue := rest, bytes := lane.bytes - frameSize s, waiting := false })
  | .close code reason :: rest => (some (.close code reason), { lane with queue := rest, waiting := false })

namespace Socket

def lane (ws : Socket ε) : Direction → Lane
  | .inbound => ws.inbound
  | .outbound => ws.outbound

def setLane (ws : Socket ε) (direction : Direction) (lane : Lane) : Socket ε :=
  match direction with
  | .inbound => { ws with inbound := lane }
  | .outbound => { ws with outbound := lane }

/-- `_signal_close`. -/
def signalClose (ws : Socket ε) (code : ℕ) (reason : String) : Socket ε :=
  { ws with inbound := ws.inbound.signal code reason, outbound := ws.outbound.signal code reason }

/-- `_close_now`; the first code and reason stay. -/
def closeNow (ws : Socket ε) (code : ℕ) (reason : String) : Socket ε :=
  let ws := if ws.closed then ws else { ws with closed := true, closeCode := code, closeReason := reason }
  ws.signalClose (if ws.closeCode = 0 then code else ws.closeCode)
    (if ws.closeReason = "" then reason else ws.closeReason)

/-- `_validate_text`. -/
def validateText (ws : Socket ε) (text : Str) : Except (SocketFault ε) ℕ :=
  match utf8 text with
  | none => .error .unencodable
  | some bytes => if bytes.length > ws.maxFrameBytes then .error .frameTooLarge else .ok bytes.length

/-- The text to queue and its size, after the validator and both checks. -/
def validated (ws : Socket ε) (text : Str) : Except (SocketFault ε) (Str × ℕ) :=
  match ws.validateText text with
  | .error fault => .error fault
  | .ok size =>
    match ws.inboundValidator with
    | none => .ok (text, size)
    | some validator =>
      match validator text with
      | .error fault => .error (.validator fault)
      | .ok text => (ws.validateText text).map fun size => (text, size)

/-- Queue a text, or close. -/
def enqueue (ws : Socket ε) (direction : Direction) (text : Str) (size : ℕ) (reason : String) :
    Socket ε × Outcome ε :=
  match (ws.lane direction).put ws.maxQueueItems ws.maxQueueBytes text size with
  | some lane => (ws.setLane direction lane, .queued direction text)
  | none => (ws.closeNow 1013 reason, .raised .backpressure)

/-- `feed_text`. -/
def feedText (ws : Socket ε) (text : Str) : Socket ε × Outcome ε :=
  if ws.closed then (ws, .raised .closed)
  else
    match ws.validated text with
    | .error fault => (ws, .raised fault)
    | .ok (text, size) => ws.enqueue .inbound text size "inbound_backpressure"

/-- `send_text`. -/
def sendText (ws : Socket ε) (text : Str) : Socket ε × Outcome ε :=
  if ws.closed then (ws, .raised .closed)
  else
    match ws.validateText text with
    | .error fault => (ws, .raised fault)
    | .ok size => ws.enqueue .outbound text size "outbound_backpressure"

/-- The `get` of `receive_text`, from its start or where it waited. -/
def takeInbound (ws : Socket ε) : Socket ε × Outcome ε :=
  (ws.setLane .inbound ws.inbound.take.2,
    match ws.inbound.take.1 with
    | none => .waits
    | some (.text s) => .frame .inbound s
    | some (.close code reason) => .disconnected code reason)

/-- `receive_text`. -/
def receiveText (ws : Socket ε) : Socket ε × Outcome ε :=
  if ws.closed ∧ ws.inbound.queue = [] then
    (ws, .disconnected (if ws.closeCode = 0 then 1000 else ws.closeCode) ws.closeReason)
  else ws.takeInbound

/-- `next_text`, from its start or where it waited. -/
def nextText (ws : Socket ε) : Socket ε × Outcome ε :=
  (ws.setLane .outbound ws.outbound.take.2,
    match ws.outbound.take.1 with
    | none => .waits
    | some (.text s) => .frame .outbound s
    | some (.close _ _) => .raised .closed)

/-- `close`. -/
def close (ws : Socket ε) (code : ℕ) (reason : String) : Socket ε × Outcome ε := (ws.closeNow code reason, .done)

end Socket

/-! ## Runs -/

inductive Event where
  | feedText (text : Str)
  | sendText (text : Str)
  | receiveText
  | nextText
  /-- a reader that waited goes on -/
  | wake (direction : Direction)
  | close (code : ℕ) (reason : String)

/-- There is one reader of a direction, and it goes on when something is queued. -/
def Enabled (ws : Socket ε) : Event → Prop
  | .receiveText => ws.inbound.waiting = false
  | .nextText => ws.outbound.waiting = false
  | .wake direction => (ws.lane direction).waiting = true ∧ (ws.lane direction).queue ≠ []
  | _ => True

instance (ws : Socket ε) (event : Event) : Decidable (Enabled ws event) := by
  cases event <;> unfold Enabled <;> infer_instance

def perform (ws : Socket ε) : Event → Socket ε × Outcome ε
  | .feedText text => ws.feedText text
  | .sendText text => ws.sendText text
  | .receiveText => ws.receiveText
  | .nextText => ws.nextText
  | .wake .inbound => ws.takeInbound
  | .wake .outbound => ws.nextText
  | .close code reason => ws.close code reason

abbrev Trace (ε : Type) := List (Event × Outcome ε)

/-- The texts that were accepted in a direction. -/
def accepted (direction : Direction) (trace : Trace ε) : List Str :=
  trace.filterMap fun step =>
    match step.2 with
    | .queued direction' text => if direction' = direction then some text else none
    | _ => none

/-- The texts that were returned in a direction. -/
def returned (direction : Direction) (trace : Trace ε) : List Str :=
  trace.filterMap fun step =>
    match step.2 with
    | .frame direction' text => if direction' = direction then some text else none
    | _ => none

/-- An operation that is possible, with how it ends. -/
def Step (ws : Socket ε) (step : Event × Outcome ε) (ws' : Socket ε) : Prop :=
  Enabled ws step.1 ∧ perform ws step.1 = (ws', step.2)

variable {ws ws' : Socket ε} {lane lane' : Lane} {direction direction' : Direction} {text text' : Str} {size : ℕ}
  {fault : SocketFault ε} {trace : Trace ε} {event : Event} {outcome : Outcome ε} {items bytes : ℕ}
  {entered left : List Str}

/-! ## Lanes -/

/-- The lane of an open socket: what entered it and did not leave is queued in its order,
    counted and within the limits. -/
def Lane.Holds (items bytes : ℕ) (lane : Lane) (entered left : List Str) : Prop :=
  ∃ texts : List Str, lane.queue = texts.map .text ∧ entered = left ++ texts ∧
    lane.bytes = ((texts.map frameSize).sum : ℕ) ∧ lane.bytes ≤ bytes ∧ texts.length ≤ items

/-- The lane of a closed socket: one close signal at most. -/
def Lane.Shut (lane : Lane) : Prop :=
  lane.queue.length ≤ 1 ∧ ∀ item ∈ lane.queue, ∃ code reason, item = .close code reason

theorem Lane.Holds.put (h : lane.Holds items bytes entered left)
    (hput : lane.put items bytes text (frameSize text) = some lane') :
    lane'.Holds items bytes (entered ++ [text]) left := by
  obtain ⟨texts, hqueue, rfl, hbytes, -, -⟩ := h
  unfold Lane.put at hput
  split at hput
  · cases hput
  · rename_i hroom
    split at hput
    · cases hput
    · rename_i hplace
      cases hput
      refine ⟨texts ++ [text], ?_, ?_, ?_, ?_, ?_⟩
      · rw [hqueue, List.map_append]
        rfl
      · rw [List.append_assoc]
      · rw [hbytes]
        simp
      · show lane.bytes + (frameSize text : ℤ) ≤ bytes
        omega
      · rw [hqueue, List.length_map] at hplace
        rw [List.length_append, List.length_singleton]
        omega

/-- Nothing is taken from a lane that holds nothing; else its first text is. -/
theorem Lane.Holds.take (h : lane.Holds items bytes entered left) :
    (lane.take.1 = none ∧ lane.take.2.Holds items bytes entered left) ∨
      ∃ text, lane.take.1 = some (.text text) ∧ lane.take.2.Holds items bytes entered (left ++ [text]) := by
  obtain ⟨texts, hqueue, rfl, hbytes, hle, hlen⟩ := h
  unfold Lane.take
  cases texts with
  | nil =>
    rw [hqueue]
    exact .inl ⟨rfl, [], rfl, rfl, hbytes, hle, hlen⟩
  | cons text texts =>
    rw [hqueue]
    refine .inr ⟨text, rfl, texts, rfl, by rw [List.append_assoc]; rfl, ?_, ?_, ?_⟩
    · show lane.bytes - (frameSize text : ℤ) = _
      rw [hbytes, List.map_cons, List.sum_cons]
      push_cast
      omega
    · show lane.bytes - (frameSize text : ℤ) ≤ bytes
      omega
    · rw [List.length_cons] at hlen
      omega

theorem Lane.shut_signal (lane : Lane) (code : ℕ) (reason : String) : (lane.signal code reason).Shut := by
  constructor
  · exact Nat.le_refl 1
  · intro item hitem
    exact ⟨code, reason, List.mem_singleton.1 hitem⟩

/-- No text is taken from a lane that is shut. -/
theorem Lane.Shut.take (h : lane.Shut) : lane.take.2.Shut ∧ ∀ text, lane.take.1 ≠ some (.text text) := by
  obtain ⟨hlen, hclose⟩ := h
  unfold Lane.take
  split
  · rename_i hqueue
    refine ⟨⟨by simp [hqueue], fun item hitem => ?_⟩, fun text => by simp⟩
    rw [hqueue] at hitem
    cases hitem
  · rename_i text rest hqueue
    obtain ⟨code, reason, hitem⟩ := hclose (.text text) (by rw [hqueue]; exact List.mem_cons_self)
    cases hitem
  · rename_i code reason rest hqueue
    refine ⟨⟨?_, fun item hitem => hclose item ?_⟩, fun text => by simp⟩
    · rw [hqueue, List.length_cons] at hlen
      exact Nat.le_of_succ_le hlen
    · rw [hqueue]
      exact List.mem_cons_of_mem _ hitem

/-! ## Sockets -/

namespace Socket

@[simp] theorem lane_setLane (ws : Socket ε) (direction direction' : Direction) (lane : Lane) :
    (ws.setLane direction lane).lane direction' = if direction' = direction then lane else ws.lane direction' := by
  cases direction <;> cases direction' <;> rfl

@[simp] theorem closed_setLane (ws : Socket ε) (direction : Direction) (lane : Lane) :
    (ws.setLane direction lane).closed = ws.closed := by
  cases direction <;> rfl

@[simp] theorem maxQueueItems_setLane (ws : Socket ε) (direction : Direction) (lane : Lane) :
    (ws.setLane direction lane).maxQueueItems = ws.maxQueueItems := by
  cases direction <;> rfl

@[simp] theorem maxQueueBytes_setLane (ws : Socket ε) (direction : Direction) (lane : Lane) :
    (ws.setLane direction lane).maxQueueBytes = ws.maxQueueBytes := by
  cases direction <;> rfl

/-- Closing leaves a signal in both lanes. -/
theorem closeNow_shut (ws : Socket ε) (code : ℕ) (reason : String) :
    (ws.closeNow code reason).closed = true ∧ ∀ direction, ((ws.closeNow code reason).lane direction).Shut := by
  constructor
  · unfold closeNow
    by_cases hclosed : ws.closed
    · simp [hclosed, signalClose]
    · simp [hclosed, signalClose]
  · intro direction
    cases direction
    · exact Lane.shut_signal _ _ _
    · exact Lane.shut_signal _ _ _

theorem validateText_ok (h : ws.validateText text = .ok size) :
    size = frameSize text ∧ frameSize text ≤ ws.maxFrameBytes := by
  unfold validateText at h
  split at h
  · cases h
  · rename_i octets hoctets
    split at h
    · cases h
    · cases h
      unfold frameSize
      rw [hoctets]
      exact ⟨rfl, by simpa using by omega⟩

theorem validated_ok (h : ws.validated text = .ok (text', size)) :
    size = frameSize text' ∧ frameSize text' ≤ ws.maxFrameBytes := by
  unfold validated at h
  split at h
  · cases h
  · rename_i size' hsize
    split at h
    · cases h
      exact validateText_ok hsize
    · split at h
      · cases h
      · rename_i changed _
        cases hchanged : ws.validateText changed with
        | error fault => simp [hchanged, Except.map] at h
        | ok size'' =>
          simp only [hchanged, Except.map, Except.ok.injEq, Prod.mk.injEq] at h
          obtain ⟨rfl, rfl⟩ := h
          exact validateText_ok hchanged

end Socket

/-! ## What holds in every state -/

theorem accepted_snoc : accepted direction (trace ++ [(event, outcome)]) = accepted direction trace ++
    match outcome with
    | .queued direction' text => if direction' = direction then [text] else []
    | _ => [] := by
  unfold accepted
  rw [List.filterMap_append]
  congr 1
  cases outcome with
  | queued direction' text => by_cases h : direction' = direction <;> simp [h]
  | _ => rfl

theorem returned_snoc : returned direction (trace ++ [(event, outcome)]) = returned direction trace ++
    match outcome with
    | .frame direction' text => if direction' = direction then [text] else []
    | _ => [] := by
  unfold returned
  rw [List.filterMap_append]
  congr 1
  cases outcome with
  | frame direction' text => by_cases h : direction' = direction <;> simp [h]
  | _ => rfl

/-- What holds of a socket after a trace. -/
structure Sound (trace : Trace ε) (ws : Socket ε) : Prop where
  holds : ws.closed = false → ∀ direction, (ws.lane direction).Holds ws.maxQueueItems ws.maxQueueBytes
    (accepted direction trace) (returned direction trace)
  shut : ws.closed = true → ∀ direction, (ws.lane direction).Shut

/-- An operation that neither accepts nor returns a text. -/
def Outcome.Silent : Outcome ε → Prop
  | .queued _ _ | .frame _ _ => False
  | _ => True

theorem Sound.silent (h : Sound trace ws) (houtcome : outcome.Silent) : Sound (trace ++ [(event, outcome)]) ws := by
  refine ⟨fun hopen direction => ?_, h.shut⟩
  rw [accepted_snoc, returned_snoc]
  cases outcome with
  | queued => exact absurd houtcome id
  | frame => exact absurd houtcome id
  | _ => simpa using h.holds hopen direction

theorem sound_closeNow (code : ℕ) (reason : String) : Sound trace (ws.closeNow code reason) := by
  obtain ⟨hclosed, hshut⟩ := ws.closeNow_shut code reason
  refine ⟨fun hopen => ?_, fun _ => hshut⟩
  rw [hclosed] at hopen
  cases hopen

/-- Queueing keeps what holds, whether there is room or not. -/
theorem Sound.enqueue (h : Sound trace ws) (hopen : ws.closed = false) (reason : String) :
    Sound (trace ++ [(event, (ws.enqueue direction text (frameSize text) reason).2)])
      (ws.enqueue direction text (frameSize text) reason).1 := by
  unfold Socket.enqueue
  split
  · rename_i lane hlane
    refine ⟨fun _ direction' => ?_, fun hclosed => ?_⟩
    · rw [accepted_snoc, returned_snoc]
      by_cases hsame : direction' = direction
      · subst hsame
        simpa using (h.holds hopen direction').put hlane
      · simpa [hsame, Ne.symm hsame, eq_comm] using h.holds hopen direction'
    · simp [hopen] at hclosed
  · exact sound_closeNow 1013 reason

/-- Taking keeps what holds, whether there is a text or not. -/
theorem Sound.take (h : Sound trace ws) (direction : Direction)
    (houtcome : ∀ text, outcome = .frame direction text ↔ (ws.lane direction).take.1 = some (.text text))
    (hother : (∀ text, outcome ≠ .frame direction text) → outcome.Silent) :
    Sound (trace ++ [(event, outcome)]) (ws.setLane direction (ws.lane direction).take.2) := by
  refine ⟨fun hopen direction' => ?_, fun hclosed direction' => ?_⟩
  · rw [Socket.closed_setLane] at hopen
    rw [accepted_snoc, returned_snoc]
    rcases (h.holds hopen direction).take with ⟨hnone, htake⟩ | ⟨text, htext, htake⟩
    · have hsilent := hother fun text hframe => by
        have hsome := (houtcome text).1 hframe
        rw [hnone] at hsome
        cases hsome
      by_cases hsame : direction' = direction
      · subst hsame
        cases outcome <;> first | exact absurd hsilent id | simpa using htake
      · cases outcome <;> first | exact absurd hsilent id | simpa [hsame] using h.holds hopen direction'
    · obtain rfl := (houtcome text).2 htext
      by_cases hsame : direction' = direction
      · subst hsame
        simpa using htake
      · simpa [hsame, Ne.symm hsame, eq_comm] using h.holds hopen direction'
  · rw [Socket.closed_setLane] at hclosed
    rw [Socket.lane_setLane]
    split
    · exact (h.shut hclosed direction).take.1
    · exact h.shut hclosed direction'

theorem Sound.takeInbound (h : Sound trace ws) :
    Sound (trace ++ [(event, ws.takeInbound.2)]) ws.takeInbound.1 := by
  refine h.take .inbound (fun text => ?_) fun hother => ?_
  · show ws.takeInbound.2 = _ ↔ ws.inbound.take.1 = _
    unfold Socket.takeInbound
    split
    · rename_i hnone
      simp [hnone]
    · rename_i hsome
      simp [hsome]
    · rename_i hsome
      simp [hsome]
  · unfold Socket.takeInbound at hother ⊢
    split at hother
    · trivial
    · rename_i text _
      exact absurd rfl (hother text)
    · trivial

theorem Sound.nextText (h : Sound trace ws) : Sound (trace ++ [(event, ws.nextText.2)]) ws.nextText.1 := by
  refine h.take .outbound (fun text => ?_) fun hother => ?_
  · show ws.nextText.2 = _ ↔ ws.outbound.take.1 = _
    unfold Socket.nextText
    split
    · rename_i hnone
      simp [hnone]
    · rename_i hsome
      simp [hsome]
    · rename_i hsome
      simp [hsome]
  · unfold Socket.nextText at hother ⊢
    split at hother
    · trivial
    · rename_i text _
      exact absurd rfl (hother text)
    · trivial

/-- **Every operation keeps what holds.** -/
theorem Sound.perform (h : Sound trace ws) (event : Event) :
    Sound (trace ++ [(event, (Duplex.perform ws event).2)]) (Duplex.perform ws event).1 := by
  cases event with
  | feedText text =>
    show Sound (trace ++ [(_, (ws.feedText text).2)]) (ws.feedText text).1
    unfold Socket.feedText
    split
    · exact h.silent trivial
    · rename_i hopen
      split
      · exact h.silent trivial
      · rename_i text' size hvalid
        rw [(Socket.validated_ok hvalid).1]
        exact h.enqueue (by simpa using hopen) _
  | sendText text =>
    show Sound (trace ++ [(_, (ws.sendText text).2)]) (ws.sendText text).1
    unfold Socket.sendText
    split
    · exact h.silent trivial
    · rename_i hopen
      split
      · exact h.silent trivial
      · rename_i size hvalid
        rw [(Socket.validateText_ok hvalid).1]
        exact h.enqueue (by simpa using hopen) _
  | receiveText =>
    show Sound (trace ++ [(_, ws.receiveText.2)]) ws.receiveText.1
    unfold Socket.receiveText
    split
    · exact h.silent trivial
    · exact h.takeInbound
  | nextText => exact h.nextText
  | wake direction =>
    cases direction with
    | inbound => exact h.takeInbound
    | outbound => exact h.nextText
  | close code reason => exact sound_closeNow code reason

/-- A socket as it is made: open and empty. -/
def Fresh (ws : Socket ε) : Prop := ws.closed = false ∧ ws.inbound = {} ∧ ws.outbound = {}

theorem Fresh.sound (h : Fresh ws) : Sound [] ws := by
  obtain ⟨hopen, hin, hout⟩ := h
  refine ⟨fun _ direction => ⟨[], ?_⟩, fun hclosed => by simp [hopen] at hclosed⟩
  cases direction
  · rw [Socket.lane, hin]
    exact ⟨rfl, rfl, rfl, Int.natCast_nonneg _, Nat.zero_le _⟩
  · rw [Socket.lane, hout]
    exact ⟨rfl, rfl, rfl, Int.natCast_nonneg _, Nat.zero_le _⟩

theorem sound_run (h : Run Step ws trace ws') (hfresh : Fresh ws) : Sound trace ws' := by
  refine h.history (I := Sound) hfresh.sound ?_
  rintro earlier u ⟨event, outcome⟩ v _ hsound ⟨-, hperform⟩
  have hnext := hsound.perform event
  rw [hperform] at hnext
  exact hnext

/-! ## Limits -/

/-- The limits of a socket and its validator stay. -/
structure SameLimits (ws ws' : Socket ε) : Prop where
  items : ws'.maxQueueItems = ws.maxQueueItems
  frame : ws'.maxFrameBytes = ws.maxFrameBytes
  bytes : ws'.maxQueueBytes = ws.maxQueueBytes
  validator : ws'.inboundValidator = ws.inboundValidator

theorem sameLimits_setLane (direction : Direction) (lane : Lane) : SameLimits ws (ws.setLane direction lane) := by
  cases direction <;> exact ⟨rfl, rfl, rfl, rfl⟩

theorem sameLimits_closeNow (code : ℕ) (reason : String) : SameLimits ws (ws.closeNow code reason) := by
  unfold Socket.closeNow Socket.signalClose
  by_cases hclosed : ws.closed
  · simp only [hclosed, if_true]
    exact ⟨rfl, rfl, rfl, rfl⟩
  · simp only [hclosed]
    exact ⟨rfl, rfl, rfl, rfl⟩

theorem sameLimits_enqueue (reason : String) : SameLimits ws (ws.enqueue direction text size reason).1 := by
  unfold Socket.enqueue
  split
  · exact sameLimits_setLane _ _
  · exact sameLimits_closeNow _ _

theorem sameLimits_perform (event : Event) : SameLimits ws (perform ws event).1 := by
  have hsame : SameLimits ws ws := ⟨rfl, rfl, rfl, rfl⟩
  cases event with
  | feedText text =>
    show SameLimits ws (ws.feedText text).1
    unfold Socket.feedText
    split
    · exact hsame
    · split
      · exact hsame
      · exact sameLimits_enqueue _
  | sendText text =>
    show SameLimits ws (ws.sendText text).1
    unfold Socket.sendText
    split
    · exact hsame
    · split
      · exact hsame
      · exact sameLimits_enqueue _
  | receiveText =>
    show SameLimits ws ws.receiveText.1
    unfold Socket.receiveText
    split
    · exact hsame
    · exact sameLimits_setLane .inbound _
  | nextText => exact sameLimits_setLane .outbound _
  | wake direction =>
    cases direction with
    | inbound => exact sameLimits_setLane .inbound _
    | outbound => exact sameLimits_setLane .outbound _
  | close code reason => exact sameLimits_closeNow code reason

theorem sameLimits_run (h : Run Step ws trace ws') : SameLimits ws ws' := by
  refine h.relates (fun _ => ⟨rfl, rfl, rfl, rfl⟩) (fun _ _ _ h h' => ?_) ?_
  · exact ⟨h'.items.trans h.items, h'.frame.trans h.frame, h'.bytes.trans h.bytes, h'.validator.trans h.validator⟩
  · rintro u ⟨event, outcome⟩ v ⟨-, hperform⟩
    have hlimits := @sameLimits_perform _ u event
    rwa [hperform] at hlimits

/-! ## After it was closed -/

/-- A closed socket stays closed, and no operation on it accepts or returns a text. -/
theorem perform_closed (hclosed : ws.closed = true) (hshut : ∀ direction, (ws.lane direction).Shut) (event : Event) :
    (perform ws event).1.closed = true ∧ (perform ws event).2.Silent := by
  have htake : ∀ direction text, (ws.lane direction).take.1 ≠ some (.text text) :=
    fun direction => (hshut direction).take.2
  have hinbound : ws.takeInbound.2.Silent := by
    unfold Socket.takeInbound
    split
    · trivial
    · rename_i text htext
      exact absurd htext (htake .inbound text)
    · trivial
  have hnext : ws.nextText.2.Silent := by
    unfold Socket.nextText
    split
    · trivial
    · rename_i text htext
      exact absurd htext (htake .outbound text)
    · trivial
  cases event with
  | feedText text =>
    show (ws.feedText text).1.closed = true ∧ (ws.feedText text).2.Silent
    rw [Socket.feedText, if_pos hclosed]
    exact ⟨hclosed, trivial⟩
  | sendText text =>
    show (ws.sendText text).1.closed = true ∧ (ws.sendText text).2.Silent
    rw [Socket.sendText, if_pos hclosed]
    exact ⟨hclosed, trivial⟩
  | receiveText =>
    show ws.receiveText.1.closed = true ∧ ws.receiveText.2.Silent
    unfold Socket.receiveText
    split
    · exact ⟨hclosed, trivial⟩
    · exact ⟨(Socket.closed_setLane _ _ _).trans hclosed, hinbound⟩
  | nextText => exact ⟨(Socket.closed_setLane _ _ _).trans hclosed, hnext⟩
  | wake direction =>
    cases direction with
    | inbound => exact ⟨(Socket.closed_setLane _ _ _).trans hclosed, hinbound⟩
    | outbound => exact ⟨(Socket.closed_setLane _ _ _).trans hclosed, hnext⟩
  | close code reason => exact ⟨(ws.closeNow_shut code reason).1, trivial⟩

/-- What holds of a closed socket after some more operations. -/
structure StaysShut (trace : Trace ε) (ws : Socket ε) : Prop where
  closed : ws.closed = true
  shut : ∀ direction, (ws.lane direction).Shut
  silent : ∀ direction, accepted direction trace = [] ∧ returned direction trace = []

theorem closed_run (h : Run Step ws trace ws') (hclosed : ws.closed = true)
    (hshut : ∀ direction, (ws.lane direction).Shut) : StaysShut trace ws' := by
  refine h.history (I := StaysShut) ⟨hclosed, hshut, fun _ => ⟨rfl, rfl⟩⟩ ?_
  rintro earlier u ⟨event, outcome⟩ v _ hstays ⟨-, hperform⟩
  obtain ⟨hv, hsilent⟩ := perform_closed hstays.closed hstays.shut event
  have hsound : Sound (ε := ε) [] u := ⟨fun hopen => by simp [hstays.closed] at hopen, fun _ => hstays.shut⟩
  have hnext := hsound.perform event
  rw [hperform] at hv hsilent hnext
  refine ⟨hv, hnext.shut hv, fun direction => ?_⟩
  rw [accepted_snoc, returned_snoc, (hstays.silent direction).1, (hstays.silent direction).2]
  cases outcome <;> first | exact absurd hsilent id | exact ⟨rfl, rfl⟩

/-! ## What is refused -/

/-- A text has no room in a lane. -/
def Overflows (ws : Socket ε) (direction : Direction) (text : Str) : Prop :=
  (ws.maxQueueBytes : ℤ) < (ws.lane direction).bytes + frameSize text ∨
    ws.maxQueueItems ≤ (ws.lane direction).queue.length

theorem put_none (h : Overflows ws direction text) :
    (ws.lane direction).put ws.maxQueueItems ws.maxQueueBytes text (frameSize text) = none := by
  unfold Lane.put
  rcases h with hbytes | hitems
  · rw [if_pos hbytes]
  · rw [if_pos hitems, ite_self]

theorem validateText_oversize (htext : (utf8 text).isSome) (hsize : ws.maxFrameBytes < frameSize text) :
    ws.validateText text = .error .frameTooLarge := by
  obtain ⟨octets, hoctets⟩ := Option.isSome_iff_exists.1 htext
  unfold frameSize at hsize
  rw [hoctets] at hsize
  rw [Socket.validateText, hoctets]
  exact if_pos hsize

/-- What an open socket refuses, and whether it closes. -/
structure Refuses (ws : Socket ε) : Prop where
  oversize : ∀ text, (utf8 text).isSome → ws.maxFrameBytes < frameSize text →
    ws.feedText text = (ws, .raised .frameTooLarge) ∧ ws.sendText text = (ws, .raised .frameTooLarge)
  /-- the text that the validator makes of one is checked as well -/
  rewritten : ∀ text validator text', frameSize text ≤ ws.maxFrameBytes → (utf8 text).isSome →
    ws.inboundValidator = some validator → validator text = .ok text' → (utf8 text').isSome →
    ws.maxFrameBytes < frameSize text' → ws.feedText text = (ws, .raised .frameTooLarge)
  feedOverflow : ∀ text text' size, ws.validated text = .ok (text', size) → Overflows ws .inbound text' →
    ws.feedText text = (ws.closeNow 1013 "inbound_backpressure", .raised .backpressure)
  sendOverflow : ∀ text size, ws.validateText text = .ok size → Overflows ws .outbound text →
    ws.sendText text = (ws.closeNow 1013 "outbound_backpressure", .raised .backpressure)

theorem refuses (hopen : ws.closed = false) : Refuses ws := by
  have hnot : ¬ ws.closed = true := by simp [hopen]
  refine ⟨fun text htext hsize => ?_, fun text validator text' hsize htext hvalidator hrewritten htext' hsize' => ?_,
    fun text text' size hvalid hoverflow => ?_, fun text size hvalid hoverflow => ?_⟩
  · have hvalid := validateText_oversize htext hsize
    constructor
    · rw [Socket.feedText, if_neg hnot, Socket.validated, hvalid]
    · rw [Socket.sendText, if_neg hnot, hvalid]
  · obtain ⟨octets, hoctets⟩ := Option.isSome_iff_exists.1 htext
    unfold frameSize at hsize
    rw [hoctets] at hsize
    have hfirst : ws.validateText text = .ok octets.length := by
      rw [Socket.validateText, hoctets]
      exact if_neg (Nat.not_lt.2 hsize)
    rw [Socket.feedText, if_neg hnot, Socket.validated, hfirst]
    simp only [hvalidator, hrewritten, validateText_oversize htext' hsize', Except.map]
  · rw [Socket.feedText, if_neg hnot, hvalid]
    simp only [Socket.enqueue, (Socket.validated_ok hvalid).1, put_none hoverflow]
  · rw [Socket.sendText, if_neg hnot, hvalid]
    simp only [Socket.enqueue, (Socket.validateText_ok hvalid).1, put_none hoverflow]

/-- **The queues of a virtual websocket lose nothing until it is closed**, and nothing passes
    through them from then on. -/
theorem duplex_lossless (hfresh : Fresh ws) (h : Run Step ws trace ws') :
    SameLimits ws ws' ∧
    (ws'.closed = false → Refuses ws' ∧ ∀ direction, (ws'.lane direction).Holds ws.maxQueueItems ws.maxQueueBytes
      (accepted direction trace) (returned direction trace)) ∧
    (∀ code reason, (ws'.closeNow code reason).closed = true ∧
      ∀ direction, ((ws'.closeNow code reason).lane direction).Shut) ∧
    (ws'.closed = true → ∀ later ws'', Run Step ws' later ws'' → StaysShut later ws'') := by
  have hlimits := sameLimits_run h
  have hsound := sound_run h hfresh
  refine ⟨hlimits, fun hopen => ⟨refuses hopen, fun direction => ?_⟩, fun code reason => ws'.closeNow_shut code reason,
    fun hclosed later ws'' hlater => closed_run hlater hclosed (hsound.shut hclosed)⟩
  rw [← hlimits.items, ← hlimits.bytes]
  exact hsound.holds hopen direction

/-! ## The side that carries requests -/

section Mirrors

variable {depths : JsonDepths} {authorizer : Str → Bool} {v : VirtualWebSocket} {mirror : Socket PolicyReason}

/-- The inbound side of a socket whose validator is a policy is a `VirtualWebSocket`. -/
structure Mirrors (depths : JsonDepths) (authorizer : Str → Bool) (v : VirtualWebSocket)
    (mirror : Socket PolicyReason) : Prop where
  items : mirror.maxQueueItems = v.maxQueueItems
  frame : mirror.maxFrameBytes = v.maxFrameBytes
  bytes : mirror.maxQueueBytes = v.maxQueueBytes
  validator : mirror.inboundValidator = v.inboundValidator.map fun policy => policy.validateText depths authorizer
  closed : mirror.closed = v.closed
  code : mirror.closeCode = v.closeCode
  reason : mirror.closeReason = v.closeReason
  queue : mirror.inbound.queue = v.inbound
  count : mirror.inbound.bytes = v.inboundBytes

theorem Mirrors.closeNow (h : Mirrors depths authorizer v mirror) (code : ℕ) (reason : String) :
    Mirrors depths authorizer (v.closeNow code reason) (mirror.closeNow code reason) := by
  unfold VirtualWebSocket.closeNow Socket.closeNow
  by_cases hclosed : v.closed
  · rw [if_pos hclosed, if_pos (h.closed.trans hclosed)]
    refine ⟨h.items, h.frame, h.bytes, h.validator, h.closed, h.code, h.reason, ?_, rfl⟩
    simp only [Socket.signalClose, Lane.signal, h.code, h.reason]
  · rw [if_neg hclosed, if_neg (by rw [h.closed]; exact hclosed)]
    exact ⟨h.items, h.frame, h.bytes, h.validator, rfl, rfl, rfl, rfl, rfl⟩

/-- Feeding a text does the same to both. -/
theorem Mirrors.feedText (h : Mirrors depths authorizer v mirror) (text : Str) :
    Mirrors depths authorizer (v.feedText depths authorizer text).2 (mirror.feedText text).1 := by
  have hsize : mirror.validateText text = match utf8 text with
      | none => .error .unencodable
      | some octets => if v.maxFrameBytes < octets.length then .error .frameTooLarge else .ok octets.length := by
    rw [Socket.validateText, h.frame]
  rw [VirtualWebSocket.feedText_eq, Socket.feedText, h.closed]
  split
  · exact h
  · rw [Socket.validated, hsize, h.validator]
    cases htext : utf8 text with
    | none => exact h
    | some octets =>
      simp only
      by_cases hlong : v.maxFrameBytes < octets.length
      · simp only [if_pos hlong]
        exact h
      · simp only [if_neg hlong]
        have henqueue : Mirrors depths authorizer (v.enqueue text octets.length).2
            (mirror.enqueue .inbound text octets.length "inbound_backpressure").1 := by
          unfold VirtualWebSocket.enqueue Socket.enqueue Lane.put
          simp only [Socket.lane, h.items, h.bytes, h.queue, h.count]
          split
          · exact h.closeNow _ _
          · split
            · exact h.closeNow _ _
            · exact ⟨h.items, h.frame, h.bytes, h.validator, h.closed, h.code, h.reason, rfl, rfl⟩
        cases hvalidator : v.inboundValidator with
        | none =>
          simp only [VirtualWebSocket.validate, hvalidator, Option.map_none]
          exact henqueue
        | some policy =>
          simp only [VirtualWebSocket.validate, hvalidator, Option.map_some]
          cases hpolicy : policy.validateText depths authorizer text with
          | error reason => exact h
          | ok text' =>
            obtain rfl := MethodPolicy.validateText_ok hpolicy
            simp only [hsize, htext, if_neg hlong, Except.map]
            exact henqueue

/-- So does reading one that is queued, and closing. -/
theorem Mirrors.receiveText (h : Mirrors depths authorizer v mirror) :
    Mirrors depths authorizer v.receiveText.2 mirror.receiveText.1 := by
  have htake : Mirrors depths authorizer v.receiveText.2 mirror.takeInbound.1 := by
    have hqueue := h.queue
    unfold VirtualWebSocket.receiveText Socket.takeInbound Lane.take
    cases hinbound : v.inbound with
    | nil =>
      rw [hinbound] at hqueue
      simp only [hqueue]
      exact ⟨h.items, h.frame, h.bytes, h.validator, h.closed, h.code, h.reason, hinbound.symm, h.count⟩
    | cons item rest =>
      rw [hinbound] at hqueue
      cases item with
      | text s =>
        simp only [hqueue]
        refine ⟨h.items, h.frame, h.bytes, h.validator, h.closed, h.code, h.reason, rfl, ?_⟩
        show mirror.inbound.bytes - (frameSize s : ℤ) = _
        rw [h.count]
        rfl
      | close code reason =>
        simp only [hqueue]
        exact ⟨h.items, h.frame, h.bytes, h.validator, h.closed, h.code, h.reason, rfl, h.count⟩
  unfold Socket.receiveText
  split
  · rename_i hempty
    rw [h.queue] at hempty
    rw [VirtualWebSocket.receiveText, hempty.2]
    exact h
  · exact htake

end Mirrors

section Runs

/-- A socket for two frames of three octets. -/
def smallSocket : Socket Unit := ⟨2, 3, 6, by decide, none, false, 0, "", {}, {}⟩

/-- A reader waits for a frame, and one that is too long for the queue closes the socket. -/
def smallEvents : List Event :=
  [.nextText, .sendText (lit "abc"), .wake .outbound, .feedText (lit "abc"), .feedText (lit "abc"),
    .feedText (lit "a")]

theorem duplex_lossless_small : ∃ trace ws', Run Step smallSocket trace ws' ∧
    (ws'.closed = true → ∀ later ws'', Run Step ws' later ws'' → StaysShut later ws'') ∧
    returned .outbound trace = [lit "abc"] ∧ ws'.closed = true := by
  obtain ⟨⟨ws', trace⟩, hrun, hreturned, hclosed⟩ : ∃ r, execution Enabled perform smallSocket smallEvents = some r ∧
      returned .outbound r.2 = [lit "abc"] ∧ r.1.closed = true := ⟨_, rfl, by decide, by decide⟩
  have hsteps : Run Step smallSocket trace ws' := run_of_execution hrun
  exact ⟨trace, ws', hsteps, (duplex_lossless ⟨rfl, rfl, rfl⟩ hsteps).2.2.2, hreturned, hclosed⟩

end Runs

end Duplex

end MercuryRelay
