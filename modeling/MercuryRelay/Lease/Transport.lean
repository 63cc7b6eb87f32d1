/-
  The encrypted transport of one attachment (controller_transport.py, and what it
  uses of secure_channel.py).

  A failure closes the outer side: the transport, its Noise channel and its
  attachment.  A text for which the inner queue has no room closes the inner
  websocket too.

  * `feed_contained_iff`: when a record leaves the inner side alone;
  * `feeds_contained_iff`: the same of every record of a run;
  * `backpressure_closes_controller`: a record that does not.
-/
import MercuryRelay.Framing.Reassembler
import MercuryRelay.Lease.Confinement
import MercuryRelay.Lease.Tenure

set_option autoImplicit false

namespace MercuryRelay

open Python Framing

/-- What `decrypt` of a Noise connection yields, and the connection after it; `none` where it
    raises. -/
abbrev Decrypt (σ : Type) := σ → Bytes → Option Bytes × σ

structure NoiseChannel (σ : Type) where
  connection : Option σ
  closed : Bool := false
  /-- `_next_action == "complete"` -/
  complete : Bool := true

/-- The reason of a `SecureChannelError`. -/
inductive ChannelReason where
  | channelClosed | handshakeNotFinished | ciphertextLimit | transportFailed
  deriving DecidableEq

namespace NoiseChannel

variable {σ : Type}

def maxCiphertextRecordBytes : ℕ := 65535
def maxPlaintextRecordBytes : ℕ := 65519

/-- `close`. -/
def close (c : NoiseChannel σ) : NoiseChannel σ := { c with closed := true, connection := none }

/-- `handshake_finished`. -/
def handshakeFinished (c : NoiseChannel σ) : Bool := c.complete && !c.closed

/-- `decrypt`. -/
def decrypt (noise : Decrypt σ) (c : NoiseChannel σ) (ciphertext : Bytes) :
    Except ChannelReason Bytes × NoiseChannel σ :=
  match c.connection with
  | none => (.error .channelClosed, c)
  | some connection =>
    if c.closed then (.error .channelClosed, c)
    else if ¬ c.handshakeFinished then (.error .handshakeNotFinished, c)
    else if maxCiphertextRecordBytes < ciphertext.length then (.error .ciphertextLimit, c)
    else if ciphertext.length < 16 then (.error .ciphertextLimit, c)
    else
      match noise connection ciphertext with
      | (none, _) => (.error .transportFailed, c.close)
      | (some plaintext, connection) =>
        if maxPlaintextRecordBytes < plaintext.length then (.error .transportFailed, c.close)
        else (.ok plaintext, { c with connection := some connection })

end NoiseChannel

/-- The reason of a `ControllerTransportError` that an inbound record causes. -/
inductive TransportReason where
  | channelClosed | leaseReleased | backpressure | malformedFrame | protocolViolation
  | localHermesUnavailable
  deriving DecidableEq

/-- The reason as the attachment is given it. -/
def TransportReason.detach : TransportReason → DetachReason
  | .channelClosed => .other "channel_closed"
  | .leaseReleased => .leaseReleased
  | .backpressure => .other "backpressure"
  | .malformedFrame => .other "malformed_frame"
  | .protocolViolation => .other "protocol_violation"
  | .localHermesUnavailable => .other "local_hermes_unavailable"

/-- What `feed_ciphertext` makes of an exception; a `UnicodeEncodeError` is a `ValueError`, and
    a `RecursionError` is none of those it names. -/
def inboundReason : LeaseFault → TransportReason
  | .released => .leaseReleased
  | .feed .backpressure => .backpressure
  | .recursion => .localHermesUnavailable
  | _ => .protocolViolation

/-- `EncryptedControllerTransport`, on the side that receives. -/
structure ControllerTransport (σ : Type) where
  channel : NoiseChannel σ
  attachment : ℕ
  reassembler : Reassembler
  closed : Bool := false

/-- A transport and the lease of its attachment. -/
structure Link (σ : Type) where
  transport : ControllerTransport σ
  lease : Lease

namespace Link

variable {σ : Type}

/-- `close`. -/
def close (s : Link σ) (reason : DetachReason) : Link σ :=
  if s.transport.closed then s
  else
    { transport := { s.transport with
        closed := true
        reassembler := s.transport.reassembler.reset
        channel := s.transport.channel.close }
      lease := s.lease.detach s.transport.attachment reason }

/-- `_fail`. -/
def fail (s : Link σ) (reason : TransportReason) : Except TransportReason Bool × Link σ :=
  (.error reason, s.close reason.detach)

def withChannel (s : Link σ) (channel : NoiseChannel σ) : Link σ :=
  { s with transport := { s.transport with channel := channel } }

def withReassembler (s : Link σ) (reassembler : Reassembler) : Link σ :=
  { s with transport := { s.transport with reassembler := reassembler } }

/-- The text of a message is delivered. -/
def deliverText (s : Link σ) (env : Surroundings) (text : Str) : Except TransportReason Bool × Link σ :=
  match s.lease.feedText env s.transport.attachment text with
  | (lease, none) => (.ok true, { s with lease := lease })
  | (lease, some fault) => { s with lease := lease }.fail (inboundReason fault)

/-- A record is pushed. -/
def receiveRecord (s : Link σ) (env : Surroundings) (record : Bytes) :
    Except TransportReason Bool × Link σ :=
  match s.transport.reassembler.push record with
  | (.error _, reassembler) => (s.withReassembler reassembler).fail .protocolViolation
  | (.ok none, reassembler) => (.ok false, s.withReassembler reassembler)
  | (.ok (some message), reassembler) =>
    match decodeUtf8 message with
    | none => (s.withReassembler reassembler).fail .malformedFrame
    | some text => (s.withReassembler reassembler).deliverText env text

/-- `feed_ciphertext`; nothing that it awaits suspends. -/
def feedCiphertext (noise : Decrypt σ) (s : Link σ) (env : Surroundings) (ciphertext : Bytes) :
    Except TransportReason Bool × Link σ :=
  if s.transport.closed then (.error .channelClosed, s)
  else if s.transport.channel.closed then s.fail .channelClosed
  else
    match s.transport.channel.decrypt noise ciphertext with
    | (.error _, channel) => (s.withChannel channel).fail .protocolViolation
    | (.ok record, channel) => (s.withChannel channel).receiveRecord env record

/-- What happens to a transport and its lease: a record arrives, the outer side closes, or
    something happens to the lease. -/
inductive Event where
  | feed (env : Surroundings) (ciphertext : Bytes)
  | close (reason : DetachReason)
  | lease (e : LeaseEvent)

inductive Output where
  | fed (result : Except TransportReason Bool)
  | closed
  | lease (out : LeaseOutput)

def Enabled (s : Link σ) : Event → Prop
  | .lease e => s.lease.Enabled e
  | _ => True

def perform (noise : Decrypt σ) (s : Link σ) : Event → Link σ × Output
  | .feed env ciphertext =>
    let (result, s) := s.feedCiphertext noise env ciphertext
    (s, .fed result)
  | .close reason => (s.close reason, .closed)
  | .lease e =>
    let (lease, out) := s.lease.perform e
    ({ s with lease := lease }, .lease out)

instance (s : Link σ) (e : Event) : Decidable (s.Enabled e) := by
  cases e <;> unfold Enabled <;> infer_instance

/-- One event happens. -/
def Step (noise : Decrypt σ) (s : Link σ) (label : Event × Output) (s' : Link σ) : Prop :=
  s.Enabled label.1 ∧ s.perform noise label.1 = (s', label.2)

abbrev Run (noise : Decrypt σ) := Transition.Run (Step (σ := σ) noise)

end Link

/-! ## What a record can do -/

namespace VirtualWebSocket

variable {ws : VirtualWebSocket} {depths : JsonDepths} {authorizer : Str → Bool} {text : Str}

/-- The text is accepted, and the inbound queue has no room for it. -/
def overflows (ws : VirtualWebSocket) (depths : JsonDepths) (profileAuthorizer : Str → Bool) (text : Str) :
    Bool :=
  match utf8 text with
  | none => false
  | some bytes =>
    !ws.closed && decide (bytes.length ≤ ws.maxFrameBytes) &&
      (ws.validate depths profileAuthorizer text).toBool &&
      (decide ((ws.maxQueueBytes : ℤ) < ws.inboundBytes + bytes.length) ||
        decide (ws.maxQueueItems ≤ ws.inbound.length))

theorem closeNow_closed (code : ℕ) (reason : String) : (ws.closeNow code reason).closed = true := by
  unfold closeNow
  dsimp only
  split
  · rename_i hclosed
    exact hclosed
  · rfl

theorem enqueue_closed (size : ℕ) : (ws.enqueue text size).2.closed =
    (ws.closed || (decide ((ws.maxQueueBytes : ℤ) < ws.inboundBytes + size) ||
      decide (ws.maxQueueItems ≤ ws.inbound.length))) := by
  unfold enqueue
  split
  · rename_i hbytes
    simp [closeNow_closed, hbytes]
  · rename_i hbytes
    split
    · rename_i hitems
      simp [closeNow_closed, hitems]
    · rename_i hitems
      simp [hbytes, hitems]

/-- Only a text without room closes the websocket. -/
theorem feedText_closed : (ws.feedText depths authorizer text).2.closed =
    (ws.closed || ws.overflows depths authorizer text) := by
  rw [feedText_eq, overflows]
  by_cases hclosed : ws.closed = true
  · rw [if_pos hclosed, hclosed, Bool.true_or]
  · rw [if_neg hclosed]
    rw [Bool.not_eq_true] at hclosed
    cases utf8 text with
    | none => simp [hclosed]
    | some bytes =>
      dsimp only
      by_cases hsize : ws.maxFrameBytes < bytes.length
      · simp [hsize, hclosed]
      · rw [if_neg hsize]
        cases hvalid : ws.validate depths authorizer text with
        | error fault => simp [hclosed, Except.toBool]
        | ok text' => simp [enqueue_closed, hclosed, Except.toBool, Nat.le_of_not_lt hsize]

end VirtualWebSocket

/-- Only a text that is forwarded without room closes the websocket. -/
theorem Lease.feedText_closed {l : Lease} {env : Surroundings} {a : ℕ} {text : Str} :
    (l.feedText env a text).1.websocket.closed = (l.websocket.closed ||
      (!(l.heap a).detached && l.forwards a text &&
        l.websocket.overflows l.depths env.profileAuthorizer text)) := by
  unfold Lease.feedText
  split
  · rename_i hdetached
    simp [hdetached]
  · rename_i hdetached
    rw [Bool.not_eq_true] at hdetached
    rw [submitText_websocket]
    split
    · rename_i hforwards
      rw [fed, VirtualWebSocket.feedText_closed, hdetached, hforwards]
      simp
    · rename_i hforwards
      rw [Bool.not_eq_true] at hforwards
      simp [hforwards]

namespace Link

variable {σ : Type} {noise : Decrypt σ} {s s' t : Link σ} {env : Surroundings} {ciphertext : Bytes}
  {reason : TransportReason}

/-- The text that a record completes. -/
def completes (noise : Decrypt σ) (s : Link σ) (ciphertext : Bytes) : Option Str :=
  if s.transport.closed ∨ s.transport.channel.closed then none
  else
    match (s.transport.channel.decrypt noise ciphertext).1 with
    | .error _ => none
    | .ok record =>
      match (s.transport.reassembler.push record).1 with
      | .ok (some message) => decodeUtf8 message
      | _ => none

/-- The record completes a text that is forwarded to the controller, and the inbound queue has
    no room for it. -/
def Overflows (noise : Decrypt σ) (s : Link σ) (env : Surroundings) (ciphertext : Bytes) : Prop :=
  ∃ text, s.completes noise ciphertext = some text ∧
    (s.lease.heap s.transport.attachment).detached = false ∧
    s.lease.forwards s.transport.attachment text = true ∧
    s.lease.websocket.overflows s.lease.depths env.profileAuthorizer text = true

/-- The outer side is closed. -/
structure Severed (s : Link σ) : Prop where
  transport : s.transport.closed = true
  channel : s.transport.channel.closed = true
  attachment : (s.lease.heap s.transport.attachment).detached = true
  vacated : s.lease.attachment ≠ some s.transport.attachment

/-- A record is delivered or buffered, or it closes the outer side; the inner side stays as
    open as it was. -/
structure Contained (s : Link σ) (result : Except TransportReason Bool) (s' : Link σ) : Prop where
  websocket : s'.lease.websocket.closed = s.lease.websocket.closed
  released : s'.lease.released = s.lease.released
  outer : (∃ delivered, result = .ok delivered) ∨ ∃ reason, result = .error reason ∧ s'.Severed

/-- The transport has taken something in. -/
structure Progress (s s' : Link σ) : Prop where
  lease : s'.lease = s.lease
  attachment : s'.transport.attachment = s.transport.attachment
  closed : s'.transport.closed = false

/-- What may come of a record. -/
inductive Fed (noise : Decrypt σ) (s : Link σ) (env : Surroundings) (ciphertext : Bytes) :
    Except TransportReason Bool → Link σ → Prop
  | dead : s.transport.closed = true → s.completes noise ciphertext = none →
    Fed noise s env ciphertext (.error .channelClosed) s
  | failed {reason m} : Progress s m → s.completes noise ciphertext = none →
    Fed noise s env ciphertext (.error reason) (m.close reason.detach)
  | buffered {m} : Progress s m → s.completes noise ciphertext = none →
    Fed noise s env ciphertext (.ok false) m
  | delivered {m text lease} : Progress s m → s.completes noise ciphertext = some text →
    s.lease.feedText env s.transport.attachment text = (lease, none) →
    Fed noise s env ciphertext (.ok true) { m with lease := lease }
  | refused {m text lease fault} : Progress s m → s.completes noise ciphertext = some text →
    s.lease.feedText env s.transport.attachment text = (lease, some fault) →
    Fed noise s env ciphertext (.error (inboundReason fault))
      ({ m with lease := lease }.close (inboundReason fault).detach)

theorem feed_cases (noise : Decrypt σ) (s : Link σ) (env : Surroundings) (ciphertext : Bytes) :
    Fed noise s env ciphertext (s.feedCiphertext noise env ciphertext).1
      (s.feedCiphertext noise env ciphertext).2 := by
  unfold feedCiphertext
  by_cases hclosed : s.transport.closed = true
  · rw [if_pos hclosed]
    exact .dead hclosed (if_pos (.inl hclosed))
  · rw [if_neg hclosed]
    rw [Bool.not_eq_true] at hclosed
    by_cases hchannel : s.transport.channel.closed = true
    · rw [if_pos hchannel]
      exact .failed ⟨rfl, rfl, hclosed⟩ (if_pos (.inr hchannel))
    · rw [if_neg hchannel]
      have hopen : ¬ (s.transport.closed = true ∨ s.transport.channel.closed = true) := by
        simp [hclosed, hchannel]
      rcases hdecrypt : s.transport.channel.decrypt noise ciphertext with ⟨result, channel⟩
      have hprogress : Progress s (s.withChannel channel) := ⟨rfl, rfl, hclosed⟩
      cases result with
      | error fault =>
        have hcompletes : s.completes noise ciphertext = none := by
          rw [completes, if_neg hopen, hdecrypt]
        exact .failed hprogress hcompletes
      | ok record =>
        dsimp only
        unfold receiveRecord
        have hsame : (s.withChannel channel).transport.reassembler = s.transport.reassembler := rfl
        rw [hsame]
        rcases hpush : s.transport.reassembler.push record with ⟨pushed, reassembler⟩
        have hprogress' : Progress s ((s.withChannel channel).withReassembler reassembler) :=
          ⟨rfl, rfl, hclosed⟩
        cases pushed with
        | error fault =>
          have hcompletes : s.completes noise ciphertext = none := by
            simp only [completes, if_neg hopen, hdecrypt, hpush]
          exact .failed hprogress' hcompletes
        | ok message =>
          cases message with
          | none =>
            have hcompletes : s.completes noise ciphertext = none := by
              simp only [completes, if_neg hopen, hdecrypt, hpush]
            exact .buffered hprogress' hcompletes
          | some message =>
            have hcompletes : s.completes noise ciphertext = decodeUtf8 message := by
              simp only [completes, if_neg hopen, hdecrypt, hpush]
            dsimp only
            cases hdecode : decodeUtf8 message with
            | none => exact .failed hprogress' (hcompletes.trans hdecode)
            | some text =>
              rw [hdecode] at hcompletes
              unfold deliverText
              rcases hfeed : s.lease.feedText env s.transport.attachment text with ⟨lease, fault⟩
              have hfeed' : ((s.withChannel channel).withReassembler reassembler).lease.feedText env
                  ((s.withChannel channel).withReassembler reassembler).transport.attachment text =
                    (lease, fault) := hfeed
              dsimp only
              rw [hfeed']
              cases fault with
              | none => exact .delivered hprogress' hcompletes hfeed
              | some fault => exact .refused hprogress' hcompletes hfeed

/-! ## What stays -/

/-- The attachment is one that was opened, and a transport that is closed is closed altogether. -/
structure Bound (s : Link σ) : Prop where
  opened : s.transport.attachment < s.lease.opened
  severed : s.transport.closed = true → s.Severed

/-- The outer side closes. -/
theorem close_severed (h : s.transport.closed = false) (reason : DetachReason) :
    (s.close reason).Severed := by
  unfold close
  rw [if_neg (by simp [h])]
  refine ⟨rfl, rfl, ?_, ?_⟩
  · show ((s.lease.detach _ reason).heap _).detached = true
    rw [Lease.detach_heap_self]
    exact markDetached_detached _ _
  · show (s.lease.detach _ reason).attachment ≠ _
    rw [Lease.detach_attachment]
    split
    · simp
    · assumption

/-- The inner side does not. -/
theorem close_lease (reason : DetachReason) : (s.close reason).lease.websocket = s.lease.websocket ∧
    (s.close reason).lease.released = s.lease.released := by
  unfold close
  split
  · exact ⟨rfl, rfl⟩
  · refine ⟨?_, (Lease.detach_sameLog _ _ _).released⟩
    show (s.lease.detach _ reason).websocket = _
    unfold Lease.detach
    split <;> rfl

theorem close_transport (reason : DetachReason) :
    (s.close reason).transport.attachment = s.transport.attachment := by
  unfold close
  split <;> rfl

theorem close_changes (reason : DetachReason) :
    Tenure.Changes s.lease.tenure (s.close reason).lease.tenure := by
  unfold close
  split
  · exact .refl
  · show Tenure.Changes _ (s.lease.detach _ reason).tenure
    rw [Lease.tenure_detach]
    exact .single (.detach _)

/-- A text that is fed changes the lease as a submitted text does. -/
theorem feedText_lease (hs : s.Bound) {text : Str} {lease : Lease} {fault : Option LeaseFault}
    (h : s.lease.feedText env s.transport.attachment text = (lease, fault)) :
    Tenure.Changes s.lease.tenure lease.tenure ∧ lease.released = s.lease.released := by
  have hstep : Lease.Step s.lease (.submit env s.transport.attachment text,
      s.lease.submitOutput lease text fault) lease := by
    refine ⟨hs.opened, ?_⟩
    simp only [Lease.perform, h]
  refine ⟨Lease.step_changes hstep, ?_⟩
  cases Lease.step_moves hstep with
  | answered _ hl => exact hl.sameLog.released

/-- What changes of the lease keep of the outer side. -/
theorem Bound.changes (hs : s.Bound) (hc : Tenure.Changes s.lease.tenure s'.lease.tenure)
    (ht : s'.transport = s.transport) : s'.Bound := by
  have hkept := Tenure.detached_changes hc hs.opened
  refine ⟨by rw [ht]; exact hkept.1, fun hclosed => ?_⟩
  have hsev := hs.severed (ht ▸ hclosed)
  refine ⟨hclosed, ht ▸ hsev.channel, by rw [ht]; exact hkept.2 hsev.attachment, fun hcur => ?_⟩
  rw [ht] at hcur
  rcases (Tenure.held_changes hc hcur).2 with h | h
  · exact hsev.vacated h
  · exact absurd hs.opened (Nat.not_lt.2 h)

theorem Bound.close (hs : s.Bound) (reason : DetachReason) : (s.close reason).Bound := by
  by_cases h : s.transport.closed = true
  · have hsame : s.close reason = s := if_pos h
    rw [hsame]
    exact hs
  · refine ⟨?_, fun _ => close_severed (by simpa using h) reason⟩
    rw [close_transport]
    exact (Tenure.detached_changes (close_changes reason) hs.opened).1

theorem Bound.progress (hs : s.Bound) (h : Progress s s') : s'.Bound := by
  refine ⟨?_, fun hclosed => ?_⟩
  · rw [h.attachment, h.lease]
    exact hs.opened
  · rw [h.closed] at hclosed
    cases hclosed

/-- What a record keeps. -/
theorem Bound.fed (hs : s.Bound) {result : Except TransportReason Bool}
    (h : Fed noise s env ciphertext result s') : s'.Bound := by
  cases h with
  | dead => exact hs
  | failed hm => exact (hs.progress hm).close _
  | buffered hm => exact hs.progress hm
  | @delivered m text lease hm _ hfeed =>
    have hc := (feedText_lease hs hfeed).1
    rw [← hm.lease] at hc
    exact (hs.progress hm).changes hc rfl
  | @refused m text lease fault hm _ hfeed =>
    have hc := (feedText_lease hs hfeed).1
    rw [← hm.lease] at hc
    exact Bound.close (s := { m with lease := lease }) ((hs.progress hm).changes hc rfl) _

/-- What a step keeps. -/
theorem Bound.step (hs : s.Bound) {label : Event × Output} (hstep : Step noise s label s') :
    s'.Bound := by
  obtain ⟨e, out⟩ := label
  obtain ⟨hen, hperform⟩ := hstep
  cases e with
  | feed env ciphertext =>
    cases hperform
    exact hs.fed (feed_cases noise s env ciphertext)
  | close reason =>
    cases hperform
    exact hs.close reason
  | lease e =>
    cases hperform
    have hlease : Lease.Step s.lease (e, (s.lease.perform e).2) (s.lease.perform e).1 := ⟨hen, rfl⟩
    exact hs.changes (Lease.step_changes hlease) rfl

/-! ## Main results -/

/-- A record that completes no text leaves the inner side alone. -/
theorem fits_of_none (h : s.completes noise ciphertext = none) : ¬ s.Overflows noise env ciphertext := by
  rintro ⟨text, htext, -⟩
  rw [h] at htext
  cases htext

/-- The text of a record closes the websocket if it does not fit. -/
theorem feedText_websocket {text : Str} {lease : Lease} {fault : Option LeaseFault}
    (htext : s.completes noise ciphertext = some text)
    (h : s.lease.feedText env s.transport.attachment text = (lease, fault)) :
    lease.websocket.closed = s.lease.websocket.closed ↔ ¬ s.Overflows noise env ciphertext := by
  have hclosed := @Lease.feedText_closed s.lease env s.transport.attachment text
  rw [h] at hclosed
  have hoverflows : s.Overflows noise env ciphertext ↔
      (!(s.lease.heap s.transport.attachment).detached && s.lease.forwards s.transport.attachment text &&
        s.lease.websocket.overflows s.lease.depths env.profileAuthorizer text) = true := by
    rw [Bool.and_eq_true, Bool.and_eq_true, Bool.not_eq_true', and_assoc]
    constructor
    · rintro ⟨text', htext', hrest⟩
      obtain rfl := Option.some.inj (htext.symm.trans htext')
      exact hrest
    · intro hrest
      exact ⟨text, htext, hrest⟩
  have hopen : s.lease.websocket.overflows s.lease.depths env.profileAuthorizer text = true →
      s.lease.websocket.closed = false := by
    intro h
    unfold VirtualWebSocket.overflows at h
    split at h
    · cases h
    · simp only [Bool.and_eq_true, Bool.not_eq_true'] at h
      exact h.1.1.1
  rw [hoverflows, hclosed]
  constructor
  · intro hsame hover
    have hfree := hopen (Bool.and_eq_true _ _ ▸ hover).2
    rw [hover, hfree] at hsame
    cases hsame
  · intro hfits
    rw [Bool.not_eq_true] at hfits
    rw [hfits, Bool.or_false]

/-- What comes of a record leaves the inner side alone if and only if its text finds room. -/
theorem Fed.contained_iff {result : Except TransportReason Bool}
    (h : Fed noise s env ciphertext result s') (hs : s.Bound) :
    s.Contained result s' ↔ ¬ s.Overflows noise env ciphertext := by
  cases h with
  | dead hclosed htext =>
    exact iff_of_true ⟨rfl, rfl, .inr ⟨_, rfl, hs.severed hclosed⟩⟩ (fits_of_none htext)
  | @failed reason m hm htext =>
    refine iff_of_true ⟨?_, ?_, .inr ⟨_, rfl, close_severed hm.closed _⟩⟩ (fits_of_none htext)
    · rw [(close_lease _).1, hm.lease]
    · rw [(close_lease _).2, hm.lease]
  | buffered hm htext =>
    refine iff_of_true ⟨?_, ?_, .inl ⟨_, rfl⟩⟩ (fits_of_none htext)
    · rw [hm.lease]
    · rw [hm.lease]
  | delivered hm htext hfeed =>
    rw [← feedText_websocket htext hfeed]
    exact ⟨fun h => h.websocket, fun h => ⟨h, (feedText_lease hs hfeed).2, .inl ⟨_, rfl⟩⟩⟩
  | @refused m text lease fault hm htext hfeed =>
    rw [← feedText_websocket htext hfeed]
    have hkept := close_lease (s := { m with lease := lease }) (inboundReason fault).detach
    constructor
    · intro h
      rw [← h.websocket, hkept.1]
    · intro h
      have hsev : Severed ({ m with lease := lease }.close (inboundReason fault).detach) :=
        close_severed (s := { m with lease := lease }) hm.closed _
      refine ⟨by rw [hkept.1]; exact h, ?_, .inr ⟨_, rfl, hsev⟩⟩
      rw [hkept.2]
      exact (feedText_lease hs hfeed).2

/-- **When a record leaves the inner side alone.**  It is delivered or buffered, or only the outer
    side closes, if and only if it does not complete a text for which there is no room. -/
theorem feed_contained_iff (hs : s.Bound) :
    s.Contained (s.feedCiphertext noise env ciphertext).1 (s.feedCiphertext noise env ciphertext).2 ↔
      ¬ s.Overflows noise env ciphertext :=
  (feed_cases noise s env ciphertext).contained_iff hs

/-- A record that is fed is contained. -/
def Spares (s : Link σ) : Event × Output → Link σ → Prop
  | (.feed _ _, .fed result), s' => s.Contained result s'
  | _, _ => True

/-- A record that is fed finds room. -/
def Fits (noise : Decrypt σ) (s : Link σ) : Event × Output → Prop
  | (.feed env ciphertext, _) => ¬ s.Overflows noise env ciphertext
  | _ => True

/-- A transport that was just bound to an attachment of its lease. -/
structure Opened (s : Link σ) : Prop where
  transport : s.transport.closed = false
  attachment : s.transport.attachment < s.lease.opened

theorem Opened.bound (h : s.Opened) : s.Bound :=
  ⟨h.attachment, fun hclosed => by rw [h.transport] at hclosed; cases hclosed⟩

/-- **When all the records of a run leave the inner side alone.**  Each is delivered or buffered,
    or closes the outer side only, if and only if each finds room. -/
theorem feeds_contained_iff (hs : s.Opened) {trace : List (Event × Output)} :
    Transition.Run (fun s label s' => s.Spares label s' ∧ Step noise s label s') s trace t ↔
      Transition.Run (fun s label s' => s.Fits noise label ∧ Step noise s label s') s trace t := by
  refine Transition.Run.restrict_congr (I := Bound) (fun _ _ _ h hstep => h.step hstep) ?_ hs.bound
  rintro u ⟨e, out⟩ v hu ⟨-, hperform⟩
  cases e with
  | feed env ciphertext =>
    cases hperform
    exact feed_contained_iff hu
  | close reason =>
    cases hperform
    exact Iff.rfl
  | lease e =>
    cases hperform
    exact Iff.rfl

/-! ## Unread requests -/

/-- The one record of a request. -/
def pingRecord : Bytes :=
  [77, 82, 1, 1, 0, 0, 0, 0, 0, 1, 0, 0, 0, 50, 0, 0, 0, 50] ++ List.replicate 16 7 ++
    List.replicate 16 0 ++ (utf8 VirtualWebSocket.pingRequest).getD []

/-- A record, and what authenticates it. -/
def pingCiphertext : Bytes := pingRecord ++ List.replicate 16 0

/-- A connection whose records end in sixteen octets. -/
def tagged : Decrypt Unit := fun _ ciphertext => (some (ciphertext.take (ciphertext.length - 16)), ())

/-- A transport and its lease, with so many requests that the controller has not read. -/
def pingLink (unread : ℕ) : Link Unit where
  transport :=
    { channel := { connection := some () }
      attachment := 0
      reassembler := { channelId := some (List.replicate 16 7) } }
  lease := { Lease.pingLease with
    websocket := { VirtualWebSocket.pingSocket with
      inbound := List.replicate unread (.text VirtualWebSocket.pingRequest)
      inboundBytes := unread * 50 } }

def pingSurroundings : Surroundings := .standing 0 fun _ => false

theorem feeds_contained_iff_ping : Transition.Run
    (fun s label s' => s.Spares label s' ∧ Step tagged s label s') (pingLink 0)
    [(.feed pingSurroundings pingCiphertext, .fed (.ok true))]
    ((pingLink 0).feedCiphertext tagged pingSurroundings pingCiphertext).2 := by
  have hresult : ((pingLink 0).feedCiphertext tagged pingSurroundings pingCiphertext).1.toOption =
      some true := by
    decide +kernel
  have htext : (pingLink 0).completes tagged pingCiphertext = some VirtualWebSocket.pingRequest := by
    decide +kernel
  have hroom : (pingLink 0).lease.websocket.overflows (pingLink 0).lease.depths
      pingSurroundings.profileAuthorizer VirtualWebSocket.pingRequest = false := by
    decide +kernel
  refine (feeds_contained_iff ⟨rfl, Nat.zero_lt_one⟩).2 (.single ⟨?_, trivial, ?_⟩)
  · rintro ⟨text, htext', -, -, hfull⟩
    obtain rfl := Option.some.inj (htext.symm.trans htext')
    rw [hroom] at hfull
    cases hfull
  · rcases hfed : (pingLink 0).feedCiphertext tagged pingSurroundings pingCiphertext with ⟨result, u⟩
    rw [hfed] at hresult
    cases result with
    | error reason => cases hresult
    | ok delivered =>
      obtain rfl := Option.some.inj hresult
      simp only [perform, hfed]

/-- The controller has 256 requests to read, and the next one closes its websocket. -/
theorem backpressure_closes_controller : (pingLink 256).Opened ∧
    (pingLink 256).lease.websocket.closed = false ∧
    ¬ (pingLink 256).Contained
      ((pingLink 256).feedCiphertext tagged pingSurroundings pingCiphertext).1
      ((pingLink 256).feedCiphertext tagged pingSurroundings pingCiphertext).2 := by
  refine ⟨⟨rfl, Nat.zero_lt_one⟩, rfl, fun h => ?_⟩
  have hclosed : ((pingLink 256).feedCiphertext tagged pingSurroundings
      pingCiphertext).2.lease.websocket.closed = true := by
    decide +kernel
  have hsame := h.websocket
  rw [hclosed] at hsame
  cases hsame

end Link

end MercuryRelay
