/-
  What a lease sends to its devices (controller_transport.py, `next_ciphertexts` and
  `pump_outbound`; session_lease.py, `register_outbound` and `_mark_detached`).

  A transport carries the texts of one attachment over one device connection.  A task
  runs `pump_outbound` for it, and is cancelled when the attachment is marked detached.
  Transports and tasks are known by number, in the order they are made.

  The senders of other leases are calls of `send` that nobody is named for.
-/
import MercuryRelay.Connector.Sends
import MercuryRelay.Lease.Transport

set_option autoImplicit false

namespace MercuryRelay

open Python Transition

/-- What `encrypt` of a Noise connection yields, and the connection after it; `none` where it
    raises. -/
abbrev Encrypt (σ : Type) := σ → Bytes → Option Bytes × σ

namespace NoiseChannel

variable {σ : Type}

/-- `encrypt`; `none` where it raises. -/
def encrypt (noise : Encrypt σ) (c : NoiseChannel σ) (plaintext : Bytes) : Option Bytes × NoiseChannel σ :=
  match c.connection with
  | none => (none, c)
  | some connection =>
    if c.closed then (none, c)
    else if ¬ c.handshakeFinished then (none, c)
    else if maxPlaintextRecordBytes < plaintext.length then (none, c)
    else
      match noise connection plaintext with
      | (none, _) => (none, c.close)
      | (some ciphertext, connection) =>
        if maxCiphertextRecordBytes < ciphertext.length then (none, c.close)
        else (some ciphertext, { c with connection := some connection })

/-- Records are encrypted in turn; what raises ends it. -/
def encryptAll (noise : Encrypt σ) : NoiseChannel σ → List Bytes → Option (List Bytes) × NoiseChannel σ
  | c, [] => (some [], c)
  | c, record :: records =>
    match c.encrypt noise record with
    | (none, c) => (none, c)
    | (some ciphertext, c) =>
      match encryptAll noise c records with
      | (none, c) => (none, c)
      | (some ciphertexts, c) => (some (ciphertext :: ciphertexts), c)

/-- The records of a text; `none` where `next_ciphertexts` has a `protocol_violation`. -/
def encryptText (noise : Encrypt σ) (c : NoiseChannel σ) (channelId messageId : Bytes) (text : Str) :
    Option (List Bytes) × NoiseChannel σ :=
  if messageId.length ≠ Framing.messageIdSize then (none, c)
  else
    match utf8 text with
    | none => (none, c)
    | some payload =>
      match Framing.encodeMessage channelId messageId payload Framing.kindHermesBytes Framing.flagsNone with
      | .error _ => (none, c)
      | .ok records => encryptAll noise c records

end NoiseChannel

/-- What `next_ciphertexts` makes of an exception of `next_text`. -/
def outboundReason : LeaseFault → TransportReason
  | .released => .leaseReleased
  | .session reason => if reason = "attachment_backpressure" then .backpressure else .channelClosed
  | _ => .localHermesUnavailable

/-- `EncryptedControllerTransport`: both sides, and the task that has `_send_lock`. -/
structure OutboundTransport (σ : Type) where
  side : ControllerTransport σ
  channelId : Bytes
  connection : ℕ
  sendLock : Option ℕ := none

/-- How `pump_outbound` ends. -/
inductive PumpResult where
  | cancelled
  /-- a `ControllerTransportError` -/
  | failed (reason : TransportReason)
  /-- what `send` raised -/
  | raised
  deriving DecidableEq

/-- Where a task that runs `pump_outbound` waits. -/
inductive PumpPhase where
  /-- it did not start -/
  | created
  /-- for `_send_lock` -/
  | locking
  /-- for the wakeup of `next_text`, with the lock -/
  | waking
  /-- for a call of `send`, with the ciphertexts that are left -/
  | sending (call : ℕ) (rest : List Bytes)
  | ended (result : PumpResult)
  deriving DecidableEq

structure OutboundPump where
  transport : ℕ
  phase : PumpPhase := .created
  /-- it is in `_outbound_tasks` -/
  registered : Bool := false
  cancelling : Bool := false
  deriving DecidableEq

def OutboundPump.isEnded (pump : OutboundPump) : Bool :=
  match pump.phase with
  | .ended _ => true
  | _ => false

/-- A lease, the connector, and what carries the one over the other. -/
structure Outbound (σ : Type) where
  lease : Lease
  connector : Connector
  transports : List (OutboundTransport σ) := []
  pumps : List OutboundPump := []

/-- The functions of a Noise connection. -/
structure NoiseFunctions (σ : Type) where
  encrypt : Encrypt σ
  decrypt : Decrypt σ

/-- What a task meets when it goes on: the message id that is made, the time, and whether
    it has to wait for `_send_lock` and for `_outbound_lock`. -/
structure Turn where
  messageId : Bytes
  now : ℚ
  lockWaits : Bool := false
  sendWaits : Bool := false

namespace Outbound

variable {σ : Type} (s : Outbound σ)

/-- The attachment of a task. -/
def attachmentOf (p : ℕ) : Option ℕ :=
  s.pumps[p]?.bind fun pump => s.transports[pump.transport]?.map (·.side.attachment)

/-- The attachment is marked detached, or the lease is released. -/
def Gone (a : ℕ) : Prop := (s.lease.heap a).detached = true ∨ s.lease.released = true

instance (a : ℕ) : Decidable (s.Gone a) := by unfold Gone; infer_instance

def modifyTransport (t : ℕ) (f : OutboundTransport σ → OutboundTransport σ) : Outbound σ :=
  { s with transports := s.transports.modify t f }

def modifyPump (p : ℕ) (f : OutboundPump → OutboundPump) : Outbound σ := { s with pumps := s.pumps.modify p f }

def onTransport (t : ℕ) (f : OutboundTransport σ → Outbound σ) : Outbound σ := (s.transports[t]?.map f).getD s

/-! ### Cancellation -/

/-- Tasks are cancelled, with the calls of `send` that they await. -/
def cancelTasks (f : ℕ → Bool) : Outbound σ :=
  { s with
    pumps := s.pumps.mapIdx fun p pump => { pump with cancelling := pump.cancelling || !pump.isEnded && f p }
    connector := { s.connector with sends := s.connector.sends.map fun call =>
      { call with cancelling := call.cancelling || !call.isEnded && call.sender.any f } } }

/-- The task is registered, and its attachment is marked detached with this change of the lease. -/
def loses (lease : Lease) (p : ℕ) : Bool :=
  s.pumps[p]?.any (·.registered) &&
    (s.attachmentOf p).any fun a => !(s.lease.heap a).detached && (lease.heap a).detached

/-- The lease changes.  `_mark_detached` cancels the tasks of an attachment; one that was
    marked before has none. -/
def withLease (lease : Lease) : Outbound σ := { s.cancelTasks (s.loses lease) with lease := lease }

/-- A transport and the lease change. -/
def withLink (t : ℕ) (link : Link σ) : Outbound σ :=
  (s.withLease link.lease).modifyTransport t fun x => { x with side := link.transport }

/-- `close` of a transport. -/
def closeTransport (t : ℕ) (reason : DetachReason) : Outbound σ :=
  s.onTransport t fun x => s.withLink t ((Link.mk x.side s.lease).close reason)

/-! ### The task -/

def setPhase (p : ℕ) (phase : PumpPhase) : Outbound σ := s.modifyPump p fun pump => { pump with phase := phase }

/-- `_send_lock` is given back, if the task has it. -/
def unlock (p : ℕ) : Outbound σ :=
  { s with transports := s.transports.map fun x =>
      { x with sendLock := if x.sendLock = some p then none else x.sendLock } }

/-- The task ends. -/
def endPump (p : ℕ) (result : PumpResult) : Outbound σ :=
  (s.unlock p).modifyPump p fun pump => { pump with phase := .ended result, registered := false }

/-- The task raises what `_fail` made; the task that runs is not cancelled with the others. -/
def failPump (p t : ℕ) (reason : TransportReason) : Outbound σ :=
  (s.endPump p (.failed reason)).closeTransport t reason.detach

/-- A `CancelledError` reaches `pump_outbound`. -/
def interrupt (p t : ℕ) : Outbound σ :=
  s.onTransport t fun x =>
    if s.lease.released then s.failPump p t .leaseReleased
    else if (s.lease.heap x.side.attachment).detached then s.failPump p t .channelClosed
    else s.endPump p .cancelled

/-- A call of `send`, up to its first await. -/
def callSend (p : ℕ) (connection : ℕ) (ciphertext : Bytes) (rest : List Bytes) (turn : Turn) : Outbound σ :=
  { s with connector := s.connector.send connection ciphertext (some p) turn.now turn.sendWaits }
    |>.setPhase p (.sending s.connector.sends.length rest)

/-- One turn of the inner loop. -/
def publish (p t : ℕ) (turn : Turn) (ciphertext : Bytes) (rest : List Bytes) : Outbound σ :=
  s.onTransport t fun x =>
    if s.Gone x.side.attachment then s.failPump p t .channelClosed
    else if x.side.closed ∨ x.side.channel.closed then s.failPump p t .channelClosed
    else s.callSend p x.connection ciphertext rest turn

/-- The ciphertexts of a text are published; there is always one. -/
def publishAll (p t : ℕ) (turn : Turn) : List Bytes → Outbound σ
  | [] => s.setPhase p .locking
  | ciphertext :: rest => s.publish p t turn ciphertext rest

/-- A text is encrypted. -/
def encryptText (noise : NoiseFunctions σ) (p t : ℕ) (turn : Turn) (text : Str) : Outbound σ :=
  s.onTransport t fun x =>
    match x.side.channel.encryptText noise.encrypt x.channelId turn.messageId text with
    | (none, channel) =>
      (s.modifyTransport t fun x => { x with side := { x.side with channel := channel } }).failPump p t
        .protocolViolation
    | (some ciphertexts, channel) =>
      (s.modifyTransport t fun x => { x with side := { x.side with channel := channel } }).unlock p
        |>.publishAll p t turn ciphertexts

/-- `next_text` goes on. -/
def takeText (noise : NoiseFunctions σ) (p t : ℕ) (turn : Turn) : Outbound σ :=
  s.onTransport t fun x =>
    match s.lease.nextText x.side.attachment with
    | (lease, .error fault) => (s.withLease lease).failPump p t (outboundReason fault)
    | (lease, .ok none) => (s.withLease lease).setPhase p .waking
    | (lease, .ok (some item)) => (s.withLease lease).encryptText noise p t turn item.text

/-- `next_ciphertexts`, with the lock. -/
def readText (noise : NoiseFunctions σ) (p t : ℕ) (turn : Turn) : Outbound σ :=
  s.onTransport t fun x =>
    if x.side.closed ∨ x.side.channel.closed then s.failPump p t .channelClosed
    else (s.modifyTransport t fun x => { x with sendLock := some p }).takeText noise p t turn

/-- `next_ciphertexts`. -/
def nextCiphertexts (noise : NoiseFunctions σ) (p t : ℕ) (turn : Turn) : Outbound σ :=
  if turn.lockWaits then s.setPhase p .locking else s.readText noise p t turn

/-- `pump_outbound`; a task that is registered goes on at once. -/
def startPump (noise : NoiseFunctions σ) (p t : ℕ) (turn : Turn) : Outbound σ :=
  s.onTransport t fun x =>
    if s.Gone x.side.attachment then s.failPump p t .channelClosed
    else
      (s.modifyPump p fun pump => { pump with phase := .locking, registered := true }).nextCiphertexts noise p t turn

/-- A call of `send` ended, and `pump_outbound` goes on. -/
def afterSend (noise : NoiseFunctions σ) (p t : ℕ) (turn : Turn) (rest : List Bytes) : SendResult → Outbound σ
  | .cancelled => s.interrupt p t
  | .connectionError => s.endPump p .raised
  | .sent =>
    match rest with
    | [] => s.nextCiphertexts noise p t turn
    | ciphertext :: rest => s.publish p t turn ciphertext rest

/-- How the call with number `k` ended. -/
def sendResult (k : ℕ) : Option SendResult :=
  s.connector.sends[k]?.bind fun call =>
    match call.phase with
    | .ended result => some result
    | _ => none

/-- The task goes on; one that was cancelled where it waits has a `CancelledError`. -/
def resume (noise : NoiseFunctions σ) (p : ℕ) (turn : Turn) (pump : OutboundPump) : Outbound σ :=
  let t := pump.transport
  match pump.phase with
  | .created => if pump.cancelling then s.endPump p .cancelled else s.startPump noise p t turn
  | .locking => if pump.cancelling then s.interrupt p t else s.readText noise p t turn
  | .waking => if pump.cancelling then s.interrupt p t else s.takeText noise p t turn
  | .sending k rest =>
    match s.sendResult k with
    | none => s
    | some result => if pump.cancelling then s.interrupt p t else s.afterSend noise p t turn rest result
  | .ended _ => s

/-! ### Events -/

/-- What happens to the lease, to the connector, and to what lies between. -/
inductive Event (σ : Type) where
  | lease (e : LeaseEvent)
  | connector (e : ConnectorEvent)
  /-- a transport is made for an attachment -/
  | bind (channel : NoiseChannel σ) (channelId : Bytes) (attachment connection : ℕ)
  /-- a record arrives -/
  | feed (t : ℕ) (env : Surroundings) (ciphertext : Bytes)
  | close (t : ℕ) (reason : DetachReason)
  /-- a task is made that runs `pump_outbound` -/
  | pump (t : ℕ)
  | resume (p : ℕ) (turn : Turn)
  | cancel (p : ℕ)

def perform (noise : NoiseFunctions σ) : Event σ → Outbound σ
  | .lease e => s.withLease (s.lease.perform e).1
  | .connector e => { s with connector := s.connector.perform e }
  | .bind channel channelId attachment connection =>
    { s with transports := s.transports ++ [{
        side := { channel := channel, attachment := attachment, reassembler := { channelId := some channelId } }
        channelId := channelId
        connection := connection }] }
  | .feed t env ciphertext =>
    s.onTransport t fun x => s.withLink t ((Link.mk x.side s.lease).feedCiphertext noise.decrypt env ciphertext).2
  | .close t reason => s.closeTransport t reason
  | .pump t => { s with pumps := s.pumps ++ [{ transport := t }] }
  | .resume p turn => (s.pumps[p]?.map (s.resume noise p turn)).getD s
  | .cancel p => s.cancelTasks (· = p)

/-- A task may have to wait for `_send_lock`, or may get it at once: one that is cancelled
    while it waits counts as a waiter or not. -/
def MayWait (t : ℕ) (waits : Bool) : Prop :=
  if waits then s.transports[t]?.any (·.sendLock.isSome) ∨
    ∃ pump ∈ s.pumps, pump.transport = t ∧ pump.phase = .locking
  else s.transports[t]?.all (·.sendLock.isNone) ∧
    ∀ pump ∈ s.pumps, pump.transport = t → pump.phase = .locking → pump.cancelling = true

instance (t : ℕ) (waits : Bool) : Decidable (s.MayWait t waits) := by unfold MayWait; infer_instance

/-- Where a task waits, it may go on. -/
def MayResume (pump : OutboundPump) : Prop :=
  match pump.phase with
  | .created => True
  | .locking => pump.cancelling = true ∨ s.transports[pump.transport]?.all (·.sendLock.isNone)
  -- a wakeup that finds no text waits again
  | .waking => True
  | .sending k _ => (s.sendResult k).isSome
  | .ended _ => False

instance (pump : OutboundPump) : Decidable (s.MayResume pump) := by
  unfold MayResume
  split <;> infer_instance

/-- The calls of `send` of a task are made and cancelled with it. -/
def IsForeign : ConnectorEvent → Prop
  | .send _ _ sender _ _ => sender = none
  | .sendCancel k => ∀ call ∈ s.connector.sends[k]?, call.sender = none
  | _ => True

instance : (e : ConnectorEvent) → Decidable (s.IsForeign e)
  | .send _ _ sender _ _ => inferInstanceAs (Decidable (sender = none))
  | .sendCancel k => inferInstanceAs (Decidable (∀ call ∈ s.connector.sends[k]?, call.sender = none))
  | .start | .connected _ | .frame _ | .recvFailed | .noticeDone | .dropped | .rested | .runnerCancelled | .accept
  | .receive _ | .receiveResume _ | .receiveCancel _ | .closeDevice _ | .sendResume .. | .sendDone ..
  | .sendCancelled _ | .close | .closeResume _ | .closeCancel _ => inferInstanceAs (Decidable True)

/-- When an event may happen. -/
def Enabled : Event σ → Prop
  | .lease e => s.lease.Enabled e
  | .connector e => s.IsForeign e ∧ s.connector.Enabled e
  | .bind channel channelId attachment connection =>
    attachment < s.lease.opened ∧ connection < s.connector.connections.length ∧
      channel.handshakeFinished = true ∧ channelId.length = Framing.channelIdSize
  | .feed t _ _ | .close t _ | .pump t => t < s.transports.length
  | .resume p turn => ∃ pump ∈ s.pumps[p]?, s.MayResume pump ∧ s.MayWait pump.transport turn.lockWaits ∧
      s.connector.MayWait turn.sendWaits
  | .cancel p => p < s.pumps.length

instance (e : Event σ) : Decidable (s.Enabled e) := by
  cases e <;> unfold Enabled <;> infer_instance

/-- One event happens. -/
def Step (noise : NoiseFunctions σ) (s : Outbound σ) (e : Event σ) (t : Outbound σ) : Prop :=
  s.Enabled e ∧ t = s.perform noise e

/-- A lease and a connector of which nothing has happened yet. -/
structure Fresh (s : Outbound σ) : Prop where
  lease : s.lease.Fresh
  connector : ∃ depths : JsonDepths, s.connector = { depths := depths }
  transports : s.transports = []
  pumps : s.pumps = []

/-- The message is a ciphertext that a task of the attachment sends. -/
def isFor (a : ℕ) : Outgoing → Bool
  | .binary k _ _ => ((s.connector.sends[k]?.bind (·.sender)).bind s.attachmentOf) = some a
  | .close _ _ => false

/-- What the host socket was handed for an attachment, in order. -/
def published (a : ℕ) : List Outgoing := s.connector.wire.filter (s.isFor a)

/-- The calls of `send` that a task made. -/
def callsOf (p : ℕ) : List SendCall := s.connector.sends.filter (·.sender = some p)

end Outbound

end MercuryRelay
