/-
  The connector as a state machine: what is read from the host socket, what the
  users of the device connections do, and how sockets come and go.
-/
import MercuryRelay.Connector.State

set_option autoImplicit false

namespace MercuryRelay

open Python Transition

inductive ConnectorEvent where
  | start
  /-- `ws_connect` ended, well or not -/
  | connected (ok : Bool)
  | frame (frame : HostFrame)
  /-- `socket.recv` raised -/
  | recvFailed
  /-- the close notice of the read loop was sent, or not -/
  | noticeDone
  /-- the runner's `socket.close()` ended -/
  | dropped
  /-- the backoff is over -/
  | rested
  | runnerCancelled
  | accept
  | receive (c : ℕ)
  | receiveResume (c : ℕ)
  | receiveCancel (c : ℕ)
  | closeDevice (c : ℕ)
  | send (c : ℕ) (data : Bytes) (sender : Option ℕ) (now : ℚ) (waits : Bool)
  | sendResume (k : ℕ) (now : ℚ)
  | sendDone (k : ℕ) (ok : Bool) (now : ℚ)
  | sendCancel (k : ℕ)
  /-- the cancellation of a call of `send` is due -/
  | sendCancelled (k : ℕ)
  | close
  | closeResume (j : ℕ)
  | closeCancel (j : ℕ)

namespace Connector

variable (s : Connector)

/-- `HostedDeviceConnection.close`. -/
def deviceClose (c : ℕ) : Connector :=
  if s.connections[c]?.any (·.closed) then s else s.closeDevice c

/-- The socket that the runner reads. -/
def readingSocket : Option ℕ :=
  match s.runner with
  | .reading socket => some socket
  | _ => none

/-- The call of `send` with number `k` goes on with `f`. -/
def onSend (k : ℕ) (f : SendCall → Connector) : Connector := (s.sends[k]?.map f).getD s

def perform : ConnectorEvent → Connector
  | .start => if s.runner = .idle ∧ ¬ s.closed then { s with runner := .connecting } else s
  | .connected ok =>
    if ok then { s with socket := some s.sockets, sockets := s.sockets + 1, runner := .reading s.sockets }
    else { s with runner := .resting }
  | .frame frame => (s.readingSocket.map fun socket => s.readFrame socket frame).getD s
  | .recvFailed => (s.readingSocket.map fun socket => s.dropSocket socket false).getD s
  | .noticeDone =>
    match s.runner with
    | .closingDevice socket => { s with runner := .reading socket }
    | _ => s
  | .dropped =>
    match s.runner with
    | .dropping _ cancelled => s.runnerDropped cancelled
    | _ => s
  | .rested => { s with runner := if s.closed then .ended else .connecting }
  | .runnerCancelled => s.cancelRunner
  | .accept => { s with accepted := s.accepted.tail }
  | .receive c => s.modifyConnection c (·.receive.1)
  | .receiveResume c => s.modifyConnection c (·.receiveResume.1)
  | .receiveCancel c => s.modifyConnection c fun connection => { connection with receiving := false }
  | .closeDevice c => s.deviceClose c
  | .send c data sender now waits => s.send c data sender now waits
  | .sendResume k now => s.onSend k (s.sendResume k now)
  | .sendDone k ok now => s.onSend k (s.sendDone k ok now)
  | .sendCancel k => s.modifySend k fun call => { call with cancelling := call.cancelling || !call.isEnded }
  | .sendCancelled k => s.endSend k .cancelled
  | .close => s.close
  | .closeResume j =>
    match s.closes[j]? with
    | some .joining => s.closeSocket j
    | some .dropping => s.finishClose j
    | _ => s
  | .closeCancel j =>
    { s with
      closes := s.closes.set j .ended
      runnerCancelled := s.runnerCancelled || (s.closes[j]? = some .joining && s.runnerActive) }

/-- Where the runner waits, and it was not cancelled there. -/
def RunnerAt (p : RunnerPhase → Bool) : Prop := p s.runner = true ∧ s.runnerCancelled = false

instance (p : RunnerPhase → Bool) : Decidable (s.RunnerAt p) := by unfold RunnerAt; infer_instance

/-- When an event may happen; a device connection has one receiver. -/
def Enabled : ConnectorEvent → Prop
  | .start | .close | .closeDevice _ | .sendCancel _ | .receiveCancel _ => True
  | .connected _ => s.RunnerAt (· = .connecting)
  | .frame _ | .recvFailed => s.RunnerAt fun phase => match phase with | .reading _ => true | _ => false
  | .noticeDone => s.RunnerAt fun phase => match phase with | .closingDevice _ => true | _ => false
  | .dropped => s.RunnerAt fun phase => match phase with | .dropping _ _ => true | _ => false
  | .rested => s.RunnerAt (· = .resting)
  | .runnerCancelled => s.runnerCancelled = true ∧ s.runnerActive = true
  | .accept => s.accepted ≠ []
  | .receive c => ∃ connection ∈ s.connections[c]?, connection.receiving = false
  | .receiveResume c => ∃ connection ∈ s.connections[c]?, connection.receiving = true ∧ connection.inbound ≠ []
  | .send c _ _ _ waits => c < s.connections.length ∧ s.MayWait waits
  | .sendResume k _ => ∃ call ∈ s.sends[k]?, call.cancelling = false ∧
      (call.phase = .locking ∧ s.outboundLock = none ∨ call.phase = .pacing)
  | .sendDone k _ _ => ∃ call ∈ s.sends[k]?, call.cancelling = false ∧ call.phase = .sending
  | .sendCancelled k => ∃ call ∈ s.sends[k]?, call.cancelling = true ∧ call.isEnded = false
  | .closeResume j => s.closes[j]? = some .joining ∧ s.runnerActive = false ∨ s.closes[j]? = some .dropping
  | .closeCancel j => s.closes[j]? = some .joining ∨ s.closes[j]? = some .dropping

instance (e : ConnectorEvent) : Decidable (s.Enabled e) := by
  cases e <;> unfold Enabled <;> infer_instance

/-- One event happens. -/
def Step (s : Connector) (e : ConnectorEvent) (t : Connector) : Prop := s.Enabled e ∧ t = s.perform e

end Connector

end MercuryRelay
