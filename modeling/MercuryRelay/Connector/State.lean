/-
  The connector to the hosted relay (relay_client.py): one host socket, the device
  connections that it carries, and the calls that send on them.

  Connections, sockets and calls are known by number, in the order they are made.
-/
import Mathlib.Data.Rat.Defs
import MercuryRelay.Lib.Run
import MercuryRelay.Python.Dict
import MercuryRelay.Python.Json

set_option autoImplicit false

namespace MercuryRelay

open Python Transition

def maxControlFrameBytes : ℕ := 64
def connectionIdBytes : ℕ := 8
def inboundQueueLimit : ℕ := 64
def acceptQueueLimit : ℕ := 8
def maxHostFrameBytes : ℕ := 65535 + connectionIdBytes

/-- `HostedDeviceConnection`; no function reads the socket on which it was opened. -/
structure DeviceConnection where
  connectionId : Bytes
  openedOn : ℕ
  inbound : List (Option Bytes) := []
  closed : Bool := false
  /-- a call of `receive` waits -/
  receiving : Bool := false
  deriving DecidableEq

/-- How a call of `send` ends. -/
inductive SendResult where
  | sent | connectionError | cancelled
  deriving DecidableEq

/-- Where a call of `send` waits. -/
inductive SendPhase where
  /-- for `_outbound_lock` -/
  | locking
  /-- for the pacing sleep, with the lock -/
  | pacing
  /-- for `socket.send`, with the lock -/
  | sending
  | ended (result : SendResult)
  deriving DecidableEq

/-- A call of `send`, past its first check, and the socket that it found; no
    function reads who sends. -/
structure SendCall where
  connection : ℕ
  data : Bytes
  sender : Option ℕ := none
  socket : ℕ
  phase : SendPhase
  cancelling : Bool := false
  deriving DecidableEq

def SendCall.isEnded (call : SendCall) : Bool :=
  match call.phase with
  | .ended _ => true
  | _ => false

/-- What a host socket was given to send. -/
inductive Outgoing where
  | binary (call : ℕ) (socket : ℕ) (message : Bytes)
  | close (socket : ℕ) (connectionId : Bytes)
  deriving DecidableEq

/-- Where `_run` waits. -/
inductive RunnerPhase where
  /-- it was not started -/
  | idle
  | connecting
  | reading (socket : ℕ)
  /-- for the close notice that `_read_loop` sends -/
  | closingDevice (socket : ℕ)
  /-- for `socket.close()`, with an exception that ends it or not -/
  | dropping (socket : ℕ) (cancelled : Bool)
  | resting
  | ended
  deriving DecidableEq

/-- Where a call of `close` waits. -/
inductive ClosePhase where
  /-- for the runner -/
  | joining
  /-- for `socket.close()` -/
  | dropping
  | ended
  deriving DecidableEq

/-- `CloudflareRelayConnector`. -/
structure Connector where
  depths : JsonDepths := ⟨900, 900⟩
  /-- `_connections`, by connection id -/
  registered : Dict Bytes ℕ := []
  accepted : List (Option ℕ) := []
  socket : Option ℕ := none
  outboundNext : ℚ := 0
  closed : Bool := false
  runner : RunnerPhase := .idle
  runnerCancelled : Bool := false
  connections : List DeviceConnection := []
  sockets : ℕ := 0
  /-- the call that has `_outbound_lock` -/
  outboundLock : Option ℕ := none
  sends : List SendCall := []
  closes : List ClosePhase := []
  wire : List Outgoing := []

/-- A message that is read from the host socket. -/
inductive HostFrame where
  | control (message : Str)
  | binary (data : Bytes)
  deriving DecidableEq

inductive ControlKind where
  | open | close
  deriving DecidableEq

/-! ## Control frames -/

/-- The value of a hexadecimal digit. -/
def hexValue (c : ℕ) : Option ℕ :=
  if 48 ≤ c ∧ c ≤ 57 then some (c - 48)
  else if 97 ≤ c ∧ c ≤ 102 then some (c - 87)
  else if 65 ≤ c ∧ c ≤ 70 then some (c - 55)
  else none

/-- The blanks that `bytes.fromhex` skips. -/
def isHexBlank (c : ℕ) : Bool := c = 32 || (9 ≤ c && c ≤ 13)

/-- `bytes.fromhex`; `none` is its `ValueError`. -/
def fromHex : Str → Option Bytes
  | [] => some []
  | [c] => if isHexBlank c then some [] else none
  | c :: d :: rest =>
    if isHexBlank c then fromHex (d :: rest)
    else
      match hexValue c, hexValue d with
      | some top, some bottom => (fromHex rest).map (UInt8.ofNat (16 * top + bottom) :: ·)
      | _, _ => none

def controlKind : Option Json → Option ControlKind
  | some (.str kind) =>
    if kind = lit "open" then some .open else if kind = lit "close" then some .close else none
  | _ => none

/-- The connection id of a control frame. -/
def controlId : Option Json → Option Bytes
  | some (.str rawId) => if rawId.length ≠ 2 * connectionIdBytes then none else fromHex rawId
  | _ => none

/-- What a control frame says; `none` where `_handle_control` raises. -/
def parseControl (depths : JsonDepths) (message : Str) : Option (ControlKind × Bytes) :=
  if maxControlFrameBytes < message.length then none
  else
    match loadsStrict depths message with
    | some (.obj members) =>
      if ¬ ((members.map (·.1)).all fun key => key = lit "t" || key = lit "id") then none
      else
        match controlKind (Json.lookup members (lit "t")), controlId (Json.lookup members (lit "id")) with
        | some kind, some connectionId => some (kind, connectionId)
        | _, _ => none
    | _ => none

/-! ## Device connections -/

namespace DeviceConnection

variable (c : DeviceConnection)

/-- The inbound queue is full. -/
def isFull : Bool := inboundQueueLimit ≤ c.inbound.length

/-- `_inbound.put_nowait`; a full queue drops the item. -/
def put (item : Option Bytes) : DeviceConnection :=
  if c.isFull then c else { c with inbound := c.inbound ++ [item] }

/-- `_feed` of data: whether there was room. -/
def feed (data : Bytes) : DeviceConnection × Bool :=
  if c.closed then (c, true) else (c.put (some data), !c.isFull)

/-- `_mark_closed`. -/
def markClosed : DeviceConnection :=
  if c.closed then c else { c with closed := true }.put none

/-- The first item of the queue is taken. -/
def take : DeviceConnection × Option Bytes :=
  match c.inbound with
  | [] => (c, none)
  | item :: rest =>
    ({ c with inbound := rest, receiving := false, closed := c.closed || item.isNone }, item)

/-- What `receive` gives. -/
inductive Received where
  | data (data : Bytes)
  /-- the connection is closed -/
  | nothing
  | waits
  deriving DecidableEq

def Received.of : Option Bytes → Received
  | some message => .data message
  | none => .nothing

/-- `receive`, up to its first await. -/
def receive : DeviceConnection × Received :=
  if c.closed ∧ c.inbound = [] then (c, .nothing)
  else if c.inbound = [] then ({ c with receiving := true }, .waits)
  else (c.take.1, .of c.take.2)

/-- A call of `receive` that waits goes on. -/
def receiveResume : DeviceConnection × Received :=
  if c.inbound = [] then (c, .waits) else (c.take.1, .of c.take.2)

end DeviceConnection

/-! ## The connector -/

namespace Connector

variable (s : Connector)

def modifyConnection (c : ℕ) (f : DeviceConnection → DeviceConnection) : Connector :=
  { s with connections := s.connections.modify c f }

/-- A connection leaves the registry, if it is there under `connectionId`, and is
    marked closed. -/
def dropConnection (connectionId : Bytes) : Connector :=
  match s.registered.get connectionId with
  | none => s
  | some c => { s with registered := s.registered.remove connectionId } |>.modifyConnection c (·.markClosed)

/-- `_end_all_connections`. -/
def endAll : Connector :=
  { s with
    registered := []
    connections := s.connections.mapIdx fun c connection =>
      if c ∈ s.registered.map (·.2) then connection.markClosed else connection }

/-- The `finally` of `_run`, up to `socket.close()`. -/
def dropSocket (socket : ℕ) (cancelled : Bool) : Connector :=
  { s with socket := none, runner := .dropping socket cancelled }

/-- `_close_device`. -/
def closeDevice (c : ℕ) : Connector :=
  match s.connections[c]? with
  | none => s
  | some connection =>
    let s := s.modifyConnection c (·.markClosed)
    if s.registered.get connection.connectionId ≠ some c then s
    else
      { s with
        registered := s.registered.remove connection.connectionId
        wire := s.wire ++ (s.socket.map (Outgoing.close · connection.connectionId)).toList }

/-- A new connection is registered. -/
def register (socket : ℕ) (connectionId : Bytes) : Connector :=
  let connection : DeviceConnection := { connectionId := connectionId, openedOn := socket }
  { s with
    connections := s.connections ++ [connection]
    registered := s.registered.set connectionId s.connections.length }

/-- An `open` control frame; without room in the accept queue it raises. -/
def handleOpen (socket : ℕ) (connectionId : Bytes) : Connector :=
  let s := s.dropConnection connectionId
  let c := s.connections.length
  let s := s.register socket connectionId
  if acceptQueueLimit ≤ s.accepted.length then (s.dropConnection connectionId).dropSocket socket false
  else { s with accepted := s.accepted ++ [some c] }

/-- `_handle_control`. -/
def handleControl (socket : ℕ) (message : Str) : Connector :=
  match parseControl s.depths message with
  | none => s.dropSocket socket false
  | some (.open, connectionId) => s.handleOpen socket connectionId
  | some (.close, connectionId) => s.dropConnection connectionId

/-- A binary frame that `_read_loop` reads. -/
def handleBinary (socket : ℕ) (data : Bytes) : Connector :=
  if maxHostFrameBytes < data.length then s.dropSocket socket false
  else if data.length < connectionIdBytes then s.dropSocket socket false
  else
    match s.registered.get (data.take connectionIdBytes) with
    | none => s
    | some c =>
      match s.connections[c]? with
      | none => s
      | some connection =>
        let payload := data.drop connectionIdBytes
        let s := s.modifyConnection c fun connection => (connection.feed payload).1
        if (connection.feed payload).2 then s
        else
          let s := s.closeDevice c
          { s with runner := if s.socket.isSome then .closingDevice socket else .reading socket }

/-- `_read_loop` takes a message. -/
def readFrame (socket : ℕ) : HostFrame → Connector
  | .control message => s.handleControl socket message
  | .binary data => s.handleBinary socket data

/-! ### Sending -/

def modifySend (k : ℕ) (f : SendCall → SendCall) : Connector := { s with sends := s.sends.modify k f }

/-- A call of `send` ends; it gives back the lock if it has it. -/
def endSend (k : ℕ) (result : SendResult) : Connector :=
  { s with outboundLock := if s.outboundLock = some k then none else s.outboundLock }
    |>.modifySend k fun call => { call with phase := .ended result }

/-- The call may still send: its socket and its connection are the ones there are. -/
def MaySend (call : SendCall) : Prop :=
  s.socket = some call.socket ∧
    ∃ connection ∈ s.connections[call.connection]?, connection.closed = false ∧
      s.registered.get connection.connectionId = some call.connection

instance (call : SendCall) : Decidable (s.MaySend call) := by unfold MaySend; infer_instance

/-- The check after the sleep, and `socket.send` up to its first await. -/
def transmit (k : ℕ) (call : SendCall) : Connector :=
  if s.MaySend call then
    let connectionId := ((s.connections[call.connection]?).map (·.connectionId)).getD []
    { s with wire := s.wire ++ [Outgoing.binary k call.socket (connectionId ++ call.data)] }
      |>.modifySend k fun call => { call with phase := .sending }
  else s.endSend k .connectionError

/-- The call has the lock. -/
def lockedSend (k : ℕ) (now : ℚ) (call : SendCall) : Connector :=
  let s := { s with outboundLock := some k }
  if 0 < s.outboundNext - now then s.modifySend k fun call => { call with phase := .pacing }
  else s.transmit k call

/-- A new call may have to wait for the lock, or may get it at once: a call that is
    cancelled while it waits counts as a waiter or not. -/
def MayWait (waits : Bool) : Prop :=
  if waits then s.outboundLock.isSome ∨ ∃ call ∈ s.sends, call.phase = .locking
  else s.outboundLock = none ∧ ∀ call ∈ s.sends, call.phase = .locking → call.cancelling = true

instance (waits : Bool) : Decidable (s.MayWait waits) := by unfold MayWait; infer_instance

/-- A call of `send` that raises at once. -/
def refuseSend (c : ℕ) (data : Bytes) (sender : Option ℕ) : Connector :=
  { s with sends := s.sends ++ [{
      connection := c
      data := data
      sender := sender
      socket := s.socket.getD 0
      phase := .ended .connectionError }] }

/-- `send` and `_send_binary`, up to the first await. -/
def send (c : ℕ) (data : Bytes) (sender : Option ℕ) (now : ℚ) (waits : Bool) : Connector :=
  match s.connections[c]?, s.socket with
  | some connection, some socket =>
    if connection.closed ∨ s.registered.get connection.connectionId ≠ some c then s.refuseSend c data sender
    else
      let call : SendCall :=
        { connection := c, data := data, sender := sender, socket := socket, phase := .locking }
      let k := s.sends.length
      let t := { s with sends := s.sends ++ [call] }
      if waits then t else t.lockedSend k now call
  | _, _ => s.refuseSend c data sender

/-- When the next call may send, after one that sent a message of so many octets. -/
def pace (now : ℚ) (size : ℕ) : ℚ :=
  let calls : ℚ := 10 / (2000 * (9 / 10))
  let octets : ℚ := size * 10 / (25000000 * (9 / 10))
  now + max calls octets

/-- A call of `send` goes on: it gets the lock, or its sleep is over. -/
def sendResume (k : ℕ) (now : ℚ) (call : SendCall) : Connector :=
  match call.phase with
  | .locking => s.lockedSend k now call
  | .pacing => s.transmit k call
  | _ => s

/-- `socket.send` ended, well or not. -/
def sendDone (k : ℕ) (ok : Bool) (now : ℚ) (call : SendCall) : Connector :=
  if ok then { s with outboundNext := pace now (connectionIdBytes + call.data.length) }.endSend k .sent
  else s.endSend k .connectionError

/-! ### The runner, and `close` -/

/-- The runner is cancelled where it waits. -/
def cancelRunner : Connector :=
  let s := { s with runnerCancelled := false }
  match s.runner with
  | .reading socket | .closingDevice socket => s.dropSocket socket true
  | _ => { s with runner := .ended }

/-- The runner's `socket.close()` ended. -/
def runnerDropped (cancelled : Bool) : Connector :=
  { s.endAll with runner := if cancelled then .ended else .resting }

/-- `close`, past `_drop_socket`. -/
def finishClose (j : ℕ) : Connector :=
  let s := s.endAll
  { s with
    accepted := if acceptQueueLimit ≤ s.accepted.length then s.accepted else s.accepted ++ [none]
    closes := s.closes.set j .ended }

/-- `close`, past the runner. -/
def closeSocket (j : ℕ) : Connector :=
  if s.socket = none then s.finishClose j
  else { s with socket := none, closes := s.closes.set j .dropping }

/-- The runner may be waited for. -/
def runnerActive : Bool :=
  match s.runner with
  | .idle | .ended => false
  | _ => true

/-- `close`, up to its first await; the first call takes the runner along. -/
def close : Connector :=
  let first := s.closes = []
  let s := { s with closed := true, closes := s.closes ++ [ClosePhase.joining] }
  if first ∧ s.runnerActive then { s with runnerCancelled := true }
  else s.closeSocket (s.closes.length - 1)

end Connector

end MercuryRelay
