/-
  What becomes of the calls that send on a device connection, and of a connection
  that ends.

  * `callsKept_step`: a call that was sent has its message on the wire of its socket;
  * `over_of_closed`, `not_over_of_open`: a receiver drains its queue and then gets
    nothing once its connection is closed, and may wait as long as it is open;
  * `host_socket_demux`: these together, with what the receivers got.
-/
import MercuryRelay.Connector.Demux
import MercuryRelay.Connector.Isolation

set_option autoImplicit false

namespace MercuryRelay

open Python Transition

namespace Connector

variable {s t u : Connector} {c d k : ℕ} {e : ConnectorEvent} {x : Bytes} {socket : ℕ}

/-! ## Open connections are registered -/

/-- Every open connection is registered under its id. -/
def Listed (s : Connector) : Prop :=
  ∀ (c : ℕ) (connection : DeviceConnection), s.connections[c]? = some connection → connection.closed = false →
    s.registered.get connection.connectionId = some c

theorem Listed.congr (h : s.Listed) (hregistered : t.registered = s.registered)
    (hconnections : ∀ (c : ℕ) (connection : DeviceConnection), t.connections[c]? = some connection →
      connection.closed = false → ∃ old, s.connections[c]? = some old ∧ old.closed = false ∧
        old.connectionId = connection.connectionId) : t.Listed := by
  intro c connection hc hopen
  obtain ⟨old, hold, hopen', hid⟩ := hconnections c connection hc hopen
  rw [hregistered, ← hid]
  exact h c old hold hopen'

theorem Listed.of_eq (h : s.Listed) (hregistered : t.registered = s.registered)
    (hconnections : t.connections = s.connections) : t.Listed :=
  h.congr hregistered fun _ connection hc hopen => ⟨connection, hconnections ▸ hc, hopen, rfl⟩

/-- A connection changes, and does not open again. -/
theorem Listed.modifyConnection (h : s.Listed) {f : DeviceConnection → DeviceConnection}
    (hf : ∀ other, (f other).connectionId = other.connectionId ∧ (other.closed = true → (f other).closed = true)) :
    (s.modifyConnection c f).Listed := by
  refine h.congr rfl fun d connection hd hopen => ?_
  rw [modifyConnection_getElem] at hd
  obtain ⟨old, hold, rfl⟩ := Option.map_eq_some_iff.1 hd
  refine ⟨old, hold, ?_⟩
  split at hopen
  · rename_i hcd
    rw [if_pos hcd, (hf old).1]
    refine ⟨?_, rfl⟩
    by_contra hne
    rw [(hf old).2 (by simpa using hne)] at hopen
    cases hopen
  · rename_i hcd
    rw [if_neg hcd]
    exact ⟨hopen, rfl⟩

/-- A connection is marked closed, and leaves the registry if it is there. -/
theorem Listed.closes (h : s.Listed) {registered : Dict Bytes ℕ}
    (hkeeps : ∀ y d, d ≠ c → s.registered.get y = some d → registered.get y = some d) :
    Listed (Connector.modifyConnection { s with registered := registered } c (·.markClosed)) := by
  intro d other hd hopen
  rw [modifyConnection_getElem] at hd
  obtain ⟨old, hold, rfl⟩ := Option.map_eq_some_iff.1 hd
  split at hopen
  · rw [DeviceConnection.markClosed_closed] at hopen
    cases hopen
  · rename_i hcd
    rw [if_neg hcd]
    exact hkeeps _ d (Ne.symm hcd) (h d old hold hopen)

theorem Listed.dropConnection (h : s.Listed) (x : Bytes) : (s.dropConnection x).Listed := by
  unfold Connector.dropConnection
  split
  · exact h
  · rename_i c hc
    refine h.closes fun y d hne hd => ?_
    rw [Dict.get_remove, if_neg]
    · exact hd
    · rintro rfl
      exact hne (Option.some.inj (hd.symm.trans hc))

theorem Listed.closeDevice (h : s.Listed) (c : ℕ) : (s.closeDevice c).Listed := by
  unfold Connector.closeDevice
  split
  · exact h
  · rename_i connection hconnection
    dsimp only
    split
    · exact h.closes fun _ _ _ hd => hd
    · rename_i hget
      have hget : s.registered.get connection.connectionId = some c := by
        by_contra hne
        exact hget hne
      have hkeeps : ∀ y d, d ≠ c → s.registered.get y = some d →
          (s.registered.remove connection.connectionId).get y = some d := by
        intro y d hne hd
        rw [Dict.get_remove, if_neg]
        · exact hd
        · rintro rfl
          exact hne (Option.some.inj (hd.symm.trans hget))
      exact (h.closes hkeeps).of_eq rfl rfl

theorem Listed.endAll (h : s.Listed) : s.endAll.Listed := by
  intro c connection hc hopen
  rw [endAll_getElem] at hc
  obtain ⟨old, hold, rfl⟩ := Option.map_eq_some_iff.1 hc
  split at hopen
  · rw [DeviceConnection.markClosed_closed] at hopen
    cases hopen
  · rename_i hnot
    exact absurd (List.mem_map.2 ⟨_, Dict.get_mem (h c old hold hopen), rfl⟩) hnot

theorem Listed.register (h : s.Listed) (hgone : s.registered.get x = none) : (s.register socket x).Listed := by
  intro c connection hc hopen
  have hc : (s.connections ++ [({ connectionId := x, openedOn := socket } : DeviceConnection)])[c]? =
    some connection := hc
  show (s.registered.set x s.connections.length).get connection.connectionId = some c
  rw [Dict.get_set]
  rw [List.getElem?_append] at hc
  split at hc
  · have hold := h c connection hc hopen
    split
    · rename_i hx
      rw [← hx, hgone] at hold
      cases hold
    · exact hold
  · rename_i hlt
    have hlen : c - s.connections.length = 0 := by
      by_contra hne
      obtain ⟨n, hn⟩ := Nat.exists_eq_succ_of_ne_zero hne
      rw [hn] at hc
      cases hc
    rw [hlen] at hc
    obtain rfl := Option.some.inj hc
    rw [if_pos rfl]
    congr 1
    omega

theorem dropConnection_gone : (s.dropConnection x).registered.get x = none := by
  unfold Connector.dropConnection
  split
  · assumption
  · show (s.registered.remove x).get x = none
    rw [Dict.get_remove, if_pos rfl]

theorem Listed.handleOpen (h : s.Listed) (x : Bytes) : (s.handleOpen socket x).Listed := by
  have hregistered := @Listed.register _ _ socket (h.dropConnection x) dropConnection_gone
  unfold Connector.handleOpen
  dsimp only
  split
  · exact (hregistered.dropConnection x).of_eq rfl rfl
  · exact hregistered.of_eq rfl rfl

theorem Listed.handleBinary (h : s.Listed) (data : Bytes) : (s.handleBinary socket data).Listed := by
  unfold Connector.handleBinary
  split
  · exact h.of_eq rfl rfl
  split
  · exact h.of_eq rfl rfl
  split
  · exact h
  split
  · exact h
  dsimp only
  rename_i c _ _ _ _
  have hfed : (s.modifyConnection c fun other => (other.feed (data.drop connectionIdBytes)).1).Listed := by
    refine h.modifyConnection fun other => ⟨(DeviceConnection.feed_keeps _ other).1, fun hclosed => ?_⟩
    rw [DeviceConnection.feed, if_pos hclosed]
    exact hclosed
  split
  · exact hfed
  · exact (hfed.closeDevice c).of_eq rfl rfl

theorem Listed.closeSocket (h : s.Listed) (j : ℕ) : (s.closeSocket j).Listed := by
  unfold Connector.closeSocket
  split
  · exact h.endAll.of_eq rfl rfl
  · exact h.of_eq rfl rfl

theorem onSend_cases (k : ℕ) (f : SendCall → Connector) :
    s.onSend k f = s ∨ ∃ call, s.sends[k]? = some call ∧ s.onSend k f = f call := by
  unfold onSend
  cases hcall : s.sends[k]? with
  | none => exact .inl rfl
  | some call => exact .inr ⟨call, rfl, rfl⟩

theorem transmit_registered (call : SendCall) : (s.transmit k call).registered = s.registered := by
  unfold transmit
  split <;> rfl

theorem lockedSend_registered (now : ℚ) (call : SendCall) : (s.lockedSend k now call).registered = s.registered := by
  unfold lockedSend
  dsimp only
  split
  · rfl
  · exact transmit_registered call

theorem send_registered (data : Bytes) (sender : Option ℕ) (now : ℚ) (waits : Bool) :
    (s.send c data sender now waits).registered = s.registered := by
  unfold send
  split
  · split
    · rfl
    · dsimp only
      split
      · rfl
      · exact lockedSend_registered now _
  · rfl

theorem listed_step (h : s.Listed) (hs : Step s e t) : t.Listed := by
  obtain ⟨-, rfl⟩ := hs
  cases e with
  | start =>
    simp only [perform]
    split <;> exact h.of_eq rfl rfl
  | connected ok =>
    simp only [perform]
    split <;> exact h.of_eq rfl rfl
  | frame frame =>
    simp only [perform]
    cases s.readingSocket with
    | none => exact h
    | some socket =>
      cases frame with
      | binary data => exact h.handleBinary data
      | control message =>
        show (s.handleControl socket message).Listed
        unfold handleControl
        split
        · exact h.of_eq rfl rfl
        · exact h.handleOpen _
        · exact h.dropConnection _
  | recvFailed =>
    simp only [perform]
    cases s.readingSocket <;> exact h.of_eq rfl rfl
  | noticeDone =>
    simp only [perform]
    split <;> exact h.of_eq rfl rfl
  | dropped =>
    simp only [perform]
    split
    · exact h.endAll.of_eq rfl rfl
    · exact h
  | rested => exact h.of_eq rfl rfl
  | runnerCancelled =>
    simp only [perform, cancelRunner]
    split <;> exact h.of_eq rfl rfl
  | accept => exact h.of_eq rfl rfl
  | receive c =>
    exact h.modifyConnection fun other => ⟨(DeviceConnection.receive_keeps other).1, (receive_payload other).2⟩
  | receiveResume c =>
    exact h.modifyConnection fun other =>
      ⟨(DeviceConnection.receiveResume_keeps other).1, (receiveResume_payload other).2⟩
  | receiveCancel c => exact h.modifyConnection fun _ => ⟨rfl, id⟩
  | closeDevice c =>
    simp only [perform, deviceClose]
    split
    · exact h
    · exact h.closeDevice c
  | send c data sender now waits =>
    exact h.of_eq (send_registered data sender now waits) (send_connections data sender now waits)
  | sendResume k now =>
    rcases onSend_cases (s := s) k (s.sendResume k now) with hsame | ⟨call, -, hcall⟩
    · simp only [perform, hsame]
      exact h
    · simp only [perform, hcall]
      unfold sendResume
      split
      · exact h.of_eq (lockedSend_registered now call) (lockedSend_connections now call)
      · exact h.of_eq (transmit_registered call) (transmit_connections call)
      · exact h
  | sendDone k ok now =>
    rcases onSend_cases (s := s) k (s.sendDone k ok now) with hsame | ⟨call, -, hcall⟩
    · simp only [perform, hsame]
      exact h
    · simp only [perform, hcall]
      unfold sendDone
      split <;> exact h.of_eq rfl rfl
  | sendCancel k => exact h.of_eq rfl rfl
  | sendCancelled k => exact h.of_eq rfl rfl
  | close =>
    have hclosed : ∀ closes, Listed { s with closed := true, closes := closes } := fun _ => h.of_eq rfl rfl
    simp only [perform, close]
    split
    · exact h.of_eq rfl rfl
    · exact (hclosed _).closeSocket _
  | closeResume j =>
    simp only [perform]
    split
    · exact h.closeSocket j
    · exact h.endAll.of_eq rfl rfl
    · exact h
  | closeCancel j => exact h.of_eq rfl rfl

/-! ## The runner ends only when the connector is closed -/

/-- Whatever a call of `close` brought about, the connector is closed. -/
structure Shut (s : Connector) : Prop where
  calls : s.closes ≠ [] → s.closed = true
  cancelled : s.runnerCancelled = true → s.closed = true
  dropping : ∀ socket, s.runner = .dropping socket true → s.closed = true
  ended : s.runner = .ended → s.closed = true

/-- The parts of the state that say how far a shutdown is. -/
def shutdown (s : Connector) : List ClosePhase × Bool × Bool := (s.closes, s.runnerCancelled, s.closed)

theorem Shut.of_same (h : s.Shut) (hsame : t.shutdown = s.shutdown) (hrunner : t.runner = s.runner ∨
    (∀ socket, t.runner ≠ .dropping socket true) ∧ t.runner ≠ .ended) : t.Shut := by
  simp only [shutdown, Prod.mk.injEq] at hsame
  obtain ⟨hcloses, hcancelled, hclosed⟩ := hsame
  refine ⟨?_, ?_, fun socket hr => ?_, fun hr => ?_⟩
  · rw [hcloses, hclosed]
    exact h.calls
  · rw [hcancelled, hclosed]
    exact h.cancelled
  · rw [hclosed]
    rcases hrunner with heq | ⟨hne, -⟩
    · exact h.dropping socket (heq ▸ hr)
    · exact absurd hr (hne socket)
  · rw [hclosed]
    rcases hrunner with heq | ⟨-, hne⟩
    · exact h.ended (heq ▸ hr)
    · exact absurd hr hne

theorem Shut.of_closed (h : t.closed = true) : t.Shut := ⟨fun _ => h, fun _ => h, fun _ _ => h, fun _ => h⟩

theorem dropConnection_shutdown : (s.dropConnection x).shutdown = s.shutdown := by
  unfold dropConnection
  split <;> rfl

theorem closeDevice_shutdown : (s.closeDevice c).shutdown = s.shutdown := by
  unfold closeDevice
  split
  · rfl
  · dsimp only
    split <;> rfl

/-- A shutdown is as far as it was, and the runner waits elsewhere than where one
    leads. -/
def Undisturbed (s t : Connector) : Prop :=
  t.shutdown = s.shutdown ∧ (∀ other, t.runner ≠ .dropping other true) ∧ t.runner ≠ .ended

theorem dropSocket_undisturbed (h : t.shutdown = s.shutdown) : Undisturbed s (t.dropSocket socket false) :=
  ⟨h, by simp [dropSocket], by simp [dropSocket]⟩

theorem Undisturbed.of_reading (h : t.shutdown = s.shutdown) (hr : t.runner = .reading socket) : Undisturbed s t :=
  ⟨h, by simp [hr], by simp [hr]⟩

theorem handleBinary_undisturbed (data : Bytes) (hr : s.runner = .reading socket) :
    Undisturbed s (s.handleBinary socket data) := by
  unfold handleBinary
  split
  · exact dropSocket_undisturbed rfl
  split
  · exact dropSocket_undisturbed rfl
  split
  · exact .of_reading rfl hr
  split
  · exact .of_reading rfl hr
  dsimp only
  split
  · exact .of_reading rfl hr
  · refine ⟨closeDevice_shutdown (s := s.modifyConnection _ _), fun other => ?_, ?_⟩
    · dsimp only
      split <;> simp
    · dsimp only
      split <;> simp

theorem handleControl_undisturbed (message : Str) (hr : s.runner = .reading socket) :
    Undisturbed s (s.handleControl socket message) := by
  unfold handleControl
  split
  · exact dropSocket_undisturbed rfl
  · rename_i x _
    have hregistered : ((s.dropConnection x).register socket x).shutdown = s.shutdown := dropConnection_shutdown
    unfold handleOpen
    dsimp only
    split
    · exact dropSocket_undisturbed (dropConnection_shutdown.trans hregistered)
    · exact .of_reading hregistered (dropConnection_runner.trans hr)
  · exact .of_reading dropConnection_shutdown (dropConnection_runner.trans hr)

theorem transmit_shutdown (call : SendCall) :
    (s.transmit k call).shutdown = s.shutdown ∧ (s.transmit k call).runner = s.runner := by
  unfold transmit
  split <;> exact ⟨rfl, rfl⟩

theorem lockedSend_shutdown (now : ℚ) (call : SendCall) :
    (s.lockedSend k now call).shutdown = s.shutdown ∧ (s.lockedSend k now call).runner = s.runner := by
  unfold lockedSend
  dsimp only
  split
  · exact ⟨rfl, rfl⟩
  · exact transmit_shutdown call

theorem send_shutdown (data : Bytes) (sender : Option ℕ) (now : ℚ) (waits : Bool) :
    (s.send c data sender now waits).shutdown = s.shutdown ∧
      (s.send c data sender now waits).runner = s.runner := by
  unfold send
  split
  · split
    · exact ⟨rfl, rfl⟩
    · dsimp only
      split
      · exact ⟨rfl, rfl⟩
      · exact lockedSend_shutdown now _
  · exact ⟨rfl, rfl⟩

theorem closeSocket_closed (j : ℕ) : (s.closeSocket j).closed = s.closed := by
  unfold closeSocket
  split <;> rfl

theorem shut_step (h : s.Shut) (hs : Step s e t) : t.Shut := by
  obtain ⟨hen, rfl⟩ := hs
  cases e with
  | start =>
    simp only [perform]
    split
    · exact h.of_same rfl (.inr ⟨by simp, by simp⟩)
    · exact h
  | connected ok =>
    simp only [perform]
    split <;> exact h.of_same rfl (.inr ⟨by simp, by simp⟩)
  | frame frame =>
    obtain ⟨socket, hr⟩ := reads_of_enabled hen
    have hreading := readingSocket_eq.1 hr
    simp only [perform, hr]
    cases frame with
    | control message =>
      obtain ⟨hsame, hrunner⟩ := handleControl_undisturbed message hreading
      exact h.of_same hsame (.inr hrunner)
    | binary data =>
      obtain ⟨hsame, hrunner⟩ := handleBinary_undisturbed data hreading
      exact h.of_same hsame (.inr hrunner)
  | recvFailed =>
    simp only [perform]
    cases s.readingSocket with
    | none => exact h
    | some socket => exact h.of_same rfl (.inr ⟨by simp [dropSocket], by simp [dropSocket]⟩)
  | noticeDone =>
    simp only [perform]
    split
    · exact h.of_same rfl (.inr ⟨by simp, by simp⟩)
    · exact h
  | dropped =>
    simp only [perform]
    split
    · rename_i socket cancelled hr
      cases cancelled with
      | true => exact .of_closed (h.dropping socket hr)
      | false => exact h.of_same rfl (.inr ⟨by simp [runnerDropped], by simp [runnerDropped]⟩)
    · exact h
  | rested =>
    cases hclosed : s.closed with
    | true => exact .of_closed hclosed
    | false => exact h.of_same rfl (.inr ⟨by simp [perform, hclosed], by simp [perform, hclosed]⟩)
  | runnerCancelled =>
    have hclosed := h.cancelled hen.1
    simp only [perform, cancelRunner]
    split <;> exact .of_closed hclosed
  | accept => exact h.of_same rfl (.inl rfl)
  | receive c => exact h.of_same rfl (.inl rfl)
  | receiveResume c => exact h.of_same rfl (.inl rfl)
  | receiveCancel c => exact h.of_same rfl (.inl rfl)
  | closeDevice c =>
    simp only [perform, deviceClose]
    split
    · exact h
    · exact h.of_same closeDevice_shutdown (.inl closeDevice_rest.1)
  | send c data sender now waits =>
    obtain ⟨hsame, hrunner⟩ := send_shutdown (s := s) (c := c) data sender now waits
    exact h.of_same hsame (.inl hrunner)
  | sendResume k now =>
    rcases onSend_cases (s := s) k (s.sendResume k now) with hsame | ⟨call, -, hcall⟩
    · simp only [perform, hsame]
      exact h
    · simp only [perform, hcall]
      unfold sendResume
      split
      · exact h.of_same (lockedSend_shutdown now call).1 (.inl (lockedSend_shutdown now call).2)
      · exact h.of_same (transmit_shutdown call).1 (.inl (transmit_shutdown call).2)
      · exact h
  | sendDone k ok now =>
    rcases onSend_cases (s := s) k (s.sendDone k ok now) with hsame | ⟨call, -, hcall⟩
    · simp only [perform, hsame]
      exact h
    · simp only [perform, hcall]
      unfold sendDone
      split <;> exact h.of_same rfl (.inl rfl)
  | sendCancel k => exact h.of_same rfl (.inl rfl)
  | sendCancelled k => exact h.of_same rfl (.inl rfl)
  | close =>
    simp only [perform, close]
    split
    · exact .of_closed rfl
    · exact .of_closed (closeSocket_closed _)
  | closeResume j =>
    have hclosed : s.closed = true := by
      refine h.calls ?_
      rintro hnil
      rcases hen with ⟨hj, -⟩ | hj <;> simp [hnil] at hj
    simp only [perform]
    split
    · exact .of_closed ((closeSocket_closed j).trans hclosed)
    · exact .of_closed hclosed
    · exact h
  | closeCancel j =>
    have hclosed : s.closed = true := by
      refine h.calls ?_
      rintro hnil
      rcases hen with hj | hj <;> simp [hnil] at hj
    exact .of_closed hclosed

/-! ## What is handed to a socket -/

/-- The message is of the call's connection, which is registered, and the socket is
    the one on which it was opened. -/
def Handed (s : Connector) (call : SendCall) (socket : ℕ) (message : Bytes) : Prop :=
  ∃ connection, s.connections[call.connection]? = some connection ∧
    s.registered.get connection.connectionId = some call.connection ∧ connection.openedOn = socket ∧
    s.socket = some socket ∧ message = connection.connectionId ++ call.data

/-- What is put on the wire from `s` to `t`: messages of calls that were not cancelled
    and had not ended, or are new. -/
def Hands (s t : Connector) : Prop :=
  ∃ new, t.wire = s.wire ++ new ∧ ∀ k socket message, Outgoing.binary k socket message ∈ new →
    (∃ call, t.sends[k]? = some call ∧ s.Handed call socket message) ∧
      ∀ call, s.sends[k]? = some call → call.cancelling = false ∧ call.isEnded = false

theorem Hands.of_eq (h : t.wire = s.wire) : Hands s t := ⟨[], by rw [h, List.append_nil], by simp⟩

theorem dropConnection_wire : (s.dropConnection x).wire = s.wire := by
  unfold dropConnection
  split <;> rfl

/-- A connection that is closed puts a notice on the wire, and no data. -/
theorem closeDevice_wire : ∃ new, (s.closeDevice c).wire = s.wire ++ new ∧
    ∀ k socket message, Outgoing.binary k socket message ∉ new := by
  have hnone : ∃ new, s.wire = s.wire ++ new ∧ ∀ k socket message, Outgoing.binary k socket message ∉ new :=
    ⟨[], by simp, by simp⟩
  unfold closeDevice
  split
  · exact hnone
  · dsimp only
    split
    · exact hnone
    · refine ⟨_, rfl, fun k socket message hmem => ?_⟩
      obtain ⟨sk, -, hsk⟩ := Option.map_eq_some_iff.1 (Option.mem_toList.1 hmem)
      cases hsk

/-- Nothing but notices is put on the wire. -/
theorem Hands.of_notices (h : ∃ new, t.wire = s.wire ++ new ∧
    ∀ k socket message, Outgoing.binary k socket message ∉ new) : Hands s t := by
  obtain ⟨new, hwire, hnew⟩ := h
  exact ⟨new, hwire, fun k socket message hmem => absurd hmem (hnew k socket message)⟩

theorem closeSocket_wire (j : ℕ) : (s.closeSocket j).wire = s.wire := by
  unfold closeSocket
  split <;> rfl

theorem transmit_hands (hk : s.Kept) {call : SendCall} (hcall : s.sends[k]? = some call)
    (hgoes : call.cancelling = false ∧ call.isEnded = false) : Hands s (s.transmit k call) := by
  unfold transmit
  split
  · rename_i hmay
    obtain ⟨hsocket, connection, hconnection, -, hget⟩ := hmay
    refine ⟨_, rfl, fun j socket message hmem => ?_⟩
    rw [List.mem_singleton, Outgoing.binary.injEq] at hmem
    obtain ⟨rfl, rfl, rfl⟩ := hmem
    refine ⟨⟨{ call with phase := .sending }, by simp [modifySend, hcall], connection, hconnection, hget, ?_, hsocket,
      ?_⟩, fun other hother => ?_⟩
    · obtain ⟨connection', hconnection', -, -, hopened⟩ := hk.registered _ _ hget
      obtain rfl := Option.some.inj ((Option.mem_def.1 hconnection).symm.trans hconnection')
      refine hopened _ ?_
      rcases hk.socket _ hsocket with hr | hr
      · rw [runnerSocket, hr]
      · rw [runnerSocket, hr]
    · rw [Option.mem_def.1 hconnection]
      rfl
    · obtain rfl := Option.some.inj (hcall.symm.trans hother)
      exact hgoes
  · exact .of_eq rfl

theorem lockedSend_hands (hk : s.Kept) {call : SendCall} (hcall : s.sends[k]? = some call)
    (hgoes : call.cancelling = false ∧ call.isEnded = false) (now : ℚ) : Hands s (s.lockedSend k now call) := by
  have hlocked : Kept { s with outboundLock := some k } := hk.congr rfl rfl rfl rfl (.inl rfl)
  unfold lockedSend
  dsimp only
  split
  · exact .of_eq rfl
  · exact transmit_hands (s := { s with outboundLock := some k }) hlocked hcall hgoes

theorem send_hands (hk : s.Kept) (data : Bytes) (sender : Option ℕ) (now : ℚ) (waits : Bool) :
    Hands s (s.send c data sender now waits) := by
  unfold send
  split
  · rename_i connection socket hconnection hsocket
    split
    · exact .of_eq rfl
    · rename_i hmay
      have hget : s.registered.get connection.connectionId = some c := by
        by_contra hne
        exact hmay (.inr hne)
      have hcalled := hk.callSend hconnection hsocket hget data sender
      dsimp only
      split
      · exact .of_eq rfl
      · obtain ⟨new, hwire, hnew⟩ := lockedSend_hands hcalled List.getElem?_concat_length ⟨rfl, rfl⟩ now
        refine ⟨new, hwire, fun k socket message hmem => ?_⟩
        obtain ⟨hcall, hgoes⟩ := hnew k socket message hmem
        refine ⟨hcall, fun call hk => hgoes call ?_⟩
        exact (List.getElem?_append_left (List.getElem?_eq_some_iff.1 hk).1).trans hk
  · exact .of_eq rfl

/-- **What a step puts on the wire.** -/
theorem hands_step (hk : s.Kept) (hs : Step s e t) : Hands s t := by
  obtain ⟨hen, rfl⟩ := hs
  cases e with
  | frame frame =>
    obtain ⟨socket, hr⟩ := reads_of_enabled hen
    simp only [perform, hr]
    cases frame with
    | control message =>
      show Hands s (s.handleControl socket message)
      refine .of_eq ?_
      unfold handleControl
      split
      · rfl
      · unfold handleOpen
        dsimp only
        split
        · exact dropConnection_wire.trans (dropConnection_wire (s := s))
        · exact dropConnection_wire (s := s)
      · exact dropConnection_wire
    | binary data =>
      show Hands s (s.handleBinary socket data)
      unfold handleBinary
      split
      · exact .of_eq rfl
      split
      · exact .of_eq rfl
      split
      · exact .of_eq rfl
      split
      · exact .of_eq rfl
      dsimp only
      split
      · exact .of_eq rfl
      · exact .of_notices (closeDevice_wire (s := s.modifyConnection _ _))
  | closeDevice c =>
    simp only [perform, deviceClose]
    split
    · exact .of_eq rfl
    · exact .of_notices closeDevice_wire
  | send c data sender now waits => exact send_hands hk data sender now waits
  | sendResume k now =>
    obtain ⟨call, hcall, hcancelling, -⟩ := hen
    have hperform : s.perform (.sendResume k now) = s.sendResume k now call := by
      simp only [perform, onSend, Option.mem_def.1 hcall, Option.map_some, Option.getD_some]
    rw [hperform]
    unfold sendResume
    split
    · rename_i hphase
      exact lockedSend_hands hk hcall ⟨hcancelling, by simp [SendCall.isEnded, hphase]⟩ now
    · rename_i hphase
      exact transmit_hands hk hcall ⟨hcancelling, by simp [SendCall.isEnded, hphase]⟩
    · exact .of_eq rfl
  | sendDone k ok now =>
    rcases onSend_cases (s := s) k (s.sendDone k ok now) with hsame | ⟨call, -, hcall⟩
    · simp only [perform, hsame]
      exact .of_eq rfl
    · simp only [perform, hcall]
      unfold sendDone
      split <;> exact .of_eq rfl
  | close =>
    simp only [perform, close]
    split
    · exact .of_eq rfl
    · exact .of_eq (closeSocket_wire _)
  | closeResume j =>
    simp only [perform]
    split
    · exact .of_eq (closeSocket_wire j)
    · exact .of_eq rfl
    · exact .of_eq rfl
  | start | connected | noticeDone | dropped | runnerCancelled =>
    refine .of_eq ?_
    simp only [perform, cancelRunner]
    split <;> rfl
  | recvFailed =>
    simp only [perform]
    cases s.readingSocket <;> exact .of_eq rfl
  | rested | accept | receive | receiveResume | receiveCancel | sendCancel | sendCancelled | closeCancel =>
    exact .of_eq rfl

/-! ## What becomes of a call -/

/-- The message of the call is on the wire, for the socket of its connection. -/
def OnWire (s : Connector) (k : ℕ) (call : SendCall) : Prop :=
  ∃ connection, s.connections[call.connection]? = some connection ∧
    Outgoing.binary k connection.openedOn (connection.connectionId ++ call.data) ∈ s.wire

/-- What is so of a call, by where it is: a message that is being sent or was sent is
    on the wire, and only a call that was cancelled ends so. -/
def CallKept (s : Connector) (k : ℕ) (call : SendCall) : Prop :=
  match call.phase with
  | .sending | .ended .sent => s.OnWire k call
  | .ended .cancelled => call.cancelling = true
  | _ => True

def CallsKept (s : Connector) : Prop := ∀ (k : ℕ) (call : SendCall), s.sends[k]? = some call → s.CallKept k call

/-- Connections stay who they are, those that are closed stay closed, and what is on
    the wire stays there. -/
structure Evolves (s t : Connector) : Prop where
  connections : ∀ (c : ℕ) (connection : DeviceConnection), s.connections[c]? = some connection →
    ∃ connection', t.connections[c]? = some connection' ∧ connection'.connectionId = connection.connectionId ∧
      connection'.openedOn = connection.openedOn ∧ (connection.closed = true → connection'.closed = true)
  wire : ∀ message ∈ s.wire, message ∈ t.wire

theorem CallKept.mono (h : Evolves s t) {call : SendCall} (hcall : s.CallKept k call) : t.CallKept k call := by
  have hwire : s.OnWire k call → t.OnWire k call := by
    rintro ⟨connection, hconnection, hmem⟩
    obtain ⟨connection', hconnection', hid, hsocket, -⟩ := h.connections _ _ hconnection
    refine ⟨connection', hconnection', ?_⟩
    rw [hid, hsocket]
    exact h.wire _ hmem
  unfold CallKept at hcall ⊢
  split at hcall
  · exact hwire hcall
  · exact hwire hcall
  · exact hcall
  · trivial

theorem CallsKept.of_eq (h : s.CallsKept) (hevolves : Evolves s t) (hsends : t.sends = s.sends) : t.CallsKept := by
  intro k call hk
  rw [hsends] at hk
  exact (h k call hk).mono hevolves

theorem modifyConnection_evolves {f : DeviceConnection → DeviceConnection} (hf : DeviceConnection.Keeps f)
    (hclosed : ∀ other, other.closed = true → (f other).closed = true) : Evolves s (s.modifyConnection c f) := by
  refine ⟨fun d connection hd => ?_, fun _ hmem => hmem⟩
  rw [modifyConnection_getElem, hd]
  refine ⟨_, rfl, ?_⟩
  split
  · exact ⟨(hf connection).1, (hf connection).2, hclosed connection⟩
  · exact ⟨rfl, rfl, id⟩

/-- Connections stay who they are, whatever happens. -/
theorem evolves_step (hk : s.Kept) (hs : Step s e t) : Evolves s t := by
  have hwire : ∀ message ∈ s.wire, message ∈ t.wire := by
    obtain ⟨new, hnew, -⟩ := hands_step hk hs
    intro message hmem
    rw [hnew]
    exact List.mem_append_left _ hmem
  obtain ⟨hen, rfl⟩ := hs
  by_cases hmoves : Moves e
  · cases e with
    | receive d => exact modifyConnection_evolves DeviceConnection.receive_keeps fun other => (receive_payload other).2
    | receiveResume d =>
      exact modifyConnection_evolves DeviceConnection.receiveResume_keeps fun other => (receiveResume_payload other).2
    | frame frame =>
      cases frame with
      | control => exact hmoves.elim
      | binary data =>
        obtain ⟨socket, hr⟩ := reads_of_enabled hen
        refine ⟨fun c connection hc => ?_, hwire⟩
        simp only [perform, hr]
        show ∃ connection', (s.handleBinary socket data).connections[c]? = some connection' ∧ _
        unfold handleBinary
        split
        · exact ⟨connection, hc, rfl, rfl, id⟩
        split
        · exact ⟨connection, hc, rfl, rfl, id⟩
        split
        · exact ⟨connection, hc, rfl, rfl, id⟩
        split
        · exact ⟨connection, hc, rfl, rfl, id⟩
        dsimp only
        rename_i d _ _ _ _
        have hfeed := modifyConnection_evolves (s := s) (c := d)
          (DeviceConnection.feed_keeps (data.drop connectionIdBytes)) fun other hclosed => by
            rw [DeviceConnection.feed, if_pos hclosed]
            exact hclosed
        obtain ⟨fed, hfed, hid, hsocket, hstays⟩ := hfeed.connections c connection hc
        split
        · exact ⟨fed, hfed, hid, hsocket, hstays⟩
        · obtain ⟨closed, hclosed, -, hstays', hid', hsocket'⟩ := (closeDevice_calm d).kept c fed hfed
          exact ⟨closed, hclosed, hid'.trans hid, hsocket'.trans hsocket, hstays' ∘ hstays⟩
    | _ => exact hmoves.elim
  · refine ⟨fun c connection hc => ?_, hwire⟩
    obtain ⟨connection', hc', -, hstays, hid, hsocket⟩ := (perform_calm hmoves).kept c connection hc
    exact ⟨connection', hc', hid, hsocket, hstays⟩

/-- One call goes on. -/
theorem CallsKept.modifySend (h : s.CallsKept) {f : SendCall → SendCall}
    (hf : ∀ call, s.sends[k]? = some call → s.CallKept k (f call)) : (s.modifySend k f).CallsKept := by
  intro j call hj
  rw [Connector.modifySend, List.getElem?_modify] at hj
  obtain ⟨old, hold, rfl⟩ := Option.map_eq_some_iff.1 hj
  split
  · rename_i hkj
    subst hkj
    exact hf old hold
  · exact h j old hold

theorem CallsKept.endSend (h : s.CallsKept) {result : SendResult}
    (hresult : ∀ call, s.sends[k]? = some call → s.CallKept k { call with phase := .ended result }) :
    (s.endSend k result).CallsKept := by
  have hfreed : ∀ lock, CallsKept { s with outboundLock := lock } := fun _ => h
  exact (hfreed _).modifySend hresult

theorem CallsKept.transmit (h : s.CallsKept) (hk : s.Kept) {call : SendCall} (hcall : s.sends[k]? = some call)
    (hopen : call.isEnded = false) : (s.transmit k call).CallsKept := by
  unfold Connector.transmit
  split
  · obtain ⟨connection, hconnection, hsocket⟩ := hk.sends k call hcall hopen
    dsimp only
    rw [hconnection]
    have hsent : ∀ new, CallsKept { s with wire := s.wire ++ new } := fun new =>
      h.of_eq ⟨fun c connection hc => ⟨connection, hc, rfl, rfl, id⟩, fun _ hmem => List.mem_append_left new hmem⟩ rfl
    refine (hsent _).modifySend fun other hother => ?_
    obtain rfl : call = other := Option.some.inj (hcall.symm.trans hother)
    refine ⟨connection, hconnection, ?_⟩
    rw [hsocket]
    exact List.mem_append_right _ (List.mem_singleton.2 rfl)
  · exact h.endSend fun _ _ => trivial

theorem CallsKept.lockedSend (h : s.CallsKept) (hk : s.Kept) {call : SendCall} (hcall : s.sends[k]? = some call)
    (hopen : call.isEnded = false) (now : ℚ) : (s.lockedSend k now call).CallsKept := by
  have hlocked : CallsKept { s with outboundLock := some k } := h
  have hkept : Kept { s with outboundLock := some k } := hk.congr rfl rfl rfl rfl (.inl rfl)
  unfold Connector.lockedSend
  dsimp only
  split
  · exact hlocked.modifySend fun _ _ => trivial
  · exact hlocked.transmit hkept hcall hopen

theorem CallsKept.snoc (h : s.CallsKept) {call : SendCall} (hcall : s.CallKept s.sends.length call) :
    CallsKept { s with sends := s.sends ++ [call] } := by
  intro k other hk
  have hk : (s.sends ++ [call])[k]? = some other := hk
  rw [List.getElem?_append] at hk
  split at hk
  · exact h k other hk
  · rename_i hlt
    have hlen : k - s.sends.length = 0 := by
      by_contra hne
      obtain ⟨n, hn⟩ := Nat.exists_eq_succ_of_ne_zero hne
      rw [hn] at hk
      cases hk
    rw [hlen] at hk
    obtain rfl := Option.some.inj hk
    have hlength : k = s.sends.length := by omega
    rw [hlength]
    exact hcall

theorem CallsKept.send (h : s.CallsKept) (hk : s.Kept) (data : Bytes) (sender : Option ℕ) (now : ℚ) (waits : Bool) :
    (s.send c data sender now waits).CallsKept := by
  have hrefused : (s.refuseSend c data sender).CallsKept := h.snoc trivial
  unfold Connector.send
  split
  · rename_i connection socket hconnection hsocket
    split
    · exact hrefused
    · rename_i hmay
      have hget : s.registered.get connection.connectionId = some c := by
        by_contra hne
        exact hmay (.inr hne)
      have hcalled := hk.callSend hconnection hsocket hget data sender
      have hnew : CallsKept { s with sends := s.sends ++ [⟨c, data, sender, socket, .locking, false⟩] } :=
        h.snoc trivial
      dsimp only
      split
      · exact hnew
      · exact hnew.lockedSend hcalled (by simp) rfl now
  · exact hrefused

theorem dropConnection_sends : (s.dropConnection x).sends = s.sends := by
  unfold dropConnection
  split <;> rfl

theorem closeDevice_sends : (s.closeDevice c).sends = s.sends := by
  unfold closeDevice
  split
  · rfl
  · dsimp only
    split <;> rfl

theorem readFrame_sends (frame : HostFrame) : (s.readFrame socket frame).sends = s.sends := by
  cases frame with
  | control message =>
    show (s.handleControl socket message).sends = s.sends
    unfold handleControl
    split
    · rfl
    · unfold handleOpen
      dsimp only
      split
      · exact dropConnection_sends.trans (dropConnection_sends (s := s))
      · exact dropConnection_sends (s := s)
    · exact dropConnection_sends
  | binary data =>
    show (s.handleBinary socket data).sends = s.sends
    unfold handleBinary
    split
    · rfl
    split
    · rfl
    split
    · rfl
    split
    · rfl
    dsimp only
    split
    · rfl
    · exact closeDevice_sends (s := s.modifyConnection _ _)

theorem callsKept_step (h : s.CallsKept) (hk : s.Kept) (hs : Step s e t) : t.CallsKept := by
  have hevolves := evolves_step hk hs
  obtain ⟨hen, rfl⟩ := hs
  have hother : (s.perform e).sends = s.sends → (s.perform e).CallsKept := h.of_eq hevolves
  cases e with
  | send c data sender now waits => exact h.send hk data sender now waits
  | sendResume k now =>
    obtain ⟨call, hcall, -, hphase⟩ := hen
    have hperform : s.perform (.sendResume k now) = s.sendResume k now call := by
      simp only [perform, onSend, Option.mem_def.1 hcall, Option.map_some, Option.getD_some]
    rw [hperform]
    unfold sendResume
    split
    · rename_i hlocking
      exact h.lockedSend hk hcall (by simp [SendCall.isEnded, hlocking]) now
    · rename_i hpacing
      exact h.transmit hk hcall (by simp [SendCall.isEnded, hpacing])
    · exact h
  | sendDone k ok now =>
    obtain ⟨call, hcall, -, hsending⟩ := hen
    have hperform : s.perform (.sendDone k ok now) = s.sendDone k ok now call := by
      simp only [perform, onSend, Option.mem_def.1 hcall, Option.map_some, Option.getD_some]
    rw [hperform]
    unfold sendDone
    split
    · have hpaced : ∀ next, CallsKept { s with outboundNext := next } := fun _ => h
      refine (hpaced _).endSend fun other hother => ?_
      obtain rfl : call = other := Option.some.inj ((Option.mem_def.1 hcall).symm.trans hother)
      have hwire := h k call hcall
      rw [CallKept, hsending] at hwire
      exact hwire
    · exact h.endSend fun _ _ => trivial
  | sendCancel k =>
    refine h.modifySend fun call hcall => ?_
    have hkept := h k call hcall
    unfold CallKept at hkept ⊢
    dsimp only
    split at hkept
    · exact hkept
    · exact hkept
    · rw [hkept, Bool.true_or]
    · trivial
  | sendCancelled k =>
    obtain ⟨call, hcall, hcancelling, -⟩ := hen
    refine h.endSend fun other hother => ?_
    obtain rfl : call = other := Option.some.inj ((Option.mem_def.1 hcall).symm.trans hother)
    exact hcancelling
  | frame frame =>
    obtain ⟨socket, hr⟩ := reads_of_enabled hen
    refine hother ?_
    simp only [perform, hr]
    exact readFrame_sends frame
  | closeDevice c =>
    refine hother ?_
    simp only [perform, deviceClose]
    split
    · rfl
    · exact closeDevice_sends
  | close =>
    refine hother ?_
    simp only [perform, close, closeSocket]
    repeat' split
    all_goals rfl
  | closeResume j =>
    refine hother ?_
    simp only [perform, closeSocket]
    repeat' split
    all_goals rfl
  | start | connected | noticeDone | dropped | runnerCancelled =>
    refine hother ?_
    simp only [perform, cancelRunner]
    split <;> rfl
  | recvFailed =>
    refine hother ?_
    simp only [perform]
    cases s.readingSocket <;> rfl
  | rested | accept | receive | receiveResume | receiveCancel | closeCancel => exact hother rfl

/-! ## Who sends -/

/-- The calls are the ones there were, sent by whom they were; one that ended or was
    cancelled stays so. -/
structure SendsKept (s t : Connector) : Prop where
  kept : ∀ (k : ℕ) (call : SendCall), s.sends[k]? = some call → ∃ call', t.sends[k]? = some call' ∧
    call'.sender = call.sender ∧ (call'.isEnded = false → call.isEnded = false) ∧
    (call.cancelling = true → call'.cancelling = true)
  length : t.sends.length = s.sends.length

theorem SendsKept.of_eq (h : t.sends = s.sends) : SendsKept s t :=
  ⟨fun _ call hk => ⟨call, by rw [h]; exact hk, rfl, id, id⟩, by rw [h]⟩

theorem SendsKept.trans (h : SendsKept s t) (h' : SendsKept t u) : SendsKept s u := by
  refine ⟨fun k call hk => ?_, h'.length.trans h.length⟩
  obtain ⟨m, hm, hsender, hopen, hcancelling⟩ := h.kept k call hk
  obtain ⟨n, hn, hsender', hopen', hcancelling'⟩ := h'.kept k m hm
  exact ⟨n, hn, hsender'.trans hsender, hopen ∘ hopen', hcancelling' ∘ hcancelling⟩

theorem modifySend_sendsKept {f : SendCall → SendCall} (hf : ∀ call, s.sends[k]? = some call →
    (f call).sender = call.sender ∧ ((f call).isEnded = false → call.isEnded = false) ∧
    (call.cancelling = true → (f call).cancelling = true)) : SendsKept s (s.modifySend k f) := by
  refine ⟨fun j call hj => ?_, List.length_modify _ _ _⟩
  rw [modifySend, List.getElem?_modify, hj]
  refine ⟨_, rfl, ?_⟩
  split
  · rename_i hkj
    subst hkj
    exact hf call hj
  · exact ⟨rfl, id, id⟩

theorem endSend_sendsKept (result : SendResult) : SendsKept s (s.endSend k result) := by
  unfold endSend
  refine .trans (.of_eq ?_) (modifySend_sendsKept fun _ _ => ⟨rfl, fun hopen => ?_, id⟩)
  · rfl
  · cases hopen

theorem sendPhase_sendsKept {call : SendCall} (hcall : s.sends[k]? = some call) (hopen : call.isEnded = false)
    (phase : SendPhase) : SendsKept s (s.modifySend k fun call => { call with phase := phase }) := by
  refine modifySend_sendsKept fun other hother => ⟨rfl, fun _ => ?_, id⟩
  obtain rfl := Option.some.inj (hcall.symm.trans hother)
  exact hopen

theorem transmit_sendsKept {call : SendCall} (hcall : s.sends[k]? = some call) (hopen : call.isEnded = false) :
    SendsKept s (s.transmit k call) := by
  unfold transmit
  split
  · refine .trans (.of_eq ?_) (sendPhase_sendsKept ?_ hopen _)
    · rfl
    · exact hcall
  · exact endSend_sendsKept _

theorem lockedSend_sendsKept {call : SendCall} (hcall : s.sends[k]? = some call) (hopen : call.isEnded = false)
    (now : ℚ) : SendsKept s (s.lockedSend k now call) := by
  unfold lockedSend
  dsimp only
  split
  · refine .trans (.of_eq ?_) (sendPhase_sendsKept ?_ hopen _)
    · rfl
    · exact hcall
  · refine .trans (.of_eq ?_) (transmit_sendsKept ?_ hopen)
    · rfl
    · exact hcall

/-- One call is added. -/
theorem send_sendsKept (data : Bytes) (sender : Option ℕ) (now : ℚ) (waits : Bool) :
    ∃ call : SendCall, call.sender = sender ∧
      SendsKept { s with sends := s.sends ++ [call] } (s.send c data sender now waits) := by
  unfold send
  split
  · rename_i connection socket _ _
    split
    · exact ⟨_, rfl, .of_eq rfl⟩
    · refine ⟨⟨c, data, sender, socket, .locking, false⟩, rfl, ?_⟩
      dsimp only
      split
      · exact .of_eq rfl
      · exact lockedSend_sendsKept (s := { s with sends := s.sends ++ [_] }) List.getElem?_concat_length rfl now
  · exact ⟨_, rfl, .of_eq rfl⟩

/-- Events other than a call of `send` add no call. -/
theorem sendsKept_step (hs : Step s e t) (he : ∀ c data sender now waits, e ≠ .send c data sender now waits) :
    SendsKept s t := by
  obtain ⟨hen, rfl⟩ := hs
  cases e with
  | send c data sender now waits => exact absurd rfl (he c data sender now waits)
  | sendResume k now =>
    obtain ⟨call, hcall, -, -⟩ := hen
    have hperform : s.perform (.sendResume k now) = s.sendResume k now call := by
      simp only [perform, onSend, Option.mem_def.1 hcall, Option.map_some, Option.getD_some]
    rw [hperform]
    unfold sendResume
    split
    · rename_i hphase
      exact lockedSend_sendsKept hcall (by simp [SendCall.isEnded, hphase]) now
    · rename_i hphase
      exact transmit_sendsKept hcall (by simp [SendCall.isEnded, hphase])
    · exact .of_eq rfl
  | sendDone k ok now =>
    rcases onSend_cases (s := s) k (s.sendDone k ok now) with hsame | ⟨call, -, hcall⟩
    · simp only [perform, hsame]
      exact .of_eq rfl
    · simp only [perform, hcall]
      unfold sendDone
      split
      · refine .trans (.of_eq ?_) (endSend_sendsKept _)
        rfl
      · exact endSend_sendsKept _
  | sendCancel k =>
    exact modifySend_sendsKept fun call _ => ⟨rfl, id, fun hc => by simp [hc]⟩
  | sendCancelled k => exact endSend_sendsKept _
  | frame frame =>
    obtain ⟨socket, hr⟩ := reads_of_enabled hen
    refine .of_eq ?_
    simp only [perform, hr]
    exact readFrame_sends frame
  | closeDevice c =>
    refine .of_eq ?_
    simp only [perform, deviceClose]
    split
    · rfl
    · exact closeDevice_sends
  | close =>
    refine .of_eq ?_
    simp only [perform, close, closeSocket]
    repeat' split
    all_goals rfl
  | closeResume j =>
    refine .of_eq ?_
    simp only [perform, closeSocket]
    repeat' split
    all_goals rfl
  | start | connected | noticeDone | dropped | runnerCancelled =>
    refine .of_eq ?_
    simp only [perform, cancelRunner]
    split <;> rfl
  | recvFailed =>
    refine .of_eq ?_
    simp only [perform]
    cases s.readingSocket <;> rfl
  | rested | accept | receive | receiveResume | receiveCancel | closeCancel => exact .of_eq rfl

/-! ## The whole -/

/-- A connection that ended: its receiver gets what is queued, and then nothing; it
    does not have to wait, and does not wait in vain. -/
structure Drains (connection : DeviceConnection) : Prop where
  queued : ∀ message rest, connection.payload = message :: rest → connection.receive.2 = .data message
  nothing : connection.payload = [] → connection.receive.2 = .nothing
  woken : connection.receiving = true → connection.inbound ≠ []

theorem receive_closed {connection : DeviceConnection} (hclosed : connection.closed = true) :
    connection.receive.2 = match connection.inbound with
      | [] => .nothing
      | item :: _ => .of item := by
  unfold DeviceConnection.receive DeviceConnection.take
  cases hinbound : connection.inbound with
  | nil => simp [hclosed]
  | cons item rest => simp

theorem drains_of_closed {connection : DeviceConnection} (h : connection.Sound) (hclosed : connection.closed = true) :
    Drains connection := by
  have hreceive := receive_closed hclosed
  have hempty : ∀ rest, connection.inbound = none :: rest → rest = [] := by
    intro rest hinbound
    rcases h.items with ⟨data, hdata⟩ | ⟨-, data, hdata⟩
    · cases data <;> simp [hinbound] at hdata
    · cases data with
      | nil => simpa [hinbound] using hdata
      | cons d data => simp [hinbound] at hdata
  refine ⟨fun message rest hpayload => ?_, fun hpayload => ?_, h.woken hclosed⟩
  · rw [hreceive]
    cases hinbound : connection.inbound with
    | nil => simp [DeviceConnection.payload, hinbound] at hpayload
    | cons item items =>
      cases item with
      | none =>
        rw [DeviceConnection.payload, hinbound, hempty items hinbound] at hpayload
        simp at hpayload
      | some m =>
        simp only [DeviceConnection.payload, hinbound, List.filterMap_cons_some (rfl : id (some m) = some m),
          List.cons.injEq] at hpayload
        rw [← hpayload.1]
        rfl
  · rw [hreceive]
    cases hinbound : connection.inbound with
    | nil => rfl
    | cons item items =>
      cases item with
      | none => rfl
      | some m => simp [DeviceConnection.payload, hinbound] at hpayload

/-- A closed connection stays closed, and gets no more data. -/
theorem closed_run {after : List (Connector × ConnectorEvent)} (h : Run Observed s after t) (hk : s.Kept)
    {connection : DeviceConnection} (hc : s.connections[c]? = some connection) (hclosed : connection.closed = true) :
    arrivals c after = [] ∧ ∃ connection', t.connections[c]? = some connection' ∧ connection'.closed = true := by
  induction h generalizing connection with
  | nil => exact ⟨rfl, connection, hc, hclosed⟩
  | @cons s l m after t hs _ ih =>
    obtain ⟨hl, hstep⟩ := hs
    obtain ⟨connection', hc', -, -, hstays⟩ := (evolves_step hk hstep).connections c connection hc
    obtain ⟨hnone, hend⟩ := ih (kept_step hk hstep) hc' (hstays hclosed)
    have harrives : arrives c l = none := by
      unfold arrives
      split
      · rw [hl, if_neg]
        rintro ⟨-, -, hget⟩
        obtain ⟨other, hother, -, hopen, -⟩ := hk.registered _ _ hget
        obtain rfl := Option.some.inj (hc.symm.trans hother)
        rw [hclosed] at hopen
        cases hopen
      · rfl
    refine ⟨?_, hend⟩
    rw [arrivals, List.filterMap_cons, harrives]
    exact hnone

/-- A connection is over: whatever happens next, its receiver gets what is queued and
    then nothing, and does not wait. -/
def Over (s : Connector) (c : ℕ) (connection : DeviceConnection) : Prop :=
  ∀ after t, Run Observed s after t → ∃ connection', t.connections[c]? = some connection' ∧ Drains connection' ∧
    receivedOf c after ++ connection'.payload = connection.payload

/-- A connection whose host socket is gone. -/
def Severed (s : Connector) (c : ℕ) (connection : DeviceConnection) : Prop :=
  s.connections[c]? = some connection ∧ s.socket ≠ some connection.openedOn

/-- Every connection that is registered has its host socket. -/
def Attached (s : Connector) : Prop :=
  ∀ (c : ℕ) (connection : DeviceConnection), s.connections[c]? = some connection →
    s.registered.get connection.connectionId = some c → s.socket = some connection.openedOn

/-- A closed connection is over. -/
theorem over_of_closed {depths : JsonDepths} {trace : List (Connector × ConnectorEvent)}
    (h : Run Observed { depths := depths } trace s) {connection : DeviceConnection}
    (hc : s.connections[c]? = some connection) (hclosed : connection.closed = true) : s.Over c connection := by
  intro after t hafter
  obtain ⟨hk, hrecorded⟩ := recorded_run h
  obtain ⟨hnone, connection', hc', hclosed'⟩ := closed_run hafter hk hc hclosed
  obtain ⟨hk', hrecorded'⟩ := recorded_run (h.append hafter)
  refine ⟨connection', hc', drains_of_closed (hk'.sound c connection' hc') hclosed', ?_⟩
  have hbefore := hrecorded.data c connection hc
  have hwhole := hrecorded'.data c connection' hc'
  rwa [acceptedBy, arrivals_append, hnone, List.append_nil, ← acceptedBy, ← hbefore, receivedOf_append,
    List.append_assoc, List.append_cancel_left_eq] at hwhole

/-- The receiver of an open connection may take all that is queued. -/
theorem drained_run {n : ℕ} {connection : DeviceConnection} (hk : s.Kept) (hc : s.connections[c]? = some connection)
    (hopen : connection.closed = false) (hlength : connection.inbound.length = n)
    (hidle : connection.receiving = false) : ∃ after t connection', Run Observed s after t ∧
      t.connections[c]? = some connection' ∧ connection'.closed = false ∧ connection'.inbound = [] := by
  induction n generalizing s connection with
  | zero => exact ⟨[], s, connection, .nil, hc, hopen, List.length_eq_zero_iff.1 hlength⟩
  | succ n ih =>
    have hstep : Step s (.receive c) (s.perform (.receive c)) := ⟨⟨connection, hc, hidle⟩, rfl⟩
    have hne : connection.inbound ≠ [] := by
      intro hnil
      rw [hnil] at hlength
      cases hlength
    have htake : connection.receive.1 = connection.take.1 := by
      rw [DeviceConnection.receive, if_neg (fun hboth => hne hboth.2), if_neg hne]
    have hafter : (s.perform (.receive c)).connections[c]? = some connection.take.1 := by
      rw [perform, modifyConnection_getElem, hc, Option.map_some, if_pos rfl, htake]
    have htaken : connection.take.1.inbound.length = n ∧ connection.take.1.receiving = false := by
      unfold DeviceConnection.take
      cases hinbound : connection.inbound with
      | nil => exact absurd hinbound hne
      | cons item rest =>
        rw [hinbound] at hlength
        exact ⟨Nat.succ.inj hlength, rfl⟩
    obtain ⟨after, t, connection', hrun, hend⟩ := ih (kept_step hk hstep) hafter
      ((hk.sound c connection hc).take_closed hopen) htaken.1 htaken.2
    exact ⟨_ :: after, t, connection', .cons (l := (s, .receive c)) ⟨rfl, hstep⟩ hrun, hend⟩

/-- An open connection is not over: once its queue is empty, its receiver waits. -/
theorem not_over_of_open {connection : DeviceConnection} (hk : s.Kept) (hc : s.connections[c]? = some connection)
    (hopen : connection.closed = false) : ¬ s.Over c connection := by
  intro hover
  -- a call that waits is cancelled first
  have hcancel : Step s (.receiveCancel c) (s.perform (.receiveCancel c)) := ⟨trivial, rfl⟩
  have hidle : (s.perform (.receiveCancel c)).connections[c]? = some { connection with receiving := false } := by
    rw [perform, modifyConnection_getElem, hc, Option.map_some, if_pos rfl]
  obtain ⟨after, t, connection', hrun, hc', hopen', hempty⟩ :=
    drained_run (kept_step hk hcancel) hidle hopen rfl rfl
  obtain ⟨other, hother, hdrains, -⟩ := hover _ t (.cons (l := (s, .receiveCancel c)) ⟨rfl, hcancel⟩ hrun)
  obtain rfl := Option.some.inj (hc'.symm.trans hother)
  have hwaits : connection'.receive.2 = .waits := by
    unfold DeviceConnection.receive
    rw [if_neg (by simp [hopen']), if_pos hempty]
  have hnothing := hdrains.nothing (by rw [DeviceConnection.payload, hempty, List.filterMap_nil])
  rw [hwaits] at hnothing
  cases hnothing

theorem endings_run {depths : JsonDepths} {trace : List (Connector × ConnectorEvent)}
    (h : Run Observed { depths := depths } trace s) : s.Listed ∧ s.Shut ∧ s.CallsKept := by
  have hkept := h.invariant (I := fun s => s.Kept ∧ s.Listed ∧ s.Shut ∧ s.CallsKept) ?_ ?_
  · exact hkept.2
  · rintro s l t ⟨hk, hlisted, hshut, hcalls⟩ ⟨-, hs⟩
    exact ⟨kept_step hk hs, listed_step hlisted hs, shut_step hshut hs, callsKept_step hcalls hk hs⟩
  · refine ⟨kept_new depths, fun c connection hc => ?_, ⟨?_, ?_, ?_, ?_⟩, fun k call hk => ?_⟩
    · simp at hc
    · intro hne
      exact absurd rfl hne
    · intro hc
      cases hc
    · intro socket hr
      cases hr
    · intro hr
      cases hr
    · simp at hk

/-- What holds of the device connections after a trace. -/
structure Demultiplexed (trace : List (Connector × ConnectorEvent)) (s : Connector) : Prop where
  /-- what the receiver got, and what is queued for it, are the payloads of the frames
      that met the connection registered, up to the first that its full queue refused -/
  received : ∀ (c : ℕ) (connection : DeviceConnection), s.connections[c]? = some connection →
    receivedOf c trace ++ connection.payload = acceptedBy c trace
  /-- a connection is registered under its own id, or is over -/
  registered : ∀ (x : Bytes) (c : ℕ), s.registered.get x = some c →
    ∃ connection, s.connections[c]? = some connection ∧ connection.connectionId = x
  ended : ∀ (c : ℕ) (connection : DeviceConnection), s.connections[c]? = some connection →
    connection.closed = true ∨ s.registered.get connection.connectionId ≠ some c → s.Over c connection
  /-- a registered connection has the socket of the runner, as long as the connector is
      not closed -/
  current : s.closed = false → ∀ (c : ℕ) (connection : DeviceConnection), s.connections[c]? = some connection →
    s.registered.get connection.connectionId = some c → s.runnerSocket = some connection.openedOn
  /-- a message is handed to the socket on which its connection was opened, while it is
      registered; a call that was sent has its message there -/
  handed : ∀ e t, Step s e t → Hands s t
  calls : s.CallsKept

theorem demultiplexed_run {depths : JsonDepths} {trace : List (Connector × ConnectorEvent)}
    (h : Run Observed { depths := depths } trace s) : Demultiplexed trace s := by
  obtain ⟨hk, hrecorded⟩ := recorded_run h
  obtain ⟨hlisted, hshut, hcalls⟩ := endings_run h
  refine ⟨hrecorded.data, fun x c hc => ?_, fun c connection hc hgone => ?_, fun hopen c connection hc hget => ?_,
    fun e t hs => hands_step hk hs, hcalls⟩
  · obtain ⟨connection, hconnection, hid, -⟩ := hk.registered x c hc
    exact ⟨connection, hconnection, hid⟩
  · refine over_of_closed h hc (hgone.elim id fun hgone => ?_)
    by_contra hne
    exact hgone (hlisted c connection hc (by simpa using hne))
  · obtain ⟨other, hother, -, -, hsocket⟩ := hk.registered _ _ hget
    obtain rfl := Option.some.inj (hc.symm.trans hother)
    cases hrunner : s.runnerSocket with
    | some socket => rw [hsocket socket hrunner]
    | none =>
      have hregistered : s.registered ≠ [] := by
        intro hnil
        rw [hnil] at hget
        cases hget
      cases hr : s.runner with
      | ended =>
        rw [hshut.ended hr] at hopen
        cases hopen
      | idle => exact absurd (hk.between (.inl hr)) hregistered
      | connecting => exact absurd (hk.between (.inr (.inl hr))) hregistered
      | resting => exact absurd (hk.between (.inr (.inr hr))) hregistered
      | _ => simp [runnerSocket, hr] at hrunner

end Connector

/-- **The host socket is demultiplexed**, after every sequence of frames, receives,
    sends, closes and sockets; and the connections whose socket is gone are over exactly
    where none of them is still registered. -/
theorem host_socket_demux {depths : JsonDepths} {trace : List (Connector × ConnectorEvent)} {s : Connector}
    (h : Run Connector.Observed { depths := depths } trace s) : Connector.Demultiplexed trace s ∧
      ((∀ c connection, s.Severed c connection → s.Over c connection) ↔ s.Attached) := by
  have hdemux := Connector.demultiplexed_run h
  obtain ⟨hk, -⟩ := Connector.recorded_run h
  refine ⟨hdemux, fun hover c connection hc hget => ?_, fun hattached c connection hsevered => ?_⟩
  · by_contra hgone
    obtain ⟨other, hother, -, hopen, -⟩ := hk.registered _ _ hget
    obtain rfl := Option.some.inj (hc.symm.trans hother)
    exact Connector.not_over_of_open hk hc hopen (hover c connection ⟨hc, hgone⟩)
  · refine hdemux.ended c connection hsevered.1 (.inr fun hget => ?_)
    exact hsevered.2 (hattached c connection hsevered.1 hget)

/-- The trace of events, each with the state that it meets. -/
def Connector.traceOf (s : Connector) : List ConnectorEvent → List (Connector × ConnectorEvent)
  | [] => []
  | e :: events => (s, e) :: traceOf (s.perform e) events

theorem Connector.observed_run {s t : Connector} {events : List ConnectorEvent} (h : Run Connector.Step s events t) :
    Run Connector.Observed s (s.traceOf events) t := by
  induction h with
  | nil => exact .nil
  | cons hs _ ih =>
    obtain ⟨hen, rfl⟩ := hs
    exact .cons ⟨rfl, hen, rfl⟩ ih

theorem Connector.traceOf_events (s : Connector) (events : List ConnectorEvent) :
    (s.traceOf events).map (·.2) = events := by
  induction events generalizing s with
  | nil => rfl
  | cons e events ih => simp [traceOf, ih]

/-- Two devices get a frame each, and the second is closed before it receives; then
    the host socket ends, with a frame for the first in its queue. -/
def twoDevices : List ConnectorEvent :=
  devicesOpened 2 ++ [.frame (.binary [0, 0, 0, 0, 0, 0, 0, 0, 7]), .frame (.binary [0, 0, 0, 0, 0, 0, 0, 1, 8]),
    .closeDevice 1, .receive 0, .receive 1, .receive 1, .send 0 [9] none 0 false, .sendDone 0 true 0,
    .frame (.binary [0, 0, 0, 0, 0, 0, 0, 0, 5]), .recvFailed, .dropped]

theorem host_socket_demux_two : ∃ (trace : List (Connector × ConnectorEvent)) (s : Connector),
    trace.map (·.2) = twoDevices ∧ Connector.Demultiplexed trace s ∧ Connector.receivedOf 0 trace = [[7]] ∧
      Connector.receivedOf 1 trace = [[8]] ∧
      s.wire = [.close 0 [0, 0, 0, 0, 0, 0, 0, 1], .binary 0 0 [0, 0, 0, 0, 0, 0, 0, 0, 9]] ∧
      s.Severed 0 ⟨[0, 0, 0, 0, 0, 0, 0, 0], 0, [some [5], none], true, false⟩ ∧
      s.Over 0 ⟨[0, 0, 0, 0, 0, 0, 0, 0], 0, [some [5], none], true, false⟩ := by
  have halong : Along Connector.perform Connector.Enabled {} twoDevices := by decide +kernel
  obtain ⟨hdemux, hover⟩ := host_socket_demux (Connector.observed_run (run_of_along halong))
  have hnone : (twoDevices.foldl Connector.perform {}).registered = [] := by decide +kernel
  have hsevered : (twoDevices.foldl Connector.perform {}).Severed 0
      ⟨[0, 0, 0, 0, 0, 0, 0, 0], 0, [some [5], none], true, false⟩ := ⟨by decide +kernel, by decide +kernel⟩
  refine ⟨_, _, Connector.traceOf_events _ _, hdemux, by decide +kernel, by decide +kernel, by decide +kernel,
    hsevered, hover.2 (fun c connection _ hget => ?_) 0 _ hsevered⟩
  rw [hnone] at hget
  cases hget

/-- The host socket ends, and the receiver of its one device calls before the
    connection is ended; then `close` is called, and cancelled while it waits for the runner. -/
def droppedSocket : List ConnectorEvent :=
  devicesOpened 1 ++ [.recvFailed, .receive 0, .close, .closeCancel 0, .runnerCancelled]

/-- The receiver waits although its socket is gone, and nobody is left who would end it. -/
theorem dropped_socket_waits : ∃ (trace : List (Connector × ConnectorEvent)) (s : Connector)
    (connection : DeviceConnection), Run Connector.Observed {} trace s ∧ trace.map (·.2) = droppedSocket ∧
      s.Severed 0 connection ∧ connection.receiving = true ∧ connection.inbound = [] ∧ ¬ Connector.Drains connection ∧
      s.runner = .ended ∧ s.closes = [.ended] := by
  have halong : Along Connector.perform Connector.Enabled {} droppedSocket := by decide +kernel
  have hreceiving : ¬ Connector.Drains ⟨[0, 0, 0, 0, 0, 0, 0, 0], 0, [], false, true⟩ := by
    intro hdrains
    exact hdrains.woken rfl rfl
  exact ⟨_, _, ⟨[0, 0, 0, 0, 0, 0, 0, 0], 0, [], false, true⟩, Connector.observed_run (run_of_along halong),
    Connector.traceOf_events _ _, ⟨by decide +kernel, by decide +kernel⟩, rfl, rfl, hreceiving, by decide +kernel,
    by decide +kernel⟩

end MercuryRelay
