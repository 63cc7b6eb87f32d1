/-
  What holds of a connector at every moment: the registry holds open connections,
  under their own ids and of the socket there is; a call of `send` holds on to the
  socket of its connection; a closed connection does not let its receiver wait.
-/
import MercuryRelay.Connector.Step

set_option autoImplicit false

namespace MercuryRelay

open Python Transition

namespace DeviceConnection

variable {c : DeviceConnection}

/-- The queue holds data, then perhaps the mark of the end, which only a closed
    connection has; a closed connection with a receiver that waits has an item. -/
structure Sound (c : DeviceConnection) : Prop where
  items : (∃ data : List Bytes, c.inbound = data.map some) ∨
    c.closed = true ∧ ∃ data : List Bytes, c.inbound = data.map some ++ [none]
  woken : c.closed = true → c.receiving = true → c.inbound ≠ []

theorem Sound.some_of_open (h : c.Sound) (hopen : c.closed = false) : ∀ item ∈ c.inbound, item ≠ none := by
  rcases h.items with ⟨data, hdata⟩ | ⟨hclosed, -⟩
  · intro item hitem
    rw [hdata] at hitem
    obtain ⟨d, -, rfl⟩ := List.mem_map.1 hitem
    simp
  · rw [hopen] at hclosed
    cases hclosed

@[simp] theorem put_closed (item : Option Bytes) : (c.put item).closed = c.closed := by
  unfold put
  split <;> rfl

@[simp] theorem put_connectionId (item : Option Bytes) : (c.put item).connectionId = c.connectionId := by
  unfold put
  split <;> rfl

@[simp] theorem put_openedOn (item : Option Bytes) : (c.put item).openedOn = c.openedOn := by
  unfold put
  split <;> rfl

@[simp] theorem put_receiving (item : Option Bytes) : (c.put item).receiving = c.receiving := by
  unfold put
  split <;> rfl

theorem put_inbound (item : Option Bytes) :
    (c.put item).inbound = if c.isFull then c.inbound else c.inbound ++ [item] := by
  unfold put
  split <;> rfl

/-- A function keeps who a connection is. -/
def Keeps (f : DeviceConnection → DeviceConnection) : Prop :=
  ∀ c, (f c).connectionId = c.connectionId ∧ (f c).openedOn = c.openedOn

theorem feed_keeps (data : Bytes) : Keeps fun c => (c.feed data).1 := by
  intro c
  dsimp only
  unfold feed
  split
  · exact ⟨rfl, rfl⟩
  · exact ⟨put_connectionId _, put_openedOn _⟩

theorem markClosed_keeps : Keeps markClosed := by
  intro c
  unfold markClosed
  split
  · exact ⟨rfl, rfl⟩
  · exact ⟨put_connectionId _, put_openedOn _⟩

theorem take_keeps : Keeps fun c => c.take.1 := by
  intro c
  dsimp only
  unfold take
  split <;> exact ⟨rfl, rfl⟩

theorem receive_keeps : Keeps fun c => c.receive.1 := by
  intro c
  dsimp only
  unfold receive
  split
  · exact ⟨rfl, rfl⟩
  · split
    · exact ⟨rfl, rfl⟩
    · exact take_keeps c

theorem receiveResume_keeps : Keeps fun c => c.receiveResume.1 := by
  intro c
  dsimp only
  unfold receiveResume
  split
  · exact ⟨rfl, rfl⟩
  · exact take_keeps c

theorem markClosed_closed (c : DeviceConnection) : c.markClosed.closed = true := by
  unfold markClosed
  split
  · assumption
  · simp

theorem Sound.feed (h : c.Sound) (data : Bytes) : (c.feed data).1.Sound := by
  unfold DeviceConnection.feed
  split
  · exact h
  · rename_i hopen
    rw [Bool.not_eq_true] at hopen
    refine ⟨.inl ?_, fun hc => ?_⟩
    · rcases h.items with ⟨items, hitems⟩ | ⟨hclosed, -⟩
      · rw [put_inbound]
        split
        · exact ⟨items, hitems⟩
        · exact ⟨items ++ [data], by simp [hitems]⟩
      · rw [hopen] at hclosed
        cases hclosed
    · rw [put_closed, hopen] at hc
      cases hc

theorem Sound.markClosed (h : c.Sound) : c.markClosed.Sound := by
  unfold DeviceConnection.markClosed
  split
  · exact h
  · rename_i hopen
    rw [Bool.not_eq_true] at hopen
    rcases h.items with ⟨items, hitems⟩ | ⟨hclosed, -⟩
    · refine ⟨?_, fun _ _ => ?_⟩
      · rw [put_inbound, put_closed]
        split
        · exact .inl ⟨items, hitems⟩
        · exact .inr ⟨rfl, items, by simp [hitems]⟩
      · rw [put_inbound]
        split
        · -- a full queue is not empty
          rename_i hfull
          intro hnil
          have hlen : inboundQueueLimit ≤ c.inbound.length := by simpa [isFull] using hfull
          rw [show c.inbound = [] from hnil] at hlen
          exact absurd hlen (by decide)
        · simp
    · rw [hopen] at hclosed
      cases hclosed

theorem Sound.take (h : c.Sound) : c.take.1.Sound := by
  unfold DeviceConnection.take
  split
  · exact h
  · rename_i item rest hinbound
    refine ⟨?_, fun _ hr => by cases hr⟩
    rcases h.items with ⟨items, hitems⟩ | ⟨hclosed, items, hitems⟩
    · cases items with
      | nil =>
        rw [hitems] at hinbound
        cases hinbound
      | cons d items =>
        rw [hitems, List.map_cons, List.cons.injEq] at hinbound
        exact .inl ⟨items, hinbound.2.symm⟩
    · cases items with
      | nil =>
        rw [hitems] at hinbound
        simp only [List.map_nil, List.nil_append, List.cons.injEq] at hinbound
        exact .inl ⟨[], hinbound.2.symm⟩
      | cons d items =>
        rw [hitems, List.map_cons, List.cons_append, List.cons.injEq] at hinbound
        exact .inr ⟨by simp [hclosed], items, hinbound.2.symm⟩

theorem Sound.receive (h : c.Sound) : c.receive.1.Sound := by
  unfold DeviceConnection.receive
  split
  · exact h
  · rename_i hopen
    split
    · rename_i hnil
      refine ⟨h.items, fun hclosed _ => ?_⟩
      exact absurd ⟨hclosed, hnil⟩ hopen
    · exact h.take

theorem Sound.receiveResume (h : c.Sound) : c.receiveResume.1.Sound := by
  unfold DeviceConnection.receiveResume
  split
  · exact h
  · exact h.take

/-- What is taken from an open connection leaves it open. -/
theorem Sound.take_closed (h : c.Sound) (hopen : c.closed = false) : c.take.1.closed = false := by
  unfold DeviceConnection.take
  split
  · exact hopen
  · rename_i item rest hinbound
    have hsome := h.some_of_open hopen item (by rw [hinbound]; exact List.mem_cons_self)
    simp [hopen, Option.isSome_iff_ne_none, hsome]

theorem Sound.receive_closed (h : c.Sound) (hopen : c.closed = false) : c.receive.1.closed = false := by
  unfold DeviceConnection.receive
  split
  · exact hopen
  · split
    · exact hopen
    · exact h.take_closed hopen

theorem Sound.receiveResume_closed (h : c.Sound) (hopen : c.closed = false) :
    c.receiveResume.1.closed = false := by
  unfold DeviceConnection.receiveResume
  split
  · exact hopen
  · exact h.take_closed hopen

end DeviceConnection

namespace Connector

/-- The socket that the runner has. -/
def runnerSocket (s : Connector) : Option ℕ :=
  match s.runner with
  | .reading socket | .closingDevice socket | .dropping socket _ => some socket
  | _ => none

/-- What holds of a connector at every moment. -/
structure Kept (s : Connector) : Prop where
  registered : ∀ (x : Bytes) (c : ℕ), s.registered.get x = some c →
    ∃ connection, s.connections[c]? = some connection ∧ connection.connectionId = x ∧
      connection.closed = false ∧ ∀ socket, s.runnerSocket = some socket → connection.openedOn = socket
  socket : ∀ socket, s.socket = some socket → s.runner = .reading socket ∨ s.runner = .closingDevice socket
  /-- between two sockets, nothing is registered -/
  between : s.runner = .idle ∨ s.runner = .connecting ∨ s.runner = .resting → s.registered = []
  sends : ∀ (k : ℕ) (call : SendCall), s.sends[k]? = some call → call.isEnded = false →
    ∃ connection, s.connections[call.connection]? = some connection ∧ connection.openedOn = call.socket
  sound : ∀ (c : ℕ) (connection : DeviceConnection), s.connections[c]? = some connection → connection.Sound

variable {s t : Connector} {c k : ℕ} {e : ConnectorEvent} {x : Bytes} {socket : ℕ}

theorem kept_new (depths : JsonDepths) : Kept { depths := depths } := by
  refine ⟨fun x c h => ?_, fun socket h => ?_, fun _ => rfl, fun k call h => ?_, fun c connection h => ?_⟩
  · cases h
  · cases h
  · simp at h
  · simp at h

/-- Only the parts of the state that nobody relies on change. -/
theorem Kept.congr (h : s.Kept) (hregistered : t.registered = s.registered)
    (hconnections : t.connections = s.connections) (hsends : t.sends = s.sends) (hrunner : t.runner = s.runner)
    (hsocket : t.socket = s.socket ∨ t.socket = none) : t.Kept := by
  have hsame : t.runnerSocket = s.runnerSocket := by rw [runnerSocket, hrunner, runnerSocket]
  refine ⟨?_, fun socket hs => ?_, ?_, ?_, ?_⟩
  · rw [hregistered, hconnections, hsame]
    exact h.registered
  · rw [hrunner]
    rcases hsocket with heq | hnone
    · exact h.socket socket (heq ▸ hs)
    · rw [hnone] at hs
      cases hs
  · rw [hregistered, hrunner]
    exact h.between
  · rw [hsends, hconnections]
    exact h.sends
  · rw [hconnections]
    exact h.sound

/-- A connection changes, and stays who it is. -/
theorem Kept.modifyConnection (h : s.Kept) {f : DeviceConnection → DeviceConnection}
    (hf : DeviceConnection.Keeps f) (hsound : ∀ connection, s.connections[c]? = some connection → (f connection).Sound)
    (hopen : ∀ connection, s.connections[c]? = some connection →
      s.registered.get connection.connectionId = some c → (f connection).closed = false) :
    (s.modifyConnection c f).Kept := by
  have hget : ∀ d : ℕ, (s.connections.modify c f)[d]? =
      if c = d then s.connections[d]?.map f else s.connections[d]? := by
    intro d
    rw [List.getElem?_modify]
    split <;> simp
  refine ⟨fun x d hd => ?_, h.socket, h.between, fun k call hk hopen' => ?_, fun d connection hd => ?_⟩
  · obtain ⟨connection, hconnection, hid, hclosed, hsocket⟩ := h.registered x d hd
    by_cases hcd : c = d
    · subst hcd
      refine ⟨f connection, ?_, (hf connection).1.trans hid, ?_, ?_⟩
      · simp [Connector.modifyConnection, hconnection]
      · exact hopen connection hconnection (by rw [hid]; exact hd)
      · intro socket hs
        rw [(hf connection).2]
        exact hsocket socket hs
    · refine ⟨connection, ?_, hid, hclosed, hsocket⟩
      show (s.connections.modify c f)[d]? = _
      rw [hget, if_neg hcd, hconnection]
  · obtain ⟨connection, hconnection, hsocket⟩ := h.sends k call hk hopen'
    show ∃ connection, (s.connections.modify c f)[call.connection]? = some connection ∧ _
    rw [hget]
    split
    · exact ⟨f connection, by simp [hconnection], (hf connection).2.trans hsocket⟩
    · exact ⟨connection, hconnection, hsocket⟩
  · rw [Connector.modifyConnection, hget] at hd
    split at hd
    · obtain ⟨old, hold, rfl⟩ := Option.map_eq_some_iff.1 hd
      rename_i hcd
      subst hcd
      exact hsound old hold
    · exact h.sound d connection hd

theorem Kept.dropSocket (h : s.Kept) (hs : s.runnerSocket = some socket) (cancelled : Bool) :
    (s.dropSocket socket cancelled).Kept := by
  refine ⟨fun x c hc => ?_, fun socket' h' => ?_, fun h' => ?_, h.sends, h.sound⟩
  · obtain ⟨connection, hconnection, hid, hclosed, hsocket⟩ := h.registered x c hc
    refine ⟨connection, hconnection, hid, hclosed, fun socket' hs' => ?_⟩
    obtain rfl : socket = socket' := Option.some.inj hs'
    exact hsocket _ hs
  · cases h'
  · simp [Connector.dropSocket] at h'

/-- The runner waits elsewhere, and has the same socket. -/
theorem Kept.withRunner (h : s.Kept) {runner : RunnerPhase} (hrunner : runner = s.runner ∨
    (match s.runner, runner with
      | .reading a, .closingDevice b | .closingDevice a, .reading b => a = b
      | _, _ => False)) : Kept { s with runner := runner } := by
  rcases hrunner with rfl | hrunner
  · exact h
  · split at hrunner
    case h_3 => exact hrunner.elim
    all_goals
      rename_i a b hs
      subst hrunner
      refine ⟨fun x c hc => ?_, fun socket hsocket => ?_, fun hr => by simp at hr, h.sends, h.sound⟩
      · obtain ⟨connection, hconnection, hid, hopen, hsame⟩ := h.registered x c hc
        refine ⟨connection, hconnection, hid, hopen, fun socket hsocket => hsame socket ?_⟩
        rw [runnerSocket, hs]
        exact hsocket
      · rcases h.socket socket hsocket with hr | hr
        all_goals
          rw [hs] at hr
          cases hr <;> simp

theorem dropConnection_runner : (s.dropConnection x).runner = s.runner := by
  unfold dropConnection
  split <;> rfl

theorem Kept.dropConnection (h : s.Kept) (x : Bytes) : (s.dropConnection x).Kept := by
  unfold Connector.dropConnection
  split
  · exact h
  · rename_i c hc
    have hremoved : Kept { s with registered := s.registered.remove x } := by
      refine ⟨fun y d hd => ?_, h.socket, fun hr => ?_, h.sends, h.sound⟩
      · have hd : (s.registered.remove x).get y = some d := hd
        rw [Dict.get_remove] at hd
        split at hd
        · cases hd
        · exact h.registered y d hd
      · show s.registered.remove x = []
        rw [h.between hr]
        rfl
    refine hremoved.modifyConnection DeviceConnection.markClosed_keeps
      (fun connection hcn => (h.sound c connection hcn).markClosed) fun connection hcn hr => ?_
    obtain ⟨connection', hcn', hid, -, -⟩ := h.registered x c hc
    obtain rfl : connection = connection' := Option.some.inj (hcn.symm.trans hcn')
    have hr : (s.registered.remove x).get connection.connectionId = some c := hr
    rw [Dict.get_remove, hid, if_pos rfl] at hr
    cases hr

theorem Kept.register (h : s.Kept) (hs : s.runnerSocket = some socket) (x : Bytes) : (s.register socket x).Kept := by
  have hold : ∀ (c : ℕ) (connection : DeviceConnection), s.connections[c]? = some connection →
      (s.register socket x).connections[c]? = some connection := by
    intro c connection hc
    show (s.connections ++ [_])[c]? = some connection
    rw [List.getElem?_append_left (List.getElem?_eq_some_iff.1 hc).1]
    exact hc
  refine ⟨fun y d hd => ?_, h.socket, fun hr => ?_, fun k call hk hopen => ?_, fun c connection hc => ?_⟩
  · have hd : (s.registered.set x s.connections.length).get y = some d := hd
    rw [Dict.get_set] at hd
    split at hd
    · rename_i hxy
      obtain rfl := Option.some.inj hd
      refine ⟨⟨x, socket, [], false, false⟩, by simp [Connector.register], hxy, rfl, fun socket' hs' => ?_⟩
      exact Option.some.inj (hs.symm.trans hs')
    · obtain ⟨connection, hconnection, hrest⟩ := h.registered y d hd
      exact ⟨connection, hold d connection hconnection, hrest⟩
  · rcases hr with hr | hr | hr
    all_goals
      have hr : s.runner = _ := hr
      rw [runnerSocket, hr] at hs
      cases hs
  · obtain ⟨connection, hconnection, hsocket⟩ := h.sends k call hk hopen
    exact ⟨connection, hold _ connection hconnection, hsocket⟩
  · have hc : (s.connections ++ [({ connectionId := x, openedOn := socket } : DeviceConnection)])[c]? =
      some connection := hc
    rw [List.getElem?_append] at hc
    split at hc
    · exact h.sound c connection hc
    · obtain rfl := List.mem_singleton.1 (List.mem_of_getElem? hc)
      exact ⟨.inl ⟨[], rfl⟩, fun hclosed => by cases hclosed⟩

theorem dropConnection_runnerSocket : (s.dropConnection x).runnerSocket = s.runnerSocket := by
  rw [runnerSocket, dropConnection_runner, runnerSocket]

theorem Kept.handleOpen (h : s.Kept) (hs : s.runnerSocket = some socket) (x : Bytes) :
    (s.handleOpen socket x).Kept := by
  have hregistered := (h.dropConnection x).register (dropConnection_runnerSocket.trans hs) x
  unfold Connector.handleOpen
  dsimp only
  split
  · refine (hregistered.dropConnection x).dropSocket ?_ false
    exact dropConnection_runnerSocket.trans (dropConnection_runnerSocket.trans hs)
  · exact hregistered.congr rfl rfl rfl rfl (.inl rfl)

theorem Kept.closeDevice (h : s.Kept) (c : ℕ) : (s.closeDevice c).Kept := by
  unfold Connector.closeDevice
  split
  · exact h
  · rename_i connection hconnection
    dsimp only
    have hmarked : ∀ registered wire, registered = s.registered.remove connection.connectionId ∨
        registered = s.registered ∧ s.registered.get connection.connectionId ≠ some c →
        Kept { s.modifyConnection c (·.markClosed) with registered := registered, wire := wire } := by
      intro registered wire hregistered
      have hfirst : Kept { s with registered := registered, wire := wire } := by
        rcases hregistered with rfl | ⟨rfl, -⟩
        · refine ⟨fun y d hd => ?_, h.socket, fun hr => ?_, h.sends, h.sound⟩
          · have hd : (s.registered.remove connection.connectionId).get y = some d := hd
            rw [Dict.get_remove] at hd
            split at hd
            · cases hd
            · exact h.registered y d hd
          · show s.registered.remove _ = []
            rw [h.between hr]
            rfl
        · exact h.congr rfl rfl rfl rfl (.inl rfl)
      refine hfirst.modifyConnection (f := (·.markClosed)) DeviceConnection.markClosed_keeps
        (fun other hother => (h.sound c other hother).markClosed) fun other hother hget => ?_
      obtain rfl : connection = other := Option.some.inj (hconnection.symm.trans hother)
      rcases hregistered with rfl | ⟨rfl, hne⟩
      · have hget : (s.registered.remove connection.connectionId).get connection.connectionId = some c := hget
        rw [Dict.get_remove, if_pos rfl] at hget
        cases hget
      · exact absurd hget hne
    split
    · rename_i hne
      exact hmarked s.registered s.wire (.inr ⟨rfl, hne⟩)
    · exact hmarked _ _ (.inl rfl)

theorem closeDevice_rest : (s.closeDevice c).runner = s.runner ∧ (s.closeDevice c).socket = s.socket := by
  unfold Connector.closeDevice
  split
  · exact ⟨rfl, rfl⟩
  · dsimp only
    split <;> exact ⟨rfl, rfl⟩

theorem Kept.handleBinary (h : s.Kept) (hs : s.runner = .reading socket) (data : Bytes) :
    (s.handleBinary socket data).Kept := by
  have hown : s.runnerSocket = some socket := by rw [runnerSocket, hs]
  unfold Connector.handleBinary
  split
  · exact h.dropSocket hown false
  split
  · exact h.dropSocket hown false
  split
  · exact h
  rename_i c hc
  split
  · exact h
  rename_i connection hconnection
  obtain ⟨connection', hconnection', hid, hopen, -⟩ := h.registered _ _ hc
  obtain rfl : connection = connection' := Option.some.inj (hconnection.symm.trans hconnection')
  dsimp only
  have hfed : (s.modifyConnection c fun other => (other.feed (data.drop connectionIdBytes)).1).Kept := by
    refine h.modifyConnection (DeviceConnection.feed_keeps _) (fun other hother => (h.sound c other hother).feed _)
      fun other hother _ => ?_
    obtain rfl : connection = other := Option.some.inj (hconnection.symm.trans hother)
    rw [DeviceConnection.feed, if_neg (by simp [hopen]), DeviceConnection.put_closed, hopen]
  split
  · exact hfed
  · have hclosed := hfed.closeDevice c
    have hrest := closeDevice_rest
      (s := s.modifyConnection c fun other => (other.feed (data.drop connectionIdBytes)).1) (c := c)
    have hrunner : _ = RunnerPhase.reading socket := hrest.1.trans hs
    split
    · refine hclosed.withRunner (.inr ?_)
      rw [hrunner]
    · refine hclosed.withRunner (.inl ?_)
      rw [hrunner]

theorem Kept.readFrame (h : s.Kept) (hs : s.runner = .reading socket) (frame : HostFrame) :
    (s.readFrame socket frame).Kept := by
  have hown : s.runnerSocket = some socket := by rw [runnerSocket, hs]
  cases frame with
  | control message =>
    unfold Connector.readFrame Connector.handleControl
    dsimp only
    split
    · exact h.dropSocket hown false
    · exact h.handleOpen hown _
    · exact h.dropConnection _
  | binary data => exact h.handleBinary hs data

/-! ## Sockets that end -/

theorem Kept.endAll (h : s.Kept) : s.endAll.Kept := by
  have hget : ∀ c : ℕ, s.endAll.connections[c]? = s.connections[c]?.map fun connection =>
      if c ∈ s.registered.map (·.2) then connection.markClosed else connection := by
    intro c
    simp [Connector.endAll, List.getElem?_mapIdx]
  refine ⟨fun x c hc => (by cases hc), h.socket, fun _ => rfl, fun k call hk hopen => ?_, fun c connection hc => ?_⟩
  · obtain ⟨connection, hconnection, hsocket⟩ := h.sends k call hk hopen
    rw [hget, hconnection]
    refine ⟨_, rfl, ?_⟩
    split
    · exact (DeviceConnection.markClosed_keeps connection).2.trans hsocket
    · exact hsocket
  · rw [hget] at hc
    obtain ⟨old, hold, rfl⟩ := Option.map_eq_some_iff.1 hc
    split
    · exact (h.sound c old hold).markClosed
    · exact h.sound c old hold

/-- Nothing is registered and there is no socket: the runner may be anywhere. -/
theorem Kept.vacant (h : s.Kept) (hregistered : s.registered = []) (hsocket : s.socket = none) (runner : RunnerPhase) :
    Kept { s with runner := runner } := by
  refine ⟨fun x c hc => ?_, fun socket hs => ?_, fun _ => hregistered, h.sends, h.sound⟩
  · have hc : s.registered.get x = some c := hc
    rw [hregistered] at hc
    cases hc
  · rw [show s.socket = some socket from hs] at hsocket
    cases hsocket

/-- The runner ends where it has no socket. -/
theorem Kept.runnerEnds (h : s.Kept) (hsocket : s.socket = none) : Kept { s with runner := .ended } := by
  refine ⟨fun x c hc => ?_, fun socket hs => ?_, fun hr => by simp at hr, h.sends, h.sound⟩
  · obtain ⟨connection, hconnection, hid, hopen, -⟩ := h.registered x c hc
    exact ⟨connection, hconnection, hid, hopen, fun _ hs => by cases hs⟩
  · rw [show s.socket = some socket from hs] at hsocket
    cases hsocket

theorem Kept.socket_none (h : s.Kept) (hreading : ∀ socket, s.runner ≠ .reading socket ∧ s.runner ≠ .closingDevice socket) :
    s.socket = none := by
  cases hs : s.socket with
  | none => rfl
  | some socket =>
    rcases h.socket socket hs with hr | hr
    · exact absurd hr (hreading socket).1
    · exact absurd hr (hreading socket).2

theorem Kept.finishClose (h : s.Kept) (j : ℕ) : (s.finishClose j).Kept :=
  h.endAll.congr rfl rfl rfl rfl (.inl rfl)

theorem Kept.closeSocket (h : s.Kept) (j : ℕ) : (s.closeSocket j).Kept := by
  unfold Connector.closeSocket
  split
  · exact h.finishClose j
  · exact h.congr rfl rfl rfl rfl (.inr rfl)

/-! ## Calls that send -/

theorem Kept.modifySend (h : s.Kept) {f : SendCall → SendCall} (hf : ∀ call, s.sends[k]? = some call →
    (f call).isEnded = false → call.isEnded = false ∧ (f call).connection = call.connection ∧
      (f call).socket = call.socket) : (s.modifySend k f).Kept := by
  refine ⟨h.registered, h.socket, h.between, fun j call hj hopen => ?_, h.sound⟩
  rw [Connector.modifySend, List.getElem?_modify] at hj
  obtain ⟨old, hold, rfl⟩ := Option.map_eq_some_iff.1 hj
  split at hopen
  · rename_i hkj
    subst hkj
    obtain ⟨hopen', hconnection, hsocket⟩ := hf old hold hopen
    simp only [if_true]
    rw [hconnection, hsocket]
    exact h.sends k old hold hopen'
  · rename_i hkj
    simp only [hkj, if_false]
    exact h.sends j old hold hopen

theorem Kept.endSend (h : s.Kept) (k : ℕ) (result : SendResult) : (s.endSend k result).Kept := by
  unfold Connector.endSend
  refine Kept.modifySend ?_ fun call _ hopen => ?_
  · exact h.congr rfl rfl rfl rfl (.inl rfl)
  · cases hopen

/-- A call that has not ended waits elsewhere. -/
theorem Kept.sendPhase (h : s.Kept) {call : SendCall} (hcall : s.sends[k]? = some call) (hopen : call.isEnded = false)
    (phase : SendPhase) : (s.modifySend k fun call => { call with phase := phase }).Kept := by
  refine h.modifySend fun other hother _ => ?_
  obtain rfl : call = other := Option.some.inj (hcall.symm.trans hother)
  exact ⟨hopen, rfl, rfl⟩

theorem Kept.transmit (h : s.Kept) {call : SendCall} (hcall : s.sends[k]? = some call) (hopen : call.isEnded = false) :
    (s.transmit k call).Kept := by
  unfold Connector.transmit
  split
  · have hsent : ∀ wire, Kept { s with wire := wire } := fun _ => h.congr rfl rfl rfl rfl (.inl rfl)
    apply Kept.sendPhase (hsent _)
    · exact hcall
    · exact hopen
  · exact h.endSend k _

theorem Kept.lockedSend (h : s.Kept) {call : SendCall} (hcall : s.sends[k]? = some call) (hopen : call.isEnded = false)
    (now : ℚ) : (s.lockedSend k now call).Kept := by
  have hlocked : Kept { s with outboundLock := some k } := h.congr rfl rfl rfl rfl (.inl rfl)
  unfold Connector.lockedSend
  dsimp only
  split
  · exact hlocked.sendPhase hcall hopen _
  · exact hlocked.transmit hcall hopen

/-- A new call of `send`. -/
theorem Kept.newSend (h : s.Kept) {call : SendCall} (hcall : call.isEnded = false → ∃ connection,
    s.connections[call.connection]? = some connection ∧ connection.openedOn = call.socket) :
    Kept { s with sends := s.sends ++ [call] } := by
  refine ⟨h.registered, h.socket, h.between, fun j other hj hopen => ?_, h.sound⟩
  have hj : (s.sends ++ [call])[j]? = some other := hj
  rw [List.getElem?_append] at hj
  split at hj
  · exact h.sends j other hj hopen
  · obtain rfl := List.mem_singleton.1 (List.mem_of_getElem? hj)
    exact hcall hopen

/-- A call of `send` on a registered connection. -/
theorem Kept.callSend (h : s.Kept) {connection : DeviceConnection} (hconnection : s.connections[c]? = some connection)
    (hsocket : s.socket = some socket) (hget : s.registered.get connection.connectionId = some c) (data : Bytes)
    (sender : Option ℕ) : Kept { s with sends := s.sends ++ [{
      connection := c
      data := data
      sender := sender
      socket := socket
      phase := .locking }] } := by
  obtain ⟨connection', hconnection', -, -, hopened⟩ := h.registered _ _ hget
  obtain rfl : connection = connection' := Option.some.inj (hconnection.symm.trans hconnection')
  have hrunner : s.runnerSocket = some socket := by
    rcases h.socket socket hsocket with hr | hr
    · rw [runnerSocket, hr]
    · rw [runnerSocket, hr]
  exact h.newSend fun _ => ⟨connection, hconnection, hopened socket hrunner⟩

theorem Kept.send (h : s.Kept) (c : ℕ) (data : Bytes) (sender : Option ℕ) (now : ℚ) (waits : Bool) :
    (s.send c data sender now waits).Kept := by
  have hrefused : (s.refuseSend c data sender).Kept := h.newSend fun hopen => by cases hopen
  unfold Connector.send
  split
  · rename_i connection socket hconnection hsocket
    split
    · exact hrefused
    · rename_i hmay
      have hget : s.registered.get connection.connectionId = some c := by
        by_contra hne
        exact hmay (.inr hne)
      have hcalled := h.callSend hconnection hsocket hget data sender
      dsimp only
      split
      · exact hcalled
      · exact hcalled.lockedSend (by simp) rfl now
  · exact hrefused

/-! ## Every event -/

theorem readingSocket_eq : s.readingSocket = some socket ↔ s.runner = .reading socket := by
  unfold readingSocket
  split
  · rename_i sk hr
    simp [hr]
  · rename_i hne
    simp only [reduceCtorEq, false_iff]
    exact hne socket

theorem Kept.onSend (h : s.Kept) {f : SendCall → Connector} (hf : ∀ call, s.sends[k]? = some call → (f call).Kept) :
    (s.onSend k f).Kept := by
  unfold Connector.onSend
  cases hcall : s.sends[k]? with
  | none => exact h
  | some call => exact hf call hcall

theorem Kept.cancelRunner (h : s.Kept) : s.cancelRunner.Kept := by
  have hflag : Kept { s with runnerCancelled := false } := h.congr rfl rfl rfl rfl (.inl rfl)
  unfold Connector.cancelRunner
  dsimp only
  split
  · rename_i socket hr
    exact hflag.dropSocket (by rw [runnerSocket]; simp [hr]) true
  · rename_i socket hr
    exact hflag.dropSocket (by rw [runnerSocket]; simp [hr]) true
  · rename_i hreading hclosing
    exact hflag.runnerEnds (h.socket_none fun socket => ⟨hreading socket, hclosing socket⟩)

/-- **Every event keeps the invariant.** -/
theorem kept_step (h : s.Kept) (hs : Step s e t) : t.Kept := by
  obtain ⟨hen, rfl⟩ := hs
  cases e with
  | start =>
    simp only [perform]
    split
    · rename_i hidle
      refine h.vacant (h.between (.inl hidle.1)) (h.socket_none fun socket => ?_) _
      simp [hidle.1]
    · exact h
  | connected ok =>
    have hr : s.runner = .connecting := by simpa using hen.1
    have hregistered := h.between (.inr (.inl hr))
    simp only [perform]
    split
    · refine ⟨fun x c hc => ?_, fun socket hs => ?_, fun _ => hregistered, h.sends, h.sound⟩
      · have hc : s.registered.get x = some c := hc
        rw [hregistered] at hc
        cases hc
      · obtain rfl := Option.some.inj hs
        exact .inl rfl
    · exact h.vacant hregistered (h.socket_none fun socket => by simp [hr]) _
  | frame frame =>
    simp only [perform]
    cases hr : s.readingSocket with
    | none => exact h
    | some socket => exact h.readFrame (readingSocket_eq.1 hr) frame
  | recvFailed =>
    simp only [perform]
    cases hr : s.readingSocket with
    | none => exact h
    | some socket => exact h.dropSocket (by rw [runnerSocket, readingSocket_eq.1 hr]) false
  | noticeDone =>
    simp only [perform]
    split
    · rename_i socket hr
      refine h.withRunner (.inr ?_)
      rw [hr]
    · exact h
  | dropped =>
    simp only [perform]
    split
    · rename_i socket cancelled hr
      exact h.endAll.vacant rfl (h.socket_none fun socket => by simp [hr]) _
    · exact h
  | rested =>
    have hr : s.runner = .resting := by simpa using hen.1
    exact h.vacant (h.between (.inr (.inr hr))) (h.socket_none fun socket => by simp [hr]) _
  | runnerCancelled => exact h.cancelRunner
  | accept => exact h.congr rfl rfl rfl rfl (.inl rfl)
  | receive c =>
    refine h.modifyConnection DeviceConnection.receive_keeps (fun connection hc => (h.sound c connection hc).receive)
      fun connection hc hget => ?_
    obtain ⟨connection', hc', -, hopen, -⟩ := h.registered _ _ hget
    obtain rfl : connection = connection' := Option.some.inj (hc.symm.trans hc')
    exact (h.sound c connection hc).receive_closed hopen
  | receiveResume c =>
    refine h.modifyConnection DeviceConnection.receiveResume_keeps
      (fun connection hc => (h.sound c connection hc).receiveResume) fun connection hc hget => ?_
    obtain ⟨connection', hc', -, hopen, -⟩ := h.registered _ _ hget
    obtain rfl : connection = connection' := Option.some.inj (hc.symm.trans hc')
    exact (h.sound c connection hc).receiveResume_closed hopen
  | receiveCancel c =>
    refine h.modifyConnection (fun _ => ⟨rfl, rfl⟩) (fun connection hc => ⟨(h.sound c connection hc).items,
      fun _ hr => by cases hr⟩) fun connection hc hget => ?_
    obtain ⟨connection', hc', -, hopen, -⟩ := h.registered _ _ hget
    obtain rfl : connection = connection' := Option.some.inj (hc.symm.trans hc')
    exact hopen
  | closeDevice c =>
    simp only [perform, deviceClose]
    split
    · exact h
    · exact h.closeDevice c
  | send c data sender now waits => exact h.send c data sender now waits
  | sendResume k now =>
    refine h.onSend fun call hcall => ?_
    unfold sendResume
    split
    · rename_i hphase
      exact h.lockedSend hcall (by simp [SendCall.isEnded, hphase]) now
    · rename_i hphase
      exact h.transmit hcall (by simp [SendCall.isEnded, hphase])
    · exact h
  | sendDone k ok now =>
    refine h.onSend fun call hcall => ?_
    unfold sendDone
    split
    · have hpaced : ∀ next, Kept { s with outboundNext := next } := fun _ => h.congr rfl rfl rfl rfl (.inl rfl)
      exact (hpaced _).endSend k _
    · exact h.endSend k _
  | sendCancel k =>
    refine h.modifySend fun call _ hopen => ⟨?_, rfl, rfl⟩
    exact hopen
  | sendCancelled k => exact h.endSend k _
  | close =>
    have hclosed : ∀ closes, Kept { s with closed := true, closes := closes } := fun _ =>
      h.congr rfl rfl rfl rfl (.inl rfl)
    simp only [perform, close]
    split
    · exact h.congr rfl rfl rfl rfl (.inl rfl)
    · exact (hclosed _).closeSocket _
  | closeResume j =>
    simp only [perform]
    split
    · exact h.closeSocket j
    · exact h.finishClose j
    · exact h
  | closeCancel j => exact h.congr rfl rfl rfl rfl (.inl rfl)

theorem kept_run {events : List ConnectorEvent} (h : Run Step s events t) (hs : s.Kept) : t.Kept :=
  h.invariant (fun _ _ _ hkept hstep => kept_step hkept hstep) hs

end Connector

end MercuryRelay
