/-
  What reaches the receiver of a device connection.

  * `perform_calm`: which events leave the queues alone;
  * `recorded_run`: the data received and the data queued are the data accepted.
-/
import MercuryRelay.Connector.Invariant

set_option autoImplicit false

namespace MercuryRelay

open Python Transition

/-- The data that stand in the queue. -/
def DeviceConnection.payload (c : DeviceConnection) : List Bytes := c.inbound.filterMap id

/-- The data that a call of `receive` gives. -/
def DeviceConnection.Received.data? : DeviceConnection.Received → Option Bytes
  | .data message => some message
  | _ => none

namespace Connector

/-- One event happens; its label carries the state that it met. -/
def Observed (s : Connector) (l : Connector × ConnectorEvent) (t : Connector) : Prop :=
  l.1 = s ∧ Step s l.2 t

/-- What the receiver of `c` gets by an event. -/
def receives (c : ℕ) (l : Connector × ConnectorEvent) : Option Bytes :=
  match l.2 with
  | .receive d => if d = c then l.1.connections[c]?.bind fun connection => connection.receive.2.data? else none
  | .receiveResume d =>
    if d = c then l.1.connections[c]?.bind fun connection => connection.receiveResume.2.data? else none
  | _ => none

/-- What the receiver of `c` gets in a trace, in order. -/
def receivedOf (c : ℕ) (trace : List (Connector × ConnectorEvent)) : List Bytes := trace.filterMap (receives c)

/-- A binary frame that meets `c` registered under its id: its payload, and whether
    the queue has room. -/
def arrives (c : ℕ) (l : Connector × ConnectorEvent) : Option (Bytes × Bool) :=
  match l.2 with
  | .frame (.binary data) =>
    if connectionIdBytes ≤ data.length ∧ data.length ≤ maxHostFrameBytes ∧
        l.1.registered.get (data.take connectionIdBytes) = some c then
      l.1.connections[c]?.map fun connection => (data.drop connectionIdBytes, !connection.isFull)
    else none
  | _ => none

def arrivals (c : ℕ) (trace : List (Connector × ConnectorEvent)) : List (Bytes × Bool) :=
  trace.filterMap (arrives c)

/-- The payloads for `c` of a trace, up to the first that its full queue refused. -/
def acceptedBy (c : ℕ) (trace : List (Connector × ConnectorEvent)) : List Bytes :=
  ((arrivals c trace).takeWhile (·.2)).map (·.1)

variable {s t u : Connector} {c d k : ℕ} {e : ConnectorEvent} {x : Bytes} {socket : ℕ}
  {trace after : List (Connector × ConnectorEvent)}

theorem receivedOf_append : receivedOf c (trace ++ after) = receivedOf c trace ++ receivedOf c after :=
  List.filterMap_append

theorem arrivals_append : arrivals c (trace ++ after) = arrivals c trace ++ arrivals c after :=
  List.filterMap_append

/-! ## What leaves the queues alone -/

/-- The queues keep their data; a connection that is closed stays closed, and a
    new one has no data. -/
structure Calm (s t : Connector) : Prop where
  kept : ∀ (c : ℕ) (connection : DeviceConnection), s.connections[c]? = some connection →
    ∃ connection', t.connections[c]? = some connection' ∧ connection'.payload = connection.payload ∧
      (connection.closed = true → connection'.closed = true) ∧
      connection'.connectionId = connection.connectionId ∧ connection'.openedOn = connection.openedOn
  fresh : ∀ (c : ℕ) (connection : DeviceConnection), s.connections[c]? = none →
    t.connections[c]? = some connection → connection.payload = []

theorem Calm.refl (s : Connector) : Calm s s :=
  ⟨fun _ connection h => ⟨connection, h, rfl, id, rfl, rfl⟩, fun _ _ h h' => by rw [h] at h'; cases h'⟩

theorem Calm.of_eq (h : t.connections = s.connections) : Calm s t := by
  refine ⟨fun c connection hc => ⟨connection, ?_, rfl, id, rfl, rfl⟩, fun c connection hc hc' => ?_⟩
  · rw [h]
    exact hc
  · rw [h, hc] at hc'
    cases hc'

theorem Calm.trans (h : Calm s t) (h' : Calm t u) : Calm s u := by
  refine ⟨fun c connection hc => ?_, fun c connection hc hc' => ?_⟩
  · obtain ⟨m, hm, hpayload, hclosed, hid, hsocket⟩ := h.kept c connection hc
    obtain ⟨n, hn, hpayload', hclosed', hid', hsocket'⟩ := h'.kept c m hm
    exact ⟨n, hn, hpayload'.trans hpayload, hclosed' ∘ hclosed, hid'.trans hid, hsocket'.trans hsocket⟩
  · cases hm : t.connections[c]? with
    | none => exact h'.fresh c connection hm hc'
    | some m =>
      obtain ⟨n, hn, hpayload, -⟩ := h'.kept c m hm
      obtain rfl := Option.some.inj (hn.symm.trans hc')
      exact hpayload.trans (h.fresh c m hc hm)

/-- A function leaves the data of a connection alone. -/
def Quiet (f : DeviceConnection → DeviceConnection) : Prop :=
  ∀ c, (f c).payload = c.payload ∧ (c.closed = true → (f c).closed = true) ∧
    (f c).connectionId = c.connectionId ∧ (f c).openedOn = c.openedOn

theorem markClosed_quiet : Quiet DeviceConnection.markClosed := by
  intro c
  refine ⟨?_, fun _ => DeviceConnection.markClosed_closed c, DeviceConnection.markClosed_keeps c⟩
  unfold DeviceConnection.markClosed
  split
  · rfl
  · unfold DeviceConnection.payload
    rw [DeviceConnection.put_inbound]
    split
    · rfl
    · simp

theorem Calm.mapConnections {f : ℕ → DeviceConnection → DeviceConnection} (hf : ∀ c, Quiet (f c))
    (h : ∀ c : ℕ, t.connections[c]? = s.connections[c]?.map (f c)) : Calm s t := by
  refine ⟨fun c connection hc => ?_, fun c connection hc hc' => ?_⟩
  · exact ⟨f c connection, by rw [h, hc]; rfl, hf c connection⟩
  · rw [h, hc] at hc'
    cases hc'

theorem modifyConnection_getElem (f : DeviceConnection → DeviceConnection) (d : ℕ) :
    (s.modifyConnection c f).connections[d]? = s.connections[d]?.map fun other => if c = d then f other else other := by
  rw [modifyConnection, List.getElem?_modify]
  split
  · simp
  · simp

theorem modifyConnection_calm {f : DeviceConnection → DeviceConnection} (hf : Quiet f) :
    Calm s (s.modifyConnection c f) := by
  refine .mapConnections (f := fun d other => if c = d then f other else other) (fun d connection => ?_)
    (modifyConnection_getElem f)
  dsimp only
  split
  · exact hf connection
  · exact ⟨rfl, id, rfl, rfl⟩

theorem dropConnection_calm (x : Bytes) : Calm s (s.dropConnection x) := by
  unfold dropConnection
  split
  · exact .refl s
  · refine Calm.trans (.of_eq ?_) (modifyConnection_calm markClosed_quiet)
    rfl

theorem endAll_getElem (d : ℕ) : s.endAll.connections[d]? = s.connections[d]?.map fun other =>
    if d ∈ s.registered.map (·.2) then other.markClosed else other := by
  simp [endAll, List.getElem?_mapIdx]

theorem endAll_calm : Calm s s.endAll := by
  refine .mapConnections (f := fun d other => if d ∈ s.registered.map (·.2) then other.markClosed else other)
    (fun d connection => ?_) endAll_getElem
  dsimp only
  split
  · exact markClosed_quiet connection
  · exact ⟨rfl, id, rfl, rfl⟩

theorem closeDevice_calm (c : ℕ) : Calm s (s.closeDevice c) := by
  unfold closeDevice
  split
  · exact .refl s
  · dsimp only
    split
    · exact modifyConnection_calm markClosed_quiet
    · exact (modifyConnection_calm markClosed_quiet).trans (.of_eq rfl)

theorem register_calm (x : Bytes) : Calm s (s.register socket x) := by
  refine ⟨fun c connection hc => ⟨connection, ?_, rfl, id, rfl, rfl⟩, fun c connection hc hc' => ?_⟩
  · show (s.connections ++ [_])[c]? = some connection
    rw [List.getElem?_append_left (List.getElem?_eq_some_iff.1 hc).1]
    exact hc
  · have hc' : (s.connections ++ [({ connectionId := x, openedOn := socket } : DeviceConnection)])[c]? =
      some connection := hc'
    rw [List.getElem?_append_right (List.getElem?_eq_none_iff.1 hc)] at hc'
    obtain rfl := List.mem_singleton.1 (List.mem_of_getElem? hc')
    rfl

theorem handleOpen_calm (x : Bytes) : Calm s (s.handleOpen socket x) := by
  have hregistered := (dropConnection_calm (s := s) x).trans (@register_calm _ socket x)
  unfold handleOpen
  dsimp only
  split
  · exact (hregistered.trans (dropConnection_calm x)).trans (.of_eq rfl)
  · exact hregistered.trans (.of_eq rfl)

theorem onSend_calm {f : SendCall → Connector} (hf : ∀ call, (f call).connections = s.connections) :
    Calm s (s.onSend k f) := by
  unfold onSend
  cases s.sends[k]? with
  | none => exact .refl s
  | some call => exact .of_eq (hf call)

theorem transmit_connections (call : SendCall) : (s.transmit k call).connections = s.connections := by
  unfold transmit
  split <;> rfl

theorem lockedSend_connections (now : ℚ) (call : SendCall) :
    (s.lockedSend k now call).connections = s.connections := by
  unfold lockedSend
  dsimp only
  split
  · rfl
  · exact transmit_connections call

theorem send_connections (data : Bytes) (sender : Option ℕ) (now : ℚ) (waits : Bool) :
    (s.send c data sender now waits).connections = s.connections := by
  unfold send
  split
  · split
    · rfl
    · dsimp only
      split
      · rfl
      · exact lockedSend_connections now _
  · rfl

/-- The event may give a receiver something, or bring data. -/
def Moves : ConnectorEvent → Prop
  | .receive _ | .receiveResume _ | .frame (.binary _) => True
  | _ => False

/-- **Other events leave the queues alone.** -/
theorem perform_calm (he : ¬ Moves e) : Calm s (s.perform e) := by
  cases e with
  | receive => exact absurd trivial he
  | receiveResume => exact absurd trivial he
  | frame frame =>
    cases frame with
    | binary => exact absurd trivial he
    | control message =>
      simp only [perform]
      cases s.readingSocket with
      | none => exact .refl s
      | some socket =>
        show Calm s (s.handleControl socket message)
        unfold handleControl
        split
        · exact .of_eq rfl
        · exact handleOpen_calm _
        · exact dropConnection_calm _
  | start =>
    simp only [perform]
    split <;> exact .of_eq rfl
  | connected ok =>
    simp only [perform]
    split <;> exact .of_eq rfl
  | recvFailed =>
    simp only [perform]
    cases s.readingSocket <;> exact .of_eq rfl
  | noticeDone =>
    simp only [perform]
    split <;> exact .of_eq rfl
  | dropped =>
    simp only [perform]
    split
    · exact endAll_calm.trans (.of_eq rfl)
    · exact .refl s
  | rested => exact .of_eq rfl
  | runnerCancelled =>
    simp only [perform, cancelRunner]
    split <;> exact .of_eq rfl
  | accept => exact .of_eq rfl
  | receiveCancel c => exact modifyConnection_calm fun _ => ⟨rfl, id, rfl, rfl⟩
  | closeDevice c =>
    simp only [perform, deviceClose]
    split
    · exact .refl s
    · exact closeDevice_calm c
  | send c data sender now waits => exact .of_eq (send_connections data sender now waits)
  | sendResume k now =>
    refine onSend_calm fun call => ?_
    unfold sendResume
    split
    · exact lockedSend_connections now call
    · exact transmit_connections call
    · rfl
  | sendDone k ok now =>
    refine onSend_calm fun call => ?_
    unfold sendDone
    split <;> rfl
  | sendCancel k => exact .of_eq rfl
  | sendCancelled k => exact .of_eq rfl
  | close =>
    have hfinish : ∀ (m : Connector) (j : ℕ), Calm m (m.closeSocket j) := by
      intro m j
      unfold closeSocket
      split
      · exact endAll_calm.trans (.of_eq rfl)
      · exact .of_eq rfl
    simp only [perform, close]
    split
    · exact .of_eq rfl
    · refine Calm.trans (.of_eq ?_) (hfinish _ _)
      rfl
  | closeResume j =>
    simp only [perform]
    split
    · unfold closeSocket
      split
      · exact endAll_calm.trans (.of_eq rfl)
      · exact .of_eq rfl
    · exact endAll_calm.trans (.of_eq rfl)
    · exact .refl s
  | closeCancel j => exact .of_eq rfl

/-! ## What was received, and what was accepted -/

/-- What a trace says of the connections that it leads to. -/
structure Recorded (trace : List (Connector × ConnectorEvent)) (s : Connector) : Prop where
  data : ∀ (c : ℕ) (connection : DeviceConnection), s.connections[c]? = some connection →
    receivedOf c trace ++ connection.payload = acceptedBy c trace
  fresh : ∀ c : ℕ, s.connections[c]? = none → receivedOf c trace = [] ∧ arrivals c trace = []
  /-- an open connection has refused nothing -/
  room : ∀ (c : ℕ) (connection : DeviceConnection), s.connections[c]? = some connection →
    connection.closed = false → ∀ arrival ∈ arrivals c trace, arrival.2 = true

theorem receivedOf_snoc (l : Connector × ConnectorEvent) :
    receivedOf c (trace ++ [l]) = receivedOf c trace ++ (receives c l).toList := by
  rw [receivedOf_append]
  congr 1

theorem arrivals_snoc (l : Connector × ConnectorEvent) :
    arrivals c (trace ++ [l]) = arrivals c trace ++ (arrives c l).toList := by
  rw [arrivals_append]
  congr 1

/-- One connection changes; the event gives its receiver what leaves the queue, or
    brings what comes in. -/
theorem Recorded.snoc (h : Recorded trace s) {l : Connector × ConnectorEvent} (hcalm : ∀ c, receives c l = none →
      arrives c l = none → ∀ connection, t.connections[c]? = some connection →
        (∃ old, s.connections[c]? = some old ∧ connection.payload = old.payload ∧
          (old.closed = true → connection.closed = true)) ∨ s.connections[c]? = none ∧ connection.payload = [])
    (hlength : ∀ c : ℕ, t.connections[c]? = none → s.connections[c]? = none)
    (hreceives : ∀ c message, receives c l = some message → ∃ old connection, s.connections[c]? = some old ∧
      t.connections[c]? = some connection ∧ arrives c l = none ∧ old.payload = message :: connection.payload ∧
        (old.closed = true → connection.closed = true))
    (harrives : ∀ c arrival, arrives c l = some arrival → ∃ old connection, s.connections[c]? = some old ∧
      t.connections[c]? = some connection ∧ receives c l = none ∧ old.closed = false ∧
        (arrival.2 = true → connection.payload = old.payload ++ [arrival.1]) ∧
        (arrival.2 = false → connection.payload = old.payload ∧ connection.closed = true)) :
    Recorded (trace ++ [l]) t := by
  refine ⟨fun c connection hc => ?_, fun c hc => ?_, fun c connection hc hopen => ?_⟩
  · rw [receivedOf_snoc, acceptedBy, arrivals_snoc]
    cases hr : receives c l with
    | some message =>
      obtain ⟨old, connection', hold, hc', hnone, hpayload, -⟩ := hreceives c message hr
      obtain rfl := Option.some.inj (hc.symm.trans hc')
      have hdata := h.data c old hold
      rw [hpayload, acceptedBy] at hdata
      rw [hnone]
      simpa using hdata
    | none =>
      cases ha : arrives c l with
      | none =>
        simp only [Option.toList_none, List.append_nil]
        rcases hcalm c hr ha connection hc with ⟨old, hold, hpayload, -⟩ | ⟨hnone, hpayload⟩
        · rw [hpayload]
          exact h.data c old hold
        · obtain ⟨hreceived, harrivals⟩ := h.fresh c hnone
          rw [hreceived, harrivals, hpayload]
          rfl
      | some arrival =>
        obtain ⟨old, connection', hold, hc', -, hopen, hroom, hfull⟩ := harrives c arrival ha
        obtain rfl := Option.some.inj (hc.symm.trans hc')
        have hall := h.room c old hold hopen
        have hdata := h.data c old hold
        rw [acceptedBy, ← List.append_nil (arrivals c trace), List.takeWhile_append_of_pos hall] at hdata
        rw [List.takeWhile_append_of_pos hall]
        cases harrival : arrival.2 with
        | true =>
          rw [hroom harrival]
          simp only [Option.toList_none, Option.toList_some, List.append_nil, List.takeWhile_cons, harrival,
            if_true, List.takeWhile_nil, List.map_append, List.map_cons, List.map_nil] at hdata ⊢
          rw [← List.append_assoc, hdata]
        | false =>
          rw [(hfull harrival).1]
          simpa [List.takeWhile_cons, harrival] using hdata
  · have hnone := hlength c hc
    obtain ⟨hreceived, harrivals⟩ := h.fresh c hnone
    rw [receivedOf_snoc, arrivals_snoc, hreceived, harrivals]
    cases hr : receives c l with
    | some message =>
      obtain ⟨old, -, hold, -⟩ := hreceives c message hr
      rw [hnone] at hold
      cases hold
    | none =>
      cases ha : arrives c l with
      | some arrival =>
        obtain ⟨old, -, hold, -⟩ := harrives c arrival ha
        rw [hnone] at hold
        cases hold
      | none => exact ⟨rfl, rfl⟩
  · intro arrival harrival
    rw [arrivals_snoc, List.mem_append] at harrival
    cases ha : arrives c l with
    | none =>
      rw [ha] at harrival
      have hold : arrival ∈ arrivals c trace := by simpa using harrival
      cases hr : receives c l with
      | some message =>
        obtain ⟨old, connection', hold', hc', -, -, hclosed⟩ := hreceives c message hr
        obtain rfl := Option.some.inj (hc.symm.trans hc')
        refine h.room c old hold' ?_ arrival hold
        by_contra hne
        rw [hclosed (by simpa using hne)] at hopen
        cases hopen
      | none =>
        rcases hcalm c hr ha connection hc with ⟨old, hold', -, hclosed⟩ | ⟨hnone, -⟩
        · refine h.room c old hold' ?_ arrival hold
          by_contra hne
          rw [hclosed (by simpa using hne)] at hopen
          cases hopen
        · rw [(h.fresh c hnone).2] at hold
          cases hold
    | some new =>
      obtain ⟨old, connection', hold', hc', -, hopen', -, hfull⟩ := harrives c new ha
      obtain rfl := Option.some.inj (hc.symm.trans hc')
      rcases harrival with hold | hnew
      · exact h.room c old hold' hopen' arrival hold
      · rw [ha, Option.toList_some, List.mem_singleton] at hnew
        subst hnew
        by_contra hne
        rw [(hfull (by simpa using hne)).2] at hopen
        cases hopen

theorem take_payload {c : DeviceConnection} (h : c.inbound ≠ []) :
    c.payload = (DeviceConnection.Received.of c.take.2).data?.toList ++ c.take.1.payload ∧
      (c.closed = true → c.take.1.closed = true) := by
  unfold DeviceConnection.take
  split
  · rename_i hnil
    exact absurd hnil h
  · rename_i item rest hinbound
    refine ⟨?_, fun hclosed => by simp [hclosed]⟩
    cases item with
    | none => simp [DeviceConnection.payload, hinbound, DeviceConnection.Received.of, DeviceConnection.Received.data?]
    | some message =>
      simp [DeviceConnection.payload, hinbound, DeviceConnection.Received.of, DeviceConnection.Received.data?]

theorem receive_payload (c : DeviceConnection) :
    c.payload = c.receive.2.data?.toList ++ c.receive.1.payload ∧ (c.closed = true → c.receive.1.closed = true) := by
  unfold DeviceConnection.receive
  split
  · exact ⟨rfl, id⟩
  · split
    · exact ⟨rfl, id⟩
    · rename_i hne
      exact take_payload hne

theorem receiveResume_payload (c : DeviceConnection) :
    c.payload = c.receiveResume.2.data?.toList ++ c.receiveResume.1.payload ∧
      (c.closed = true → c.receiveResume.1.closed = true) := by
  unfold DeviceConnection.receiveResume
  split
  · exact ⟨rfl, id⟩
  · rename_i hne
    exact take_payload hne

/-- A receiver takes an item. -/
theorem Recorded.taken (h : Recorded trace s) {l : Connector × ConnectorEvent}
    {f : DeviceConnection → DeviceConnection × DeviceConnection.Received}
    (hf : ∀ c, c.payload = (f c).2.data?.toList ++ (f c).1.payload ∧ (c.closed = true → (f c).1.closed = true))
    (hreceives : ∀ c, receives c l =
      if d = c then s.connections[c]?.bind fun connection => (f connection).2.data? else none)
    (harrives : ∀ c, arrives c l = none) : Recorded (trace ++ [l]) (s.modifyConnection d fun c => (f c).1) := by
  refine h.snoc (fun c hr _ connection hc => .inl ?_) (fun c hc => ?_) (fun c message hr => ?_)
    (fun c arrival ha => ?_)
  · rw [modifyConnection_getElem] at hc
    obtain ⟨old, hold, rfl⟩ := Option.map_eq_some_iff.1 hc
    refine ⟨old, hold, ?_⟩
    split
    · rename_i hdc
      rw [hreceives, if_pos hdc, hold, Option.bind_some] at hr
      obtain ⟨hpayload, hclosed⟩ := hf old
      rw [hr] at hpayload
      exact ⟨hpayload.symm, hclosed⟩
    · exact ⟨rfl, id⟩
  · rw [modifyConnection_getElem] at hc
    simpa using hc
  · rw [hreceives] at hr
    split at hr
    · rename_i hdc
      obtain ⟨old, hold, hmessage⟩ := Option.bind_eq_some_iff.1 hr
      obtain ⟨hpayload, hclosed⟩ := hf old
      refine ⟨old, (f old).1, hold, ?_, harrives c, ?_, hclosed⟩
      · rw [modifyConnection_getElem, hold]
        simp [hdc]
      · rw [hpayload, hmessage]
        rfl
    · cases hr
  · rw [harrives] at ha
    cases ha

theorem closeDevice_getElem : (s.closeDevice c).connections[c]? = s.connections[c]?.map (·.markClosed) := by
  unfold closeDevice
  split
  · rename_i hnone
    rw [hnone]
    rfl
  · dsimp only
    split <;> simp [modifyConnection]

theorem closeDevice_getElem_of_ne (h : c ≠ d) : (s.closeDevice c).connections[d]? = s.connections[d]? := by
  unfold closeDevice
  split
  · rfl
  · dsimp only
    split <;> simp [modifyConnection, h]

/-- The connections after a binary frame for `c`. -/
theorem handleBinary_connections {data : Bytes} (hlow : connectionIdBytes ≤ data.length)
    (hhigh : data.length ≤ maxHostFrameBytes) (hc : s.registered.get (data.take connectionIdBytes) = some c)
    {connection : DeviceConnection} (hconnection : s.connections[c]? = some connection) (hopen : connection.closed = false) :
    (s.handleBinary socket data).connections[c]? = some (if connection.isFull then connection.markClosed
      else { connection with inbound := connection.inbound ++ [some (data.drop connectionIdBytes)] }) ∧
    ∀ d, c ≠ d → (s.handleBinary socket data).connections[d]? = s.connections[d]? := by
  have hfeed : connection.feed (data.drop connectionIdBytes) =
      (connection.put (some (data.drop connectionIdBytes)), !connection.isFull) := by
    rw [DeviceConnection.feed, if_neg (by simp [hopen])]
  unfold handleBinary
  rw [if_neg (Nat.not_lt.2 hhigh), if_neg (Nat.not_lt.2 hlow), hc]
  dsimp only
  rw [hconnection]
  dsimp only
  rw [hfeed]
  cases hfull : connection.isFull with
  | false =>
    simp only [Bool.not_false, if_true, Bool.false_eq_true, if_false]
    refine ⟨?_, fun d hne => ?_⟩
    · rw [modifyConnection_getElem, hconnection]
      simp [hfeed, DeviceConnection.put, hfull]
    · rw [modifyConnection_getElem]
      simp [hne]
  | true =>
    simp only [Bool.not_true, Bool.false_eq_true, if_false, if_true]
    refine ⟨?_, fun d hne => ?_⟩
    · rw [closeDevice_getElem, modifyConnection_getElem, hconnection]
      simp [hfeed, DeviceConnection.put, hfull]
    · rw [closeDevice_getElem_of_ne hne, modifyConnection_getElem]
      simp [hne]

theorem Recorded.calm (h : Recorded trace s) (hcalm : Calm s t) {l : Connector × ConnectorEvent}
    (hreceives : ∀ c, receives c l = none) (harrives : ∀ c, arrives c l = none) : Recorded (trace ++ [l]) t := by
  refine h.snoc (fun c _ _ connection hc => ?_) (fun c hc => ?_) (fun c message hr => ?_) (fun c arrival ha => ?_)
  · cases hold : s.connections[c]? with
    | none => exact .inr ⟨rfl, hcalm.fresh c connection hold hc⟩
    | some old =>
      obtain ⟨connection', hc', hpayload, hclosed, -⟩ := hcalm.kept c old hold
      obtain rfl := Option.some.inj (hc.symm.trans hc')
      exact .inl ⟨old, rfl, hpayload, hclosed⟩
  · by_contra hne
    obtain ⟨old, hold⟩ := Option.ne_none_iff_exists'.1 hne
    obtain ⟨connection', hc', -⟩ := hcalm.kept c old hold
    rw [hc] at hc'
    cases hc'
  · rw [hreceives] at hr
    cases hr
  · rw [harrives] at ha
    cases ha

theorem recorded_binary (h : Recorded trace s) (hk : s.Kept) (socket : ℕ) (data : Bytes) :
    Recorded (trace ++ [(s, .frame (.binary data))]) (s.handleBinary socket data) := by
  by_cases hsize : connectionIdBytes ≤ data.length ∧ data.length ≤ maxHostFrameBytes
  · cases hget : s.registered.get (data.take connectionIdBytes) with
    | none =>
      have hsame : s.handleBinary socket data = s := by
        unfold handleBinary
        rw [if_neg (Nat.not_lt.2 hsize.2), if_neg (Nat.not_lt.2 hsize.1), hget]
      rw [hsame]
      exact h.calm (.refl s) (fun _ => rfl) fun c => by simp [arrives, hget]
    | some c =>
      obtain ⟨connection, hconnection, -, hopen, -⟩ := hk.registered _ _ hget
      obtain ⟨hself, hothers⟩ :=
        handleBinary_connections hsize.1 hsize.2 hget hconnection hopen
      have harrives : ∀ d, arrives d (s, .frame (.binary data)) =
          if c = d then some (data.drop connectionIdBytes, !connection.isFull) else none := by
        intro d
        by_cases hcd : c = d
        · subst hcd
          simp [arrives, hsize, hget, hconnection]
        · simp [arrives, hget, hcd]
      refine h.snoc (fun d _ ha other hd => .inl ?_) (fun d hd => ?_) (fun d message hr => by cases hr)
        (fun d arrival ha => ?_)
      · have hcd : c ≠ d := by
          rintro rfl
          rw [harrives, if_pos rfl] at ha
          cases ha
        rw [hothers d hcd] at hd
        exact ⟨other, hd, rfl, id⟩
      · by_cases hcd : c = d
        · subst hcd
          rw [hself] at hd
          cases hd
        · rwa [hothers d hcd] at hd
      · rw [harrives] at ha
        split at ha
        · rename_i hcd
          subst hcd
          obtain rfl := Option.some.inj ha
          refine ⟨connection, _, hconnection, hself, rfl, hopen, fun hroom => ?_, fun hfull => ?_⟩
          · rw [if_neg (by simpa using hroom)]
            simp [DeviceConnection.payload]
          · rw [if_pos (by simpa using hfull)]
            exact ⟨(markClosed_quiet connection).1, DeviceConnection.markClosed_closed connection⟩
        · cases ha
  · have hcalm : Calm s (s.handleBinary socket data) := by
      unfold handleBinary
      split
      · exact .of_eq rfl
      · rename_i hhigh
        rw [if_pos]
        · exact .of_eq rfl
        · by_contra hlow
          exact hsize ⟨Nat.not_lt.1 hlow, Nat.not_lt.1 hhigh⟩
    refine h.calm hcalm (fun _ => rfl) fun c => ?_
    unfold arrives
    dsimp only
    rw [if_neg]
    rintro ⟨hlow, hhigh, -⟩
    exact hsize ⟨hlow, hhigh⟩

theorem reads_of_enabled {frame : HostFrame} (h : s.Enabled (.frame frame)) :
    ∃ socket, s.readingSocket = some socket := by
  have hr := h.1
  cases hrunner : s.runner with
  | reading socket => exact ⟨socket, readingSocket_eq.2 hrunner⟩
  | _ => simp [hrunner] at hr

/-- **Every event keeps the record.** -/
theorem recorded_step (h : Recorded trace s) (hk : s.Kept) (hs : Step s e t) : Recorded (trace ++ [(s, e)]) t := by
  obtain ⟨hen, rfl⟩ := hs
  by_cases hmoves : Moves e
  · cases e with
    | receive d => exact h.taken receive_payload (fun c => rfl) fun _ => rfl
    | receiveResume d => exact h.taken receiveResume_payload (fun c => rfl) fun _ => rfl
    | frame frame =>
      cases frame with
      | control => exact hmoves.elim
      | binary data =>
        obtain ⟨socket, hr⟩ := reads_of_enabled hen
        simp only [perform, hr]
        exact recorded_binary h hk socket data
    | _ => exact hmoves.elim
  · refine h.calm (perform_calm hmoves) (fun c => ?_) fun c => ?_
    · cases e <;> first | rfl | exact absurd trivial hmoves
    · cases e with
      | frame frame =>
        cases frame with
        | control => rfl
        | binary => exact absurd trivial hmoves
      | _ => rfl

theorem recorded_run {depths : JsonDepths} (h : Run Observed { depths := depths } trace s) :
    s.Kept ∧ Recorded trace s := by
  refine h.history (I := fun trace s => s.Kept ∧ Recorded trace s) ?_ ?_
  · refine ⟨kept_new depths, fun c connection hc => ?_, fun c _ => ⟨rfl, rfl⟩, fun c connection hc => ?_⟩
    · simp at hc
    · simp at hc
  · rintro trace s ⟨m, e⟩ t - ⟨hk, hr⟩ ⟨hm, hs⟩
    obtain rfl : m = s := hm
    exact ⟨kept_step hk hs, recorded_step hr hk hs⟩

end Connector

end MercuryRelay
