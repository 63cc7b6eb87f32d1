/-
  What a frame on the host socket does to the devices that it is not about: nothing,
  unless it opens a connection for which the accept queue has no room.
-/
import MercuryRelay.Connector.Invariant

set_option autoImplicit false

namespace MercuryRelay

open Python Transition

/-- The frame is well-formed, and about the connection id `x`. -/
def HostFrame.Concerns (depths : JsonDepths) (x : Bytes) : HostFrame → Prop
  | .control message => ∃ kind, parseControl depths message = some (kind, x)
  | .binary data => connectionIdBytes ≤ data.length ∧ data.length ≤ maxHostFrameBytes ∧
      data.take connectionIdBytes = x

/-- The frame is an `open` control frame. -/
def HostFrame.opens (depths : JsonDepths) : HostFrame → Bool
  | .control message => (parseControl depths message).any fun control => control.1 = .open
  | .binary _ => false

namespace Connector

/-- From `s` to `t`, nothing changes but the connection under `x`. -/
structure Isolated (s t : Connector) (x : Bytes) : Prop where
  /-- every other connection stays registered, as it is -/
  registered : ∀ y, y ≠ x → t.registered.get y = s.registered.get y
  kept : ∀ c < s.connections.length, s.registered.get x ≠ some c → t.connections[c]? = s.connections[c]?
  sends : t.sends = s.sends
  /-- the host socket stays up, and the runner goes on to read it -/
  socket : t.socket = s.socket
  reads : ∀ socket, s.runner = .reading socket → t.runner = .reading socket ∨ t.runner = .closingDevice socket

variable {s t u : Connector} {x y : Bytes} {c : ℕ} {socket : ℕ}

theorem Isolated.refl (s : Connector) (x : Bytes) : Isolated s s x :=
  ⟨fun _ _ => rfl, fun _ _ _ => rfl, rfl, rfl, fun _ h => .inl h⟩

theorem modifyConnection_of_ne (f : DeviceConnection → DeviceConnection) {d : ℕ} (h : c ≠ d) :
    (s.modifyConnection c f).connections[d]? = s.connections[d]? := by
  simp [modifyConnection, h]

@[simp] theorem modifyConnection_length (f : DeviceConnection → DeviceConnection) :
    (s.modifyConnection c f).connections.length = s.connections.length := by
  simp [modifyConnection]

theorem dropConnection_registered : (s.dropConnection x).registered.get y =
    if x = y then none else s.registered.get y := by
  unfold dropConnection
  split
  · rename_i hnone
    split
    · rename_i hxy
      rw [← hxy, hnone]
    · rfl
  · exact Dict.get_remove

theorem dropConnection_kept {d : ℕ} (h : s.registered.get x ≠ some d) :
    (s.dropConnection x).connections[d]? = s.connections[d]? := by
  unfold dropConnection
  split
  · rfl
  · rename_i c hc
    refine modifyConnection_of_ne _ ?_
    rintro rfl
    exact h hc

theorem dropConnection_length : (s.dropConnection x).connections.length = s.connections.length := by
  unfold dropConnection
  split
  · rfl
  · simp

theorem dropConnection_rest : (s.dropConnection x).socket = s.socket ∧ (s.dropConnection x).runner = s.runner ∧
    (s.dropConnection x).accepted = s.accepted ∧ (s.dropConnection x).sends = s.sends := by
  unfold dropConnection
  split <;> exact ⟨rfl, rfl, rfl, rfl⟩

theorem dropConnection_isolated (s : Connector) (x : Bytes) : Isolated s (s.dropConnection x) x := by
  obtain ⟨hsocket, hrunner, -, hsends⟩ := dropConnection_rest (s := s) (x := x)
  refine ⟨fun y hy => ?_, fun c _ hc => dropConnection_kept hc, hsends, hsocket, fun sk h => .inl (hrunner.trans h)⟩
  rw [dropConnection_registered, if_neg (Ne.symm hy)]

/-- An `open` frame for which there is room in the accept queue. -/
theorem handleOpen_isolated (hroom : s.accepted.length < acceptQueueLimit) :
    Isolated s (s.handleOpen socket x) x := by
  obtain ⟨hsocket, hrunner, haccepted, hsends⟩ := dropConnection_rest (s := s) (x := x)
  have hdropped := dropConnection_isolated s x
  unfold handleOpen
  dsimp only
  rw [register, haccepted, if_neg (Nat.not_le.2 hroom)]
  refine ⟨fun y hy => ?_, fun c hlt hc => ?_, hsends, hsocket, fun sk h => .inl (hrunner.trans h)⟩
  · rw [← hdropped.registered y hy]
    exact Dict.get_set_of_ne (Ne.symm hy)
  · rw [← hdropped.kept c hlt hc]
    exact List.getElem?_append_left (by rw [dropConnection_length]; exact hlt)

/-- An `open` frame for which there is none takes the socket down. -/
theorem handleOpen_full (hfull : acceptQueueLimit ≤ s.accepted.length) :
    (s.handleOpen socket x).runner = .dropping socket false := by
  obtain ⟨-, -, haccepted, -⟩ := dropConnection_rest (s := s) (x := x)
  unfold handleOpen
  dsimp only
  rw [register, haccepted, if_pos hfull]
  rfl

/-- A connection whose queue is full is closed alone. -/
theorem closeDevice_isolated (hc : s.registered.get x = some c)
    (hid : ∀ connection ∈ s.connections[c]?, connection.connectionId = x) : Isolated s (s.closeDevice c) x := by
  unfold closeDevice
  split
  · exact .refl s x
  · rename_i connection hconnection
    obtain rfl := hid connection hconnection
    dsimp only
    split
    · rename_i hne
      exact absurd hc hne
    · refine ⟨fun y hy => ?_, fun d hd hne => ?_, rfl, rfl, fun sk h => .inl h⟩
      · show Dict.get (Dict.remove s.registered connection.connectionId) y = _
        rw [Dict.get_remove, if_neg (Ne.symm hy)]
      · refine modifyConnection_of_ne _ ?_
        rintro rfl
        exact hne hc

theorem handleBinary_isolated (h : s.Kept) (hr : s.runner = .reading socket) {data : Bytes}
    (hlow : connectionIdBytes ≤ data.length) (hhigh : data.length ≤ maxHostFrameBytes) :
    Isolated s (s.handleBinary socket data) (data.take connectionIdBytes) := by
  unfold handleBinary
  rw [if_neg (Nat.not_lt.2 hhigh), if_neg (Nat.not_lt.2 hlow)]
  split
  · exact .refl _ _
  rename_i c hc
  split
  · exact .refl _ _
  rename_i connection hconnection
  obtain ⟨connection', hconnection', hid, -, -⟩ := h.registered _ _ hc
  obtain rfl : connection = connection' := Option.some.inj (hconnection.symm.trans hconnection')
  have hfed : Isolated s (s.modifyConnection c fun other => (other.feed (data.drop connectionIdBytes)).1)
      (data.take connectionIdBytes) := by
    refine ⟨fun _ _ => rfl, fun d _ hd => modifyConnection_of_ne _ ?_, rfl, rfl, fun _ hs => .inl hs⟩
    rintro rfl
    exact hd hc
  dsimp only
  split
  · exact hfed
  · have hclosed := closeDevice_isolated
      (s := s.modifyConnection c fun other => (other.feed (data.drop connectionIdBytes)).1) hc (by
        intro other hother
        have hget : (s.modifyConnection c fun other => (other.feed (data.drop connectionIdBytes)).1).connections[c]? =
            some (connection.feed (data.drop connectionIdBytes)).1 := by
          simp [modifyConnection, hconnection]
        obtain rfl := Option.some.inj (hget.symm.trans hother)
        exact (DeviceConnection.feed_keeps _ connection).1.trans hid)
    refine ⟨fun y hy => hclosed.registered y hy, fun d hd hne => ?_, hclosed.sends, hclosed.socket, fun sk hs => ?_⟩
    · have hlt : d < (s.modifyConnection c fun other =>
          (other.feed (data.drop connectionIdBytes)).1).connections.length := by
        rw [modifyConnection_length]
        exact hd
      exact (hclosed.kept d hlt hne).trans (hfed.kept d hd hne)
    · rw [hr] at hs
      cases hs
      dsimp only
      split
      · exact .inr rfl
      · exact .inl rfl

end Connector

/-- **One device does not take down the others**: a well-formed frame about a
    connection id changes the connection under that id, and nothing else, if and
    only if it does not open a connection while the accept queue is full. -/
theorem frame_isolated_iff {depths : JsonDepths} {events : List ConnectorEvent} {s : Connector}
    (h : Run Connector.Step { depths := depths } events s) {socket : ℕ} (hr : s.runner = .reading socket)
    {frame : HostFrame} {x : Bytes} (hframe : frame.Concerns s.depths x) :
    Connector.Isolated s (s.perform (.frame frame)) x ↔
      ¬ (frame.opens s.depths = true ∧ acceptQueueLimit ≤ s.accepted.length) := by
  have hkept : s.Kept := Connector.kept_run h (Connector.kept_new depths)
  have hperform : s.perform (.frame frame) = s.readFrame socket frame := by
    simp [Connector.perform, Connector.readingSocket_eq.2 hr]
  rw [hperform]
  cases frame with
  | binary data =>
    obtain ⟨hlow, hhigh, rfl⟩ := hframe
    simp only [HostFrame.opens, Bool.false_eq_true, false_and, not_false_eq_true, iff_true]
    exact Connector.handleBinary_isolated hkept hr hlow hhigh
  | control message =>
    obtain ⟨kind, hparse⟩ := hframe
    unfold Connector.readFrame Connector.handleControl
    simp only [HostFrame.opens, hparse, Option.any_some, decide_eq_true_eq]
    cases kind with
    | close =>
      simp only [reduceCtorEq, false_and, not_false_eq_true, iff_true]
      exact Connector.dropConnection_isolated s x
    | «open» =>
      simp only [true_and, Nat.not_le]
      refine ⟨fun hisolated => ?_, Connector.handleOpen_isolated⟩
      by_contra hfull
      have hdropping := @Connector.handleOpen_full _ x socket (Nat.not_lt.1 hfull)
      rcases hisolated.reads socket hr with hreads | hreads
      · rw [hdropping] at hreads
        cases hreads
      · rw [hdropping] at hreads
        cases hreads

/-- The control frame that opens a connection, whose id ends in the digit `n`. -/
def openFrame (n : ℕ) : HostFrame :=
  .control (lit "\x7b\"t\":\"open\",\"id\":\"000000000000000" ++ [48 + n] ++ lit "\"\x7d")

/-- The socket is up, and so many devices are connected. -/
def devicesOpened (n : ℕ) : List ConnectorEvent :=
  [.start, .connected true] ++ (List.range n).map fun i => .frame (openFrame i)

theorem frame_isolated_iff_second : ∃ s : Connector,
    s = (devicesOpened 1).foldl Connector.perform {} ∧
      Connector.Isolated s (s.perform (.frame (openFrame 1))) [0, 0, 0, 0, 0, 0, 0, 1] := by
  have halong : Along Connector.perform Connector.Enabled {} (devicesOpened 1) := by decide +kernel
  have hr : ((devicesOpened 1).foldl Connector.perform {}).runner = .reading 0 := by decide +kernel
  have hframe : (openFrame 1).Concerns ((devicesOpened 1).foldl Connector.perform {}).depths
      [0, 0, 0, 0, 0, 0, 0, 1] := ⟨.open, by decide +kernel⟩
  exact ⟨_, rfl, (frame_isolated_iff (run_of_along halong) hr hframe).2 (by decide +kernel)⟩

/-- Eight devices wait to be accepted; a ninth takes the host socket down, and all
    of them with it. -/
theorem ninth_device_drops : ∃ s : Connector, Run Connector.Step {} (devicesOpened 8) s ∧
    s.socket = some 0 ∧ s.registered.length = 8 ∧
    (openFrame 8).Concerns s.depths [0, 0, 0, 0, 0, 0, 0, 8] ∧
    ¬ Connector.Isolated s (s.perform (.frame (openFrame 8))) [0, 0, 0, 0, 0, 0, 0, 8] ∧
    (s.perform (.frame (openFrame 8))).socket = none ∧
    ((s.perform (.frame (openFrame 8))).perform .dropped).registered = [] := by
  have halong : Along Connector.perform Connector.Enabled {} (devicesOpened 8) := by decide +kernel
  refine ⟨_, run_of_along halong, by decide +kernel, by decide +kernel, ⟨.open, by decide +kernel⟩, ?_,
    by decide +kernel, by decide +kernel⟩
  intro hisolated
  have hup := hisolated.socket
  revert hup
  decide +kernel

end MercuryRelay
