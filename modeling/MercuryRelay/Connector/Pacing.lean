/-
  Pacing of what the connector sends (relay_client.py, `_send_binary`).

  One call at a time has the lock.  It sleeps until `_outbound_next`, hands its
  frame to the socket, and moves `_outbound_next` past the time at which the
  socket was done by a gap that its frame asks for.  Calls that raise, or are
  cancelled, move nothing.

  * `Paced`: what holds of the clock and the calls;
  * `Paced.sleep`, `Paced.transmit`, `Paced.done`, `Paced.ends`, `Paced.admit`: what a
    call does keeps it;
  * `perform_ids`: ids are as long as a control frame may give them.
-/
import MercuryRelay.Connector.Sends
import MercuryRelay.Lib.Spacing

set_option autoImplicit false

namespace MercuryRelay

open Python Transition

/-- A call of `send` that was sent: its frame, the size that it is paced for, when the frame was handed to
    the socket, and when the socket was done. -/
structure Completed where
  call : ℕ
  message : Bytes
  size : ℕ
  handed : ℚ
  done : ℚ

/-- What is seen of the clock, the sleep and the lock. -/
structure PaceLog where
  /-- the last reading -/
  now : ℚ
  /-- when the last sleep that was asked for is over -/
  wake : ℚ := 0
  /-- when the last frame was handed to a socket -/
  handed : ℚ := now
  /-- the socket that each call found -/
  called : List (Option ℕ) := []
  /-- the calls that got the lock -/
  acquired : List ℕ := []
  completed : List Completed := []

namespace Connector

/-- A call of `send` for connection `c` does not raise at once. -/
def Admits (s : Connector) (c : ℕ) : Prop :=
  s.socket.isSome ∧ ∃ connection ∈ s.connections[c]?, connection.closed = false ∧
    s.registered.get connection.connectionId = some c

instance (s : Connector) (c : ℕ) : Decidable (s.Admits c) := by unfold Admits; infer_instance

/-- The call that gets the lock, and the reading at which it looks at `_outbound_next`. -/
def acquires (s : Connector) : ConnectorEvent → Option (ℕ × ℚ)
  | .send c _ _ now false => if s.Admits c then some (s.sends.length, now) else none
  | .sendResume k now => if s.sends[k]?.any (·.phase = .locking) then some (k, now) else none
  | _ => none

/-- The reading at which a sleep is over. -/
def wakes (s : Connector) : ConnectorEvent → Option ℚ
  | .sendResume k now => if s.sends[k]?.any (·.phase = .pacing) then some now else none
  | _ => none

/-- The reading after `socket.send`. -/
def finishes : ConnectorEvent → Option ℚ
  | .sendDone _ true now => some now
  | _ => none

/-- What the clock says at an event. -/
def reading (s : Connector) (e : ConnectorEvent) : Option ℚ :=
  (((s.acquires e).map (·.2)).or (s.wakes e)).or (finishes e)

/-- The frame of a call. -/
def frameOf (s : Connector) (call : SendCall) : Bytes :=
  ((s.connections[call.connection]?).map (·.connectionId)).getD [] ++ call.data

def completes (s : Connector) (g : PaceLog) : ConnectorEvent → Option Completed
  | .sendDone k true now => s.sends[k]?.map fun call =>
    ⟨k, s.frameOf call, connectionIdBytes + call.data.length, g.handed, now⟩
  | _ => none

/-- The frames on the wire: the call, the socket and the message. -/
def binaries (s : Connector) : List (ℕ × ℕ × Bytes) := s.wire.filterMap fun
  | .binary k socket message => some (k, socket, message)
  | .close _ _ => none

def observePace (s : Connector) (g : PaceLog) (e : ConnectorEvent) : PaceLog where
  now := (s.reading e).getD g.now
  wake := ((s.acquires e).map fun a => a.2 + (s.outboundNext - a.2)).getD g.wake
  handed := if (s.perform e).binaries = s.binaries then g.handed else (s.reading e).getD g.handed
  called := match e with
    | .send _ _ _ _ _ => g.called ++ [s.socket]
    | _ => g.called
  acquired := g.acquired ++ ((s.acquires e).map (·.1)).toList
  completed := g.completed ++ (s.completes g e).toList

/-- A payload that is small enough for a frame. -/
def Payload : ConnectorEvent → Prop
  | .send _ data _ _ _ => data.length ≤ 65535
  | _ => True

instance : (e : ConnectorEvent) → Decidable (Payload e)
  | .send _ data _ _ _ => inferInstanceAs (Decidable (data.length ≤ 65535))
  | .start | .connected _ | .frame _ | .recvFailed | .noticeDone | .dropped | .rested | .runnerCancelled | .accept
  | .receive _ | .receiveResume _ | .receiveCancel _ | .closeDevice _ | .sendResume .. | .sendDone .. | .sendCancel _
  | .sendCancelled _ | .close | .closeResume _ | .closeCancel _ => inferInstanceAs (Decidable True)

/-- A step while the clock does not go back, and sleeps take the time that they were asked for. -/
def PacedStep (m : Connector × PaceLog) (e : ConnectorEvent) (m' : Connector × PaceLog) : Prop :=
  Step m.1 e m'.1 ∧ m'.2 = m.1.observePace m.2 e ∧ (∀ now ∈ m.1.reading e, m.2.now ≤ now) ∧
    (∀ now ∈ m.1.wakes e, m.2.wake ≤ now) ∧ Payload e

/-- The gap after a frame. -/
def paceGap (size : ℕ) : ℚ := max (10 / (2000 * (9 / 10))) (size * 10 / (25000000 * (9 / 10)))

theorem pace_eq (now : ℚ) (size : ℕ) : pace now size = now + paceGap size := rfl

theorem paceGap_pos (size : ℕ) : 0 < paceGap size := lt_max_of_lt_left (by norm_num)

variable {s t : Connector} {g : PaceLog} {e : ConnectorEvent} {k : ℕ} {now : ℚ}

/-- What holds of the clock and the calls. -/
structure Paced (s : Connector) (g : PaceLog) : Prop where
  /-- who sleeps or sends has the lock -/
  locked : ∀ (k : ℕ) (call : SendCall), s.sends[k]? = some call → call.phase = .pacing ∨ call.phase = .sending →
    s.outboundLock = some k
  /-- who sleeps sleeps until `_outbound_next`, and is the next to send -/
  pacing : ∀ (k : ℕ) (call : SendCall), s.sends[k]? = some call → call.phase = .pacing →
    g.wake = s.outboundNext ∧ ∃ before, g.acquired = before ++ [k] ∧ (s.binaries.map (·.1)).Sublist before
  /-- who sends has waited for it -/
  sending : ∀ (k : ℕ) (call : SendCall), s.sends[k]? = some call → call.phase = .sending →
    s.outboundNext ≤ g.handed
  clock : g.handed ≤ g.now
  payload : ∀ (k : ℕ) (call : SendCall), s.sends[k]? = some call → call.data.length ≤ 65535
  called : g.called.length = s.sends.length ∧ ∀ (k : ℕ) (call : SendCall), s.sends[k]? = some call →
    call.isEnded = false → g.called[k]? = some (some call.socket)
  handed : ∀ x ∈ s.binaries, g.called[x.1]? = some (some x.2.1)
  order : (s.binaries.map (·.1)).Sublist g.acquired
  once : g.acquired.Nodup
  acquired : ∀ k ∈ g.acquired, ∃ call, s.sends[k]? = some call ∧ call.phase ≠ .locking
  spaced : g.completed.Pairwise fun x y => x.done + paceGap x.size ≤ y.handed
  next : ∀ x ∈ g.completed, x.done + paceGap x.size ≤ s.outboundNext
  lasts : ∀ x ∈ g.completed, x.handed ≤ x.done ∧ x.size ≤ 65535 + connectionIdBytes
  logged : ∀ (k : ℕ) (call : SendCall), s.sends[k]? = some call → call.phase = .ended .sent →
    ∃ x ∈ g.completed, x.call = k
  frames : ∀ x ∈ g.completed, (∃ socket, (x.call, socket, x.message) ∈ s.binaries) ∧ x.message.length ≤ x.size

theorem paced_new (depths : JsonDepths) (now : ℚ) : Paced { depths := depths } { now := now } where
  locked k call h := by simp at h
  pacing k call h := by simp at h
  sending k call h := by simp at h
  clock := le_rfl
  payload k call h := by simp at h
  called := ⟨rfl, fun k call h => by simp at h⟩
  handed x h := by simp [binaries] at h
  order := List.Sublist.refl _
  once := List.nodup_nil
  acquired k h := by simp at h
  spaced := .nil
  next x h := by simp at h
  lasts x h := by simp at h
  logged k call h := by simp at h
  frames x h := by simp at h

/-! ## Events that are none of the calls -/

/-- What the pacing looks at. -/
def pacePart (s : Connector) : List SendCall × ℚ × Option ℕ × List (ℕ × ℕ × Bytes) :=
  (s.sends, s.outboundNext, s.outboundLock, s.binaries)

/-- The event is one of a call of `send`. -/
def IsSend : ConnectorEvent → Prop
  | .send _ _ _ _ _ | .sendResume _ _ | .sendDone _ _ _ | .sendCancel _ | .sendCancelled _ => True
  | _ => False

theorem Paced.congr (h : s.Paced g) (hpart : t.pacePart = s.pacePart) : t.Paced g := by
  obtain ⟨hsends, hnext, hlock, hbinaries⟩ : t.sends = s.sends ∧ t.outboundNext = s.outboundNext ∧
      t.outboundLock = s.outboundLock ∧ t.binaries = s.binaries := by
    simpa only [pacePart, Prod.mk.injEq] using hpart
  constructor
  · rw [hsends, hlock]; exact h.locked
  · rw [hsends, hnext, hbinaries]; exact h.pacing
  · rw [hsends, hnext]; exact h.sending
  · exact h.clock
  · rw [hsends]; exact h.payload
  · rw [hsends]; exact h.called
  · rw [hbinaries]; exact h.handed
  · rw [hbinaries]; exact h.order
  · exact h.once
  · rw [hsends]; exact h.acquired
  · exact h.spaced
  · rw [hnext]; exact h.next
  · exact h.lasts
  · rw [hsends]; exact h.logged
  · rw [hbinaries]; exact h.frames

theorem dropConnection_part (x : Bytes) : (s.dropConnection x).pacePart = s.pacePart := by
  unfold dropConnection
  split <;> rfl

theorem closeDevice_part (c : ℕ) : (s.closeDevice c).pacePart = s.pacePart := by
  unfold closeDevice
  split
  · rfl
  · dsimp only
    split
    · rfl
    · cases hsocket : s.socket <;> simp [pacePart, binaries, modifyConnection, hsocket]

theorem readFrame_part (socket : ℕ) (frame : HostFrame) : (s.readFrame socket frame).pacePart = s.pacePart := by
  cases frame with
  | control message =>
    show (s.handleControl socket message).pacePart = _
    unfold handleControl
    split
    · rfl
    · unfold handleOpen
      dsimp only
      split
      · exact (dropConnection_part _).trans (dropConnection_part (s := s) _)
      · exact dropConnection_part (s := s) _
    · exact dropConnection_part _
  | binary data =>
    show (s.handleBinary socket data).pacePart = _
    unfold handleBinary
    split
    · rfl
    split
    · rfl
    split
    · rfl
    split
    · rfl
    dsimp only
    split
    · rfl
    · exact closeDevice_part (s := s.modifyConnection _ _) _

theorem closeSocket_part (j : ℕ) : (s.closeSocket j).pacePart = s.pacePart := by
  unfold closeSocket
  split <;> rfl

theorem perform_part (he : ¬ IsSend e) : (s.perform e).pacePart = s.pacePart := by
  cases e with
  | frame frame =>
    simp only [perform]
    cases s.readingSocket with
    | none => rfl
    | some socket => exact readFrame_part socket frame
  | recvFailed =>
    simp only [perform]
    cases s.readingSocket <;> rfl
  | closeDevice c =>
    simp only [perform, deviceClose]
    split
    · rfl
    · exact closeDevice_part c
  | close =>
    simp only [perform, close]
    split
    · rfl
    · exact closeSocket_part _
  | closeResume j =>
    simp only [perform]
    split
    · exact closeSocket_part j
    · rfl
    · rfl
  | start | connected | noticeDone | dropped | runnerCancelled =>
    simp only [perform, cancelRunner]
    split <;> rfl
  | rested | accept | receive | receiveResume | receiveCancel | closeCancel => rfl
  | send | sendResume | sendDone | sendCancel | sendCancelled => exact absurd trivial he

theorem observePace_quiet (he : ¬ IsSend e) : s.observePace g e = g := by
  have hpart := perform_part (s := s) he
  have hbinaries : (s.perform e).binaries = s.binaries := congrArg (·.2.2.2) hpart
  cases e with
  | send | sendResume | sendDone | sendCancel | sendCancelled => exact absurd trivial he
  | _ => simp [observePace, reading, acquires, wakes, finishes, completes, hbinaries]

/-! ## Calls -/

variable {call : SendCall} {f : SendCall → SendCall}

/-- A call after one of them has changed. -/
theorem modifySend_cases {j : ℕ} {c : SendCall} (h : (s.modifySend k f).sends[j]? = some c) :
    ∃ old, s.sends[j]? = some old ∧ (j ≠ k ∧ c = old ∨ j = k ∧ c = f old) := by
  rw [modifySend, List.getElem?_modify] at h
  obtain ⟨old, hold, rfl⟩ := Option.map_eq_some_iff.1 h
  refine ⟨old, hold, ?_⟩
  by_cases hkj : k = j
  · exact .inr ⟨hkj.symm, if_pos hkj⟩
  · exact .inl ⟨Ne.symm hkj, if_neg hkj⟩

theorem modifySend_some (f : SendCall → SendCall) {j : ℕ} {old : SendCall} (h : s.sends[j]? = some old) :
    ∃ c, (s.modifySend k f).sends[j]? = some c ∧ (c = old ∨ c = f old) := by
  rw [modifySend, List.getElem?_modify, h]
  refine ⟨_, rfl, ?_⟩
  split
  · exact .inr rfl
  · exact .inl rfl

/-- What a change of the phase of one call leaves. -/
theorem Paced.change (h : s.Paced g) (p : SendPhase) (hcall : s.sends[k]? = some call) (hopen : call.isEnded = false)
    (hlocking : p ≠ .locking) (hstays : p ≠ .ended .sent) (hsends : t.sends =
      (s.modifySend k fun call => { call with phase := p }).sends) :
    (∀ (j : ℕ) (c : SendCall), t.sends[j]? = some c → c.data.length ≤ 65535) ∧
    (g.called.length = t.sends.length ∧ ∀ (j : ℕ) (c : SendCall), t.sends[j]? = some c →
      c.isEnded = false → g.called[j]? = some (some c.socket)) ∧
    (∀ j, j = k ∨ j ∈ g.acquired → ∃ c, t.sends[j]? = some c ∧ c.phase ≠ .locking) ∧
    ∀ (j : ℕ) (c : SendCall), t.sends[j]? = some c → c.phase = .ended .sent → ∃ x ∈ g.completed, x.call = j := by
  rw [hsends]
  refine ⟨fun j c hj => ?_, ⟨?_, fun j c hj hc => ?_⟩, fun j hj => ?_, fun j c hj hc => ?_⟩
  · obtain ⟨old, hold, ⟨-, rfl⟩ | ⟨-, rfl⟩⟩ := modifySend_cases hj
    · exact h.payload j _ hold
    · exact h.payload j old hold
  · rw [h.called.1]
    exact (List.length_modify _ _ _).symm
  · obtain ⟨old, hold, ⟨-, rfl⟩ | ⟨rfl, rfl⟩⟩ := modifySend_cases hj
    · exact h.called.2 j _ hold hc
    · obtain rfl := Option.some.inj (hcall.symm.trans hold)
      exact h.called.2 j call hold hopen
  · rcases hj with rfl | hj
    · refine ⟨{ call with phase := p }, ?_, hlocking⟩
      rw [modifySend, List.getElem?_modify, hcall]
      exact congrArg some (if_pos rfl)
    · obtain ⟨old, hold, hphase⟩ := h.acquired j hj
      obtain ⟨c, hc, rfl | rfl⟩ := modifySend_some (k := k) (fun call => { call with phase := p }) hold
      · exact ⟨_, hc, hphase⟩
      · exact ⟨_, hc, hlocking⟩
  · obtain ⟨old, hold, ⟨-, rfl⟩ | ⟨-, rfl⟩⟩ := modifySend_cases hj
    · exact h.logged j _ hold hc
    · exact absurd hc hstays

/-- Nobody else sleeps or sends. -/
def Alone (s : Connector) (k : ℕ) : Prop := ∀ (j : ℕ) (call : SendCall), s.sends[j]? = some call →
  call.phase = .pacing ∨ call.phase = .sending → j = k

theorem Paced.alone_of_free (h : s.Paced g) (hfree : s.outboundLock = none) : s.Alone k := fun j call hj hphase => by
  have hlock := h.locked j call hj hphase
  rw [hfree] at hlock
  cases hlock

theorem Paced.alone_of_locked (h : s.Paced g) (hlock : s.outboundLock = some k) : s.Alone k := fun j call hj hphase => by
  have hj' := h.locked j call hj hphase
  rw [hlock] at hj'
  exact (Option.some.inj hj').symm

/-- The call with the lock falls asleep. -/
theorem Paced.sleep (h : s.Paced g) (hcall : s.sends[k]? = some call) (hphase : call.phase = .locking)
    (halone : s.Alone k) (hnow : g.now ≤ now) : Paced
    ({ s with outboundLock := some k }.modifySend k fun call => { call with phase := .pacing })
    { g with
      now := now
      wake := now + (s.outboundNext - now)
      acquired := g.acquired ++ [k] } := by
  have hopen : call.isEnded = false := by simp [SendCall.isEnded, hphase]
  obtain ⟨hpayload, hcalled, hacquired, hlogged⟩ := h.change (t := { s with outboundLock := some k }.modifySend k
    fun call => { call with phase := .pacing }) .pacing hcall hopen (by decide) (by decide) rfl
  have hnew : k ∉ g.acquired := fun hmem => by
    obtain ⟨c, hc, hlocking⟩ := h.acquired k hmem
    obtain rfl := Option.some.inj (hcall.symm.trans hc)
    exact hlocking hphase
  constructor
  · intro j c hj hc
    obtain ⟨old, hold, ⟨-, rfl⟩ | ⟨rfl, -⟩⟩ := modifySend_cases hj
    · exact congrArg some (halone j _ hold hc).symm
    · rfl
  · intro j c hj hc
    have hjk : j = k := by
      obtain ⟨old, hold, ⟨-, rfl⟩ | ⟨hjk, -⟩⟩ := modifySend_cases hj
      · exact halone j _ hold (.inl hc)
      · exact hjk
    subst hjk
    refine ⟨?_, g.acquired, rfl, h.order⟩
    exact add_sub_cancel now s.outboundNext
  · intro j c hj hc
    obtain ⟨old, hold, ⟨-, rfl⟩ | ⟨-, rfl⟩⟩ := modifySend_cases hj
    · exact h.sending j _ hold hc
    · cases hc
  · exact h.clock.trans hnow
  · exact hpayload
  · exact hcalled
  · exact h.handed
  · exact h.order.trans (List.sublist_append_left _ _)
  · exact List.nodup_append.2 ⟨h.once, by simp, fun a ha b hb => by
      rw [List.mem_singleton.1 hb]
      rintro rfl
      exact hnew ha⟩
  · intro j hj
    refine hacquired j ?_
    rcases List.mem_append.1 hj with hj | hj
    · exact .inr hj
    · exact .inl (List.mem_singleton.1 hj)
  · exact h.spaced
  · exact h.next
  · exact h.lasts
  · exact hlogged
  · exact h.frames

/-- A call ends that was not sent; it gives the lock back if it has it. -/
theorem Paced.ends (h : s.Paced g) {lock : Option ℕ} {result : SendResult} (hresult : result ≠ .sent)
    (hcall : s.sends[k]? = some call) (hopen : call.isEnded = false) (halone : lock = s.outboundLock ∨ s.Alone k)
    {acquired : List ℕ} (horder : (s.binaries.map (·.1)).Sublist acquired) (honce : acquired.Nodup)
    (hmem : ∀ j ∈ acquired, j = k ∨ j ∈ g.acquired) (hsame : acquired = g.acquired ∨ s.Alone k) {wake : ℚ}
    (hwake : wake = g.wake ∨ s.Alone k) (hnow : g.now ≤ now) :
    Paced ({ s with outboundLock := lock }.endSend k result)
      { g with
        now := now
        wake := wake
        acquired := acquired } := by
  have hsent : SendPhase.ended result ≠ .ended .sent := fun heq => hresult (SendPhase.ended.inj heq)
  obtain ⟨hpayload, hcalled, hacquired, hlogged⟩ := h.change (t := { s with outboundLock := lock }.endSend k result)
    (.ended result) hcall hopen SendPhase.noConfusion hsent rfl
  -- A call that goes on is another one.
  have hother : ∀ (j : ℕ) (c : SendCall), ({ s with outboundLock := lock }.endSend k result).sends[j]? = some c →
      c.phase = .pacing ∨ c.phase = .sending → j ≠ k ∧ s.sends[j]? = some c := by
    intro j c hj hc
    obtain ⟨old, hold, ⟨hjk, rfl⟩ | ⟨-, rfl⟩⟩ := modifySend_cases hj
    · exact ⟨hjk, hold⟩
    · rcases hc with hc | hc <;> cases hc
  constructor
  · intro j c hj hc
    obtain ⟨hjk, hold⟩ := hother j c hj hc
    rcases halone with rfl | halone
    · have hlock := h.locked j c hold hc
      show (if s.outboundLock = some k then none else s.outboundLock) = some j
      rw [hlock, if_neg fun heq => hjk (Option.some.inj heq)]
    · exact absurd (halone j c hold hc) hjk
  · intro j c hj hc
    obtain ⟨hjk, hold⟩ := hother j c hj (.inl hc)
    have hnone : ¬ s.Alone k := fun halone => hjk (halone j c hold (.inl hc))
    obtain rfl := hwake.resolve_right hnone
    obtain rfl := hsame.resolve_right hnone
    exact h.pacing j c hold hc
  · intro j c hj hc
    exact h.sending j c (hother j c hj (.inr hc)).2 hc
  · exact h.clock.trans hnow
  · exact hpayload
  · exact hcalled
  · exact h.handed
  · exact horder
  · exact honce
  · exact fun j hj => hacquired j (hmem j hj)
  · exact h.spaced
  · exact h.next
  · exact h.lasts
  · exact hlogged
  · exact h.frames

/-- The call with the lock hands its frame to its socket. -/
theorem Paced.hands (h : s.Paced g) (hcall : s.sends[k]? = some call) (hopen : call.isEnded = false)
    (halone : s.Alone k) (hnext : s.outboundNext ≤ now) {before : List ℕ}
    (horder : (s.binaries.map (·.1)).Sublist before) (honce : (before ++ [k]).Nodup)
    (hmem : ∀ j ∈ before ++ [k], j = k ∨ j ∈ g.acquired) (wake : ℚ) (message : Bytes) :
    Paced ({ s with
        outboundLock := some k
        wire := s.wire ++ [Outgoing.binary k call.socket message] }.modifySend k
          fun call => { call with phase := .sending })
      { g with
        now := now
        wake := wake
        handed := now
        acquired := before ++ [k] } := by
  have hbinaries : Connector.binaries ({ s with
      outboundLock := some k
      wire := s.wire ++ [Outgoing.binary k call.socket message] }.modifySend k
        fun call => { call with phase := .sending }) = s.binaries ++ [(k, call.socket, message)] := by
    show List.filterMap _ (s.wire ++ [_]) = _
    rw [List.filterMap_append]
    rfl
  obtain ⟨hpayload, hcalled, hacquired, hlogged⟩ := h.change (t := { s with
      outboundLock := some k
      wire := s.wire ++ [Outgoing.binary k call.socket message] }.modifySend k
        fun call => { call with phase := .sending }) .sending hcall hopen (by decide) (by decide) rfl
  constructor
  · intro j c hj hc
    obtain ⟨old, hold, ⟨-, rfl⟩ | ⟨rfl, -⟩⟩ := modifySend_cases hj
    · exact congrArg some (halone j _ hold hc).symm
    · rfl
  · intro j c hj hc
    obtain ⟨old, hold, ⟨hjk, rfl⟩ | ⟨-, rfl⟩⟩ := modifySend_cases hj
    · exact absurd (halone j _ hold (.inl hc)) hjk
    · cases hc
  · exact fun _ _ _ _ => hnext
  · exact le_rfl
  · exact hpayload
  · exact hcalled
  · intro x hx
    rw [hbinaries] at hx
    rcases List.mem_append.1 hx with hx | hx
    · exact h.handed x hx
    · rw [List.mem_singleton.1 hx]
      exact h.called.2 k call hcall hopen
  · rw [hbinaries, List.map_append, List.map_singleton]
    exact horder.append (List.Sublist.refl _)
  · exact honce
  · exact fun j hj => hacquired j (hmem j hj)
  · exact h.spaced
  · exact h.next
  · exact h.lasts
  · exact hlogged
  · intro x hx
    obtain ⟨⟨socket, hmem⟩, hlen⟩ := h.frames x hx
    rw [hbinaries]
    exact ⟨⟨socket, List.mem_append_left _ hmem⟩, hlen⟩

/-- The check after the sleep, for the call with the lock. -/
theorem Paced.transmit (h : s.Paced g) (hcall : s.sends[k]? = some call) (hopen : call.isEnded = false)
    (halone : s.Alone k) (hnext : s.outboundNext ≤ now) (hnow : g.now ≤ now) {before : List ℕ}
    (horder : (s.binaries.map (·.1)).Sublist before) (honce : (before ++ [k]).Nodup)
    (hmem : ∀ j ∈ before ++ [k], j = k ∨ j ∈ g.acquired) (wake : ℚ) :
    Paced ({ s with outboundLock := some k }.transmit k call)
      { g with
        now := now
        wake := wake
        handed := if ({ s with outboundLock := some k }.transmit k call).binaries = s.binaries then g.handed else now
        acquired := before ++ [k] } := by
  unfold Connector.transmit
  split
  · -- The frame is on the wire now.
    dsimp only
    split
    · rename_i heq
      have hlen := congrArg List.length heq
      simp only [Connector.binaries, modifySend, List.filterMap_append, List.length_append] at hlen
      exact absurd hlen (Nat.succ_ne_self _)
    · exact h.hands hcall hopen halone hnext horder honce hmem wake _
  · have hsame : ({ s with outboundLock := some k }.endSend k .connectionError).binaries = s.binaries := rfl
    rw [if_pos hsame]
    exact h.ends (by decide) hcall hopen (.inr halone) (horder.trans (List.sublist_append_left _ _)) honce hmem
      (.inr halone) (.inr halone) hnow

/-- The call gets the lock. -/
theorem Paced.lockedSend (h : s.Paced g) (hcall : s.sends[k]? = some call) (hphase : call.phase = .locking)
    (hfree : s.outboundLock = none) (hnow : g.now ≤ now) : Paced (s.lockedSend k now call)
      { g with
        now := now
        wake := now + (s.outboundNext - now)
        handed := if (s.lockedSend k now call).binaries = s.binaries then g.handed else now
        acquired := g.acquired ++ [k] } := by
  have hopen : call.isEnded = false := by simp [SendCall.isEnded, hphase]
  have halone : s.Alone k := h.alone_of_free hfree
  unfold Connector.lockedSend
  dsimp only
  split
  · have hsame : ({ s with outboundLock := some k }.modifySend k
      fun call => { call with phase := .pacing }).binaries = s.binaries := rfl
    rw [if_pos hsame]
    exact h.sleep hcall hphase halone hnow
  · rename_i hdue
    have hnew : k ∉ g.acquired := fun hmem => by
      obtain ⟨c, hc, hlocking⟩ := h.acquired k hmem
      obtain rfl := Option.some.inj (hcall.symm.trans hc)
      exact hlocking hphase
    refine h.transmit hcall hopen halone (sub_nonpos.1 (not_lt.1 hdue)) hnow h.order ?_ ?_ _
    · refine List.nodup_append.2 ⟨h.once, by simp, fun a ha b hb => ?_⟩
      rw [List.mem_singleton.1 hb]
      rintro rfl
      exact hnew ha
    · intro j hj
      rcases List.mem_append.1 hj with hj | hj
      · exact .inr hj
      · exact .inl (List.mem_singleton.1 hj)

/-- A new call, which waits for the lock or has raised. -/
theorem Paced.admit (h : s.Paced g) (hdata : call.data.length ≤ 65535) (hphase : call.phase = .locking ∨
    call.phase = .ended .connectionError) {found : Option ℕ} (hfound : call.phase = .locking → found = some call.socket) :
    Paced { s with sends := s.sends ++ [call] } { g with called := g.called ++ [found] } := by
  have hcases : ∀ (j : ℕ) (c : SendCall), (s.sends ++ [call])[j]? = some c →
      s.sends[j]? = some c ∨ j = s.sends.length ∧ c = call := by
    intro j c hj
    rcases Nat.lt_or_ge j s.sends.length with hlt | hge
    · rw [List.getElem?_append_left hlt] at hj
      exact .inl hj
    · rw [List.getElem?_append_right hge] at hj
      have hzero : j - s.sends.length < 1 := (List.getElem?_eq_some_iff.1 hj).1
      have hj0 : j - s.sends.length = 0 := by omega
      rw [hj0] at hj
      exact .inr ⟨by omega, (Option.some.inj hj).symm⟩
  have hquiet : ¬ (call.phase = .pacing ∨ call.phase = .sending) := by
    rcases hphase with hphase | hphase <;> rw [hphase] <;> decide
  have hold : ∀ (j : ℕ) (x : Option ℕ), g.called[j]? = some x → (g.called ++ [found])[j]? = some x := by
    intro j x hj
    rw [List.getElem?_append_left (List.getElem?_eq_some_iff.1 hj).1]
    exact hj
  constructor
  · intro j c hj hc
    rcases hcases j c hj with hj | ⟨-, rfl⟩
    · exact h.locked j c hj hc
    · exact absurd hc hquiet
  · intro j c hj hc
    rcases hcases j c hj with hj | ⟨-, rfl⟩
    · exact h.pacing j c hj hc
    · exact absurd (.inl hc) hquiet
  · intro j c hj hc
    rcases hcases j c hj with hj | ⟨-, rfl⟩
    · exact h.sending j c hj hc
    · exact absurd (.inr hc) hquiet
  · exact h.clock
  · intro j c hj
    rcases hcases j c hj with hj | ⟨-, rfl⟩
    · exact h.payload j c hj
    · exact hdata
  · refine ⟨?_, fun j c hj hc => ?_⟩
    · show (g.called ++ [found]).length = (s.sends ++ [call]).length
      rw [List.length_append, List.length_append, h.called.1]
      rfl
    · rcases hcases j c hj with hj | ⟨rfl, rfl⟩
      · exact hold j _ (h.called.2 j c hj hc)
      · have hlocking := hphase.resolve_right fun heq => by simp [SendCall.isEnded, heq] at hc
        show (g.called ++ [found])[s.sends.length]? = _
        rw [← h.called.1, List.getElem?_concat_length, hfound hlocking]
  · exact fun x hx => hold x.1 _ (h.handed x hx)
  · exact h.order
  · exact h.once
  · intro j hj
    obtain ⟨c, hc, hlocking⟩ := h.acquired j hj
    refine ⟨c, ?_, hlocking⟩
    show (s.sends ++ [call])[j]? = some c
    rw [List.getElem?_append_left (List.getElem?_eq_some_iff.1 hc).1]
    exact hc
  · exact h.spaced
  · exact h.next
  · exact h.lasts
  · intro j c hj hc
    rcases hcases j c hj with hj | ⟨-, rfl⟩
    · exact h.logged j c hj hc
    · rcases hphase with hphase | hphase <;> rw [hphase] at hc <;> cases hc
  · exact h.frames

/-- `socket.send` is done, and the next call may send after the gap. -/
theorem Paced.done (h : s.Paced g) (hcall : s.sends[k]? = some call) (hphase : call.phase = .sending)
    (hnow : g.now ≤ now) (hmessage : ∃ socket, (k, socket, s.frameOf call) ∈ s.binaries)
    (hlen : (s.frameOf call).length ≤ connectionIdBytes + call.data.length) :
    Paced ({ s with outboundNext := pace now (connectionIdBytes + call.data.length) }.endSend k .sent)
      { g with
        now := now
        completed := g.completed ++ [⟨k, s.frameOf call, connectionIdBytes + call.data.length, g.handed, now⟩] } := by
  have hlock := h.locked k call hcall (.inr hphase)
  have halone := h.alone_of_locked hlock
  have hhanded := h.sending k call hcall hphase
  have hother : ∀ (j : ℕ) (c : SendCall), ({ s with
      outboundNext := pace now (connectionIdBytes + call.data.length) }.endSend k .sent).sends[j]? = some c →
      s.sends[j]? = some c ∨ j = k ∧ c = { call with phase := .ended .sent } := by
    intro j c hj
    obtain ⟨old, hold, ⟨-, rfl⟩ | ⟨rfl, rfl⟩⟩ := modifySend_cases hj
    · exact .inl hold
    · obtain rfl := Option.some.inj (hcall.symm.trans hold)
      exact .inr ⟨rfl, rfl⟩
  -- Nobody sleeps or sends now.
  have hnone : ∀ (j : ℕ) (c : SendCall), ({ s with
      outboundNext := pace now (connectionIdBytes + call.data.length) }.endSend k .sent).sends[j]? = some c →
      ¬ (c.phase = .pacing ∨ c.phase = .sending) := by
    intro j c hj hc
    obtain ⟨old, hold, ⟨hjk, rfl⟩ | ⟨-, rfl⟩⟩ := modifySend_cases hj
    · exact hjk (halone j _ hold hc)
    · rcases hc with hc | hc <;> cases hc
  have hmember : ∀ x ∈ g.completed ++
      [(⟨k, s.frameOf call, connectionIdBytes + call.data.length, g.handed, now⟩ : Completed)],
      x ∈ g.completed ∨ x = ⟨k, s.frameOf call, connectionIdBytes + call.data.length, g.handed, now⟩ := by
    intro x hx
    rcases List.mem_append.1 hx with hx | hx
    · exact .inl hx
    · exact .inr (List.mem_singleton.1 hx)
  constructor
  · exact fun j c hj hc => absurd hc (hnone j c hj)
  · exact fun j c hj hc => absurd (.inl hc) (hnone j c hj)
  · exact fun j c hj hc => absurd (.inr hc) (hnone j c hj)
  · exact h.clock.trans hnow
  · intro j c hj
    rcases hother j c hj with hj | ⟨-, rfl⟩
    · exact h.payload j c hj
    · exact h.payload k call hcall
  · refine ⟨h.called.1.trans (List.length_modify _ _ _).symm, fun j c hj hc => ?_⟩
    rcases hother j c hj with hj | ⟨-, rfl⟩
    · exact h.called.2 j c hj hc
    · cases hc
  · exact h.handed
  · exact h.order
  · exact h.once
  · intro j hj
    obtain ⟨old, hold, hlocking⟩ := h.acquired j hj
    obtain ⟨c, hc, rfl | rfl⟩ := modifySend_some (s := { s with
      outboundLock := if s.outboundLock = some k then none else s.outboundLock
      outboundNext := pace now (connectionIdBytes + call.data.length) }) (k := k)
      (fun call => { call with phase := .ended .sent }) hold
    · exact ⟨_, hc, hlocking⟩
    · exact ⟨_, hc, SendPhase.noConfusion⟩
  · refine List.pairwise_append.2 ⟨h.spaced, List.pairwise_singleton _ _, fun x hx y hy => ?_⟩
    rw [List.mem_singleton.1 hy]
    exact (h.next x hx).trans hhanded
  · intro x hx
    show x.done + paceGap x.size ≤ pace now (connectionIdBytes + call.data.length)
    rw [pace_eq]
    rcases hmember x hx with hx | rfl
    · have hbefore := (h.next x hx).trans (hhanded.trans (h.clock.trans hnow))
      exact hbefore.trans (le_add_of_nonneg_right (paceGap_pos _).le)
    · exact le_rfl
  · intro x hx
    rcases hmember x hx with hx | rfl
    · exact h.lasts x hx
    · refine ⟨h.clock.trans hnow, ?_⟩
      have hdata := h.payload k call hcall
      show connectionIdBytes + call.data.length ≤ _
      omega
  · intro j c hj hc
    rcases hother j c hj with hj | ⟨rfl, -⟩
    · obtain ⟨x, hx, hxj⟩ := h.logged j c hj hc
      exact ⟨x, List.mem_append_left _ hx, hxj⟩
    · exact ⟨_, List.mem_append_right _ List.mem_cons_self, rfl⟩
  · intro x hx
    rcases hmember x hx with hx | rfl
    · exact h.frames x hx
    · exact ⟨hmessage, hlen⟩

/-! ## Connection ids -/

theorem fromHex_length {digits : Str} {octets : Bytes} (h : fromHex digits = some octets) :
    2 * octets.length ≤ digits.length := by
  fun_induction fromHex digits generalizing octets with
  | case1 =>
    obtain rfl := Option.some.inj h
    simp
  | case2 c hblank =>
    obtain rfl := Option.some.inj h
    simp
  | case3 => cases h
  | case4 c d rest hblank ih =>
    have hrest := ih h
    simp only [List.length_cons] at hrest ⊢
    omega
  | case5 c d rest hblank top bottom htop hbottom ih =>
    obtain ⟨octets, hoctets, rfl⟩ := Option.map_eq_some_iff.1 h
    have hrest := ih hoctets
    simp only [List.length_cons]
    omega
  | case6 => cases h

theorem parseControl_id {depths : JsonDepths} {message : Str} {kind : ControlKind} {x : Bytes}
    (h : parseControl depths message = some (kind, x)) : x.length ≤ connectionIdBytes := by
  unfold parseControl at h
  split at h
  · cases h
  split at h
  · split at h
    · cases h
    split at h
    · rename_i hid
      obtain ⟨rfl, rfl⟩ := Prod.mk.inj (Option.some.inj h)
      unfold controlId at hid
      split at hid
      · split at hid
        · cases hid
        · rename_i hlen
          have hlength := fromHex_length hid
          rw [not_not.1 hlen] at hlength
          omega
      · cases hid
    · cases h
  · cases h

/-- The ids of the connections. -/
def ids (s : Connector) : List Bytes := s.connections.map (·.connectionId)

theorem ids_of_eq (h : t.connections = s.connections) : t.ids = s.ids := congrArg (List.map _) h

theorem modifyConnection_ids {c : ℕ} {f : DeviceConnection → DeviceConnection} (hf : DeviceConnection.Keeps f) :
    (s.modifyConnection c f).ids = s.ids := by
  refine List.ext_getElem? fun d => ?_
  rw [ids, ids, List.getElem?_map, List.getElem?_map, modifyConnection_getElem, Option.map_map]
  refine Option.map_congr fun other _ => ?_
  show (if c = d then f other else other).connectionId = _
  split
  · exact (hf other).1
  · rfl

theorem dropConnection_ids (x : Bytes) : (s.dropConnection x).ids = s.ids := by
  unfold dropConnection
  split
  · rfl
  · exact modifyConnection_ids DeviceConnection.markClosed_keeps

theorem closeDevice_ids (c : ℕ) : (s.closeDevice c).ids = s.ids := by
  unfold closeDevice
  split
  · rfl
  · dsimp only
    split
    · exact modifyConnection_ids DeviceConnection.markClosed_keeps
    · exact modifyConnection_ids (s := s) DeviceConnection.markClosed_keeps

theorem endAll_ids : s.endAll.ids = s.ids := by
  refine List.ext_getElem? fun d => ?_
  rw [ids, ids, List.getElem?_map, List.getElem?_map, endAll_getElem, Option.map_map]
  refine Option.map_congr fun other _ => ?_
  show (if d ∈ s.registered.map (·.2) then other.markClosed else other).connectionId = _
  split
  · exact (DeviceConnection.markClosed_keeps other).1
  · rfl

theorem closeSocket_ids (j : ℕ) : (s.closeSocket j).ids = s.ids := by
  unfold closeSocket
  split
  · exact endAll_ids
  · rfl

theorem handleBinary_ids (socket : ℕ) (data : Bytes) : (s.handleBinary socket data).ids = s.ids := by
  unfold handleBinary
  split
  · rfl
  split
  · rfl
  split
  · rfl
  split
  · rfl
  have hfeed := modifyConnection_ids (s := s) (c := ‹ℕ›) (DeviceConnection.feed_keeps (data.drop connectionIdBytes))
  dsimp only
  split
  · exact hfeed
  · exact (closeDevice_ids _).trans hfeed

theorem handleOpen_ids (socket : ℕ) (x : Bytes) : (s.handleOpen socket x).ids = s.ids ++ [x] := by
  have hregister : ((s.dropConnection x).register socket x).ids = s.ids ++ [x] := by
    show List.map _ ((s.dropConnection x).connections ++ [_]) = _
    rw [List.map_append]
    exact congrArg (· ++ [x]) (dropConnection_ids x)
  unfold handleOpen
  dsimp only
  split
  · exact (dropConnection_ids (s := (s.dropConnection x).register socket x) x).trans hregister
  · exact hregister

/-- An event adds at most one connection, whose id a control frame gave. -/
theorem perform_ids : (s.perform e).ids = s.ids ∨
    ∃ x : Bytes, x.length ≤ connectionIdBytes ∧ (s.perform e).ids = s.ids ++ [x] := by
  cases e with
  | frame frame =>
    simp only [perform]
    cases s.readingSocket with
    | none => exact .inl rfl
    | some socket =>
      cases frame with
      | binary data => exact .inl (handleBinary_ids socket data)
      | control message =>
        show (s.handleControl socket message).ids = s.ids ∨ ∃ x : Bytes, x.length ≤ connectionIdBytes ∧
          (s.handleControl socket message).ids = s.ids ++ [x]
        unfold handleControl
        split
        · exact .inl rfl
        · rename_i x hparse
          exact .inr ⟨x, parseControl_id hparse, handleOpen_ids socket x⟩
        · exact .inl (dropConnection_ids _)
  | receive c => exact .inl (modifyConnection_ids DeviceConnection.receive_keeps)
  | receiveResume c => exact .inl (modifyConnection_ids DeviceConnection.receiveResume_keeps)
  | receiveCancel c => exact .inl (modifyConnection_ids fun _ => ⟨rfl, rfl⟩)
  | closeDevice c =>
    simp only [perform, deviceClose]
    split
    · exact .inl rfl
    · exact .inl (closeDevice_ids c)
  | dropped =>
    simp only [perform]
    split
    · exact .inl endAll_ids
    · exact .inl rfl
  | send c data sender now waits => exact .inl (ids_of_eq (send_connections data sender now waits))
  | sendResume k now =>
    simp only [perform, onSend]
    cases s.sends[k]? with
    | none => exact .inl rfl
    | some call =>
      refine .inl (ids_of_eq ?_)
      show (s.sendResume k now call).connections = _
      unfold sendResume
      split
      · exact lockedSend_connections now call
      · exact transmit_connections call
      · rfl
  | sendDone k ok now =>
    simp only [perform, onSend]
    cases s.sends[k]? with
    | none => exact .inl rfl
    | some call =>
      refine .inl (ids_of_eq ?_)
      show (s.sendDone k ok now call).connections = _
      unfold sendDone
      split <;> rfl
  | close =>
    simp only [perform, close]
    split
    · exact .inl rfl
    · exact .inl (closeSocket_ids (s := { s with closed := true, closes := s.closes ++ [ClosePhase.joining] }) _)
  | closeResume j =>
    simp only [perform]
    split
    · exact .inl (closeSocket_ids j)
    · exact .inl endAll_ids
    · exact .inl rfl
  | start | connected | noticeDone | runnerCancelled =>
    simp only [perform, cancelRunner]
    split <;> exact .inl rfl
  | recvFailed =>
    simp only [perform]
    cases s.readingSocket <;> exact .inl rfl
  | rested | accept | sendCancel | sendCancelled | closeCancel => exact .inl rfl

/-- The ids are as long as `CONNECTION_ID_BYTES`, or shorter. -/
def ShortIds (s : Connector) : Prop := ∀ x ∈ s.ids, x.length ≤ connectionIdBytes

theorem shortIds_step (h : s.ShortIds) (hs : Step s e t) : t.ShortIds := by
  obtain ⟨-, rfl⟩ := hs
  intro x hx
  rcases perform_ids (s := s) (e := e) with hsame | ⟨y, hy, hmore⟩
  · rw [hsame] at hx
    exact h x hx
  · rw [hmore] at hx
    rcases List.mem_append.1 hx with hx | hx
    · exact h x hx
    · rw [List.mem_singleton.1 hx]
      exact hy

theorem ShortIds.frameOf (h : s.ShortIds) (call : SendCall) :
    (s.frameOf call).length ≤ connectionIdBytes + call.data.length := by
  rw [Connector.frameOf, List.length_append]
  refine Nat.add_le_add_right ?_ _
  cases hc : s.connections[call.connection]? with
  | none => exact Nat.zero_le _
  | some connection => exact h _ (List.mem_map.2 ⟨connection, List.mem_of_getElem? hc, rfl⟩)

end Connector

end MercuryRelay
