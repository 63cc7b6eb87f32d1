/-
  The router's budget for the host socket: what paced calls of `send` put on the
  wire in ten seconds, in what order, and on which socket.

  * `paced_step`: every event keeps what `Paced` says;
  * `outbound_paced`: the budget, along every run with a clock that does not go
    back and sleeps that are long enough.
-/
import Mathlib.Algebra.BigOperators.Ring.Finset
import MercuryRelay.Connector.Pacing

set_option autoImplicit false

namespace MercuryRelay

open Python Transition

namespace Connector

variable {s t : Connector} {g g' : PaceLog} {e : ConnectorEvent} {c k : ℕ} {now : ℚ} {call : SendCall} {data : Bytes}
  {sender : Option ℕ}

/-! ## A new call -/

theorem send_refused (h : ¬ s.Admits c) (waits : Bool) : s.send c data sender now waits = s.refuseSend c data sender := by
  unfold send
  split
  · rename_i connection socket hconnection hsocket
    rw [if_pos]
    by_contra hmay
    rw [not_or, not_not, Bool.not_eq_true] at hmay
    exact h ⟨by rw [hsocket]; rfl, connection, hconnection, hmay⟩
  · rfl

theorem send_admitted (h : s.Admits c) (waits : Bool) : ∃ socket, s.socket = some socket ∧
    s.send c data sender now waits =
      if waits then { s with sends := s.sends ++ [⟨c, data, sender, socket, .locking, false⟩] }
      else Connector.lockedSend { s with sends := s.sends ++ [⟨c, data, sender, socket, .locking, false⟩] }
        s.sends.length now ⟨c, data, sender, socket, .locking, false⟩ := by
  obtain ⟨hsocket, connection, hconnection, hopen, hregistered⟩ := h
  obtain ⟨socket, hsocket⟩ := Option.isSome_iff_exists.1 hsocket
  refine ⟨socket, hsocket, ?_⟩
  simp only [send, Option.mem_def.1 hconnection, hsocket, hopen, hregistered, Bool.false_eq_true, false_or, ne_eq,
    not_true_eq_false, if_false]

theorem Paced.send (h : s.Paced g) (hdata : data.length ≤ 65535) (waits : Bool) (hwaits : s.MayWait waits)
    (hnow : ∀ now' ∈ s.reading (.send c data sender now waits), g.now ≤ now') :
    (s.send c data sender now waits).Paced (s.observePace g (.send c data sender now waits)) := by
  by_cases hadmits : s.Admits c
  · obtain ⟨socket, hsocket, hsend⟩ := send_admitted hadmits waits
    have hcalled : Paced { s with sends := s.sends ++ [⟨c, data, sender, socket, .locking, false⟩] }
        { g with called := g.called ++ [s.socket] } := h.admit hdata (.inl rfl) fun _ => hsocket
    cases waits with
    | true =>
      rw [if_pos rfl] at hsend
      have hlog : s.observePace g (.send c data sender now true) = { g with called := g.called ++ [s.socket] } := by
        simp only [observePace, reading, acquires, wakes, finishes, completes, perform]
        simp [binaries]
      rw [hsend, hlog]
      exact hcalled
    | false =>
      rw [if_neg (by decide)] at hsend
      have hreading : s.reading (.send c data sender now false) = some now := by
        simp [reading, acquires, wakes, finishes, hadmits]
      have hlog : s.observePace g (.send c data sender now false) =
          { g with
            now := now
            wake := now + (s.outboundNext - now)
            handed := if (s.send c data sender now false).binaries = s.binaries then g.handed else now
            called := g.called ++ [s.socket]
            acquired := g.acquired ++ [s.sends.length] } := by
        simp [observePace, hreading, acquires, hadmits, completes, perform]
      rw [hlog, hsend]
      refine hcalled.lockedSend ?_ rfl hwaits.1 (hnow now hreading)
      show (s.sends ++ [_])[s.sends.length]? = _
      rw [List.getElem?_concat_length]
  · have hlog : s.observePace g (.send c data sender now waits) = { g with called := g.called ++ [s.socket] } := by
      have hacquires : s.acquires (.send c data sender now waits) = none := by
        cases waits <;> simp [acquires, hadmits]
      simp only [observePace, reading, hacquires, wakes, finishes, completes, perform, send_refused hadmits]
      simp [binaries, refuseSend]
    rw [hlog, send_refused hadmits]
    exact h.admit hdata (.inr rfl) fun hlocking => by cases hlocking

/-! ## A call goes on -/

theorem onSend_of_some (hcall : s.sends[k]? = some call) (f : SendCall → Connector) : s.onSend k f = f call := by
  rw [onSend, hcall, Option.map_some, Option.getD_some]

theorem Paced.sendResume (h : s.Paced g) (hcall : s.sends[k]? = some call)
    (hphase : call.phase = .locking ∧ s.outboundLock = none ∨ call.phase = .pacing)
    (hnow : ∀ now' ∈ s.reading (.sendResume k now), g.now ≤ now')
    (hwake : ∀ now' ∈ s.wakes (.sendResume k now), g.wake ≤ now') :
    (s.perform (.sendResume k now)).Paced (s.observePace g (.sendResume k now)) := by
  have hperform : s.perform (.sendResume k now) = s.sendResume k now call := onSend_of_some hcall _
  rcases hphase with ⟨hlocking, hfree⟩ | hpacing
  · have hresume : s.perform (.sendResume k now) = s.lockedSend k now call := by
      rw [hperform, Connector.sendResume, hlocking]
    have hreading : s.reading (.sendResume k now) = some now := by simp [reading, acquires, hcall, hlocking]
    have hlog : s.observePace g (.sendResume k now) =
        { g with
          now := now
          wake := now + (s.outboundNext - now)
          handed := if (s.lockedSend k now call).binaries = s.binaries then g.handed else now
          acquired := g.acquired ++ [k] } := by
      simp [observePace, hreading, acquires, hcall, hlocking, completes, hresume]
    rw [hlog, hresume]
    exact h.lockedSend hcall hlocking hfree (hnow now hreading)
  · have hresume : s.perform (.sendResume k now) = s.transmit k call := by
      rw [hperform, Connector.sendResume, hpacing]
    have hwakes : s.wakes (.sendResume k now) = some now := by simp [wakes, hcall, hpacing]
    have hreading : s.reading (.sendResume k now) = some now := by
      simp [reading, acquires, hwakes, hcall, hpacing]
    have hlog : s.observePace g (.sendResume k now) =
        { g with
          now := now
          handed := if (s.transmit k call).binaries = s.binaries then g.handed else now } := by
      simp [observePace, hreading, acquires, hcall, hpacing, completes, hresume]
    obtain ⟨hnext, before, hacquired, horder⟩ := h.pacing k call hcall hpacing
    have hlock := h.locked k call hcall (.inl hpacing)
    have hsame : { s with outboundLock := some k } = s := by rw [← hlock]
    have hstays : ∀ j ∈ before ++ [k], j = k ∨ j ∈ g.acquired := fun j hj => .inr (hacquired ▸ hj)
    have htransmit := h.transmit hcall (by simp [SendCall.isEnded, hpacing]) (h.alone_of_locked hlock)
      (hnext ▸ hwake now hwakes) (hnow now hreading) horder (hacquired ▸ h.once) hstays g.wake
    rw [hsame, ← hacquired] at htransmit
    rw [hlog, hresume]
    exact htransmit

theorem Paced.sendDone (h : s.Paced g) (hk : s.CallsKept) (hids : s.ShortIds) (hcall : s.sends[k]? = some call)
    (hphase : call.phase = .sending) {ok : Bool} (hnow : ∀ now' ∈ s.reading (.sendDone k ok now), g.now ≤ now') :
    (s.perform (.sendDone k ok now)).Paced (s.observePace g (.sendDone k ok now)) := by
  have hperform : s.perform (.sendDone k ok now) = s.sendDone k ok now call := onSend_of_some hcall _
  cases ok with
  | true =>
    have hdone : s.perform (.sendDone k true now) =
        { s with outboundNext := pace now (connectionIdBytes + call.data.length) }.endSend k .sent := by
      rw [hperform, Connector.sendDone, if_pos rfl]
    have hreading : s.reading (.sendDone k true now) = some now := by simp [reading, acquires, wakes, finishes]
    have hsame : (s.perform (.sendDone k true now)).binaries = s.binaries := by rw [hdone]; rfl
    have hlog : s.observePace g (.sendDone k true now) =
        { g with
          now := now
          completed := g.completed ++ [⟨k, s.frameOf call, connectionIdBytes + call.data.length, g.handed, now⟩] } := by
      simp [observePace, hreading, acquires, completes, hcall, hsame]
    have hwire := hk k call hcall
    rw [CallKept, hphase] at hwire
    obtain ⟨connection, hconnection, hmem⟩ := hwire
    rw [hlog, hdone]
    refine h.done hcall hphase (hnow now hreading) ⟨connection.openedOn, ?_⟩ (hids.frameOf call)
    refine List.mem_filterMap.2 ⟨_, hmem, ?_⟩
    rw [frameOf, hconnection]
    rfl
  | false =>
    have hdone : s.perform (.sendDone k false now) = s.endSend k .connectionError := by
      rw [hperform, Connector.sendDone, if_neg (by decide)]
    have hsame : (s.perform (.sendDone k false now)).binaries = s.binaries := by rw [hdone]; rfl
    have hlog : s.observePace g (.sendDone k false now) = g := by
      simp [observePace, reading, acquires, wakes, finishes, completes, hsame]
    rw [hlog, hdone]
    exact h.ends (by decide) hcall (by simp [SendCall.isEnded, hphase]) (.inl rfl) h.order h.once
      (fun j hj => .inr hj) (.inl rfl) (.inl rfl) le_rfl

/-- Calls are cancelled, and stay where they are. -/
theorem Paced.cancels (h : s.Paced g) {f : SendCall → SendCall} (hf : ∀ call : SendCall, (f call).phase = call.phase ∧
    (f call).data = call.data ∧ (f call).socket = call.socket) : (s.modifySend k f).Paced g := by
  have hcases : ∀ (j : ℕ) (c : SendCall), (s.modifySend k f).sends[j]? = some c →
      ∃ old, s.sends[j]? = some old ∧ c.phase = old.phase ∧ c.data = old.data ∧ c.socket = old.socket := by
    intro j c hj
    obtain ⟨old, hold, ⟨-, rfl⟩ | ⟨-, rfl⟩⟩ := modifySend_cases hj
    · exact ⟨_, hold, rfl, rfl, rfl⟩
    · exact ⟨old, hold, hf old⟩
  constructor
  · intro j c hj hc
    obtain ⟨old, hold, hphase, -⟩ := hcases j c hj
    exact h.locked j old hold (hphase ▸ hc)
  · intro j c hj hc
    obtain ⟨old, hold, hphase, -⟩ := hcases j c hj
    exact h.pacing j old hold (hphase ▸ hc)
  · intro j c hj hc
    obtain ⟨old, hold, hphase, -⟩ := hcases j c hj
    exact h.sending j old hold (hphase ▸ hc)
  · exact h.clock
  · intro j c hj
    obtain ⟨old, hold, -, hdata, -⟩ := hcases j c hj
    rw [hdata]
    exact h.payload j old hold
  · refine ⟨h.called.1.trans (List.length_modify _ _ _).symm, fun j c hj hc => ?_⟩
    obtain ⟨old, hold, hphase, -, hsocket⟩ := hcases j c hj
    rw [hsocket]
    refine h.called.2 j old hold ?_
    rw [SendCall.isEnded, ← hphase]
    exact hc
  · exact h.handed
  · exact h.order
  · exact h.once
  · intro j hj
    obtain ⟨old, hold, hlocking⟩ := h.acquired j hj
    obtain ⟨c, hc, rfl | rfl⟩ := modifySend_some (s := s) (k := k) f hold
    · exact ⟨_, hc, hlocking⟩
    · refine ⟨_, hc, ?_⟩
      rw [(hf old).1]
      exact hlocking
  · exact h.spaced
  · exact h.next
  · exact h.lasts
  · intro j c hj hc
    obtain ⟨old, hold, hphase, -⟩ := hcases j c hj
    exact h.logged j old hold (hphase ▸ hc)
  · exact h.frames

/-! ## Every event -/

/-- **Every event** keeps what holds of the clock and the calls. -/
theorem paced_step (h : s.Paced g) (hk : s.CallsKept) (hids : s.ShortIds) (hs : PacedStep (s, g) e (t, g')) :
    t.Paced g' := by
  obtain ⟨⟨hen, rfl⟩, rfl, hnow, hwake, hpayload⟩ := hs
  cases e with
  | send c data sender now waits => exact h.send hpayload waits hen.2 hnow
  | sendResume k now =>
    obtain ⟨call, hcall, -, hphase⟩ := hen
    exact h.sendResume hcall hphase hnow hwake
  | sendDone k ok now =>
    obtain ⟨call, hcall, -, hphase⟩ := hen
    exact h.sendDone hk hids hcall hphase hnow
  | sendCancel k =>
    have hlog : s.observePace g (.sendCancel k) = g := by
      simp [observePace, reading, acquires, wakes, finishes, completes, perform, binaries, modifySend]
    show (s.perform (.sendCancel k)).Paced (s.observePace g (.sendCancel k))
    rw [hlog]
    exact h.cancels fun _ => ⟨rfl, rfl, rfl⟩
  | sendCancelled k =>
    obtain ⟨call, hcall, -, hopen⟩ := hen
    have hlog : s.observePace g (.sendCancelled k) = g := by
      simp [observePace, reading, acquires, wakes, finishes, completes, perform, binaries, endSend, modifySend]
    show (s.perform (.sendCancelled k)).Paced (s.observePace g (.sendCancelled k))
    rw [hlog]
    exact h.ends (by decide) hcall hopen (.inl rfl) h.order h.once (fun j hj => .inr hj) (.inl rfl) (.inl rfl) le_rfl
  | _ =>
    have hquiet : ∀ {e : ConnectorEvent}, ¬ IsSend e → (s.perform e).Paced (s.observePace g e) := by
      intro e he
      rw [observePace_quiet he]
      exact h.congr (perform_part he)
    exact hquiet id

theorem paced_run {depths : JsonDepths} {start : ℚ} {events : List ConnectorEvent} {m : Connector × PaceLog}
    (h : Run PacedStep ({ depths := depths }, { now := start }) events m) : m.1.Paced m.2 := by
  have hall : m.1.Kept ∧ m.1.CallsKept ∧ m.1.ShortIds ∧ m.1.Paced m.2 := by
    refine h.invariant (I := fun m => m.1.Kept ∧ m.1.CallsKept ∧ m.1.ShortIds ∧ m.1.Paced m.2) ?_ ?_
    · rintro ⟨s, g⟩ e ⟨t, g'⟩ ⟨hk, hc, hids, hp⟩ hs
      exact ⟨kept_step hk hs.1, callsKept_step hc hk hs.1, shortIds_step hids hs.1, paced_step hp hc hids hs⟩
    · exact ⟨kept_new depths, fun k call hcall => by simp at hcall, fun x hx => by simp [ids] at hx,
        paced_new depths start⟩
  exact hall.2.2.2

/-! ## The budget -/

/-- What the router allows, and what the connector promises. -/
structure Budgeted (s : Connector) (g : PaceLog) : Prop where
  /-- in ten seconds there are few frames and few octets, whenever a frame left between the
      readings before and after it was sent -/
  window : ∀ (instant : ℕ → ℚ), (∀ x ∈ g.completed, x.handed ≤ instant x.call ∧ instant x.call ≤ x.done) →
    ∀ start : ℚ, let sent := g.completed.filter fun x => start ≤ instant x.call ∧ instant x.call ≤ start + 10
      sent.length ≤ 2000 ∧ (sent.map (·.message.length)).sum ≤ 25000000
  /-- every call that was sent is counted, with its frame -/
  counted : ∀ (k : ℕ) (call : SendCall), s.sends[k]? = some call → call.phase = .ended .sent →
    ∃ x ∈ g.completed, x.call = k ∧ ∃ socket, (k, socket, x.message) ∈ s.binaries
  /-- frames are in the order in which their calls got the lock, each of them once -/
  order : (s.binaries.map (·.1)).Sublist g.acquired
  once : g.acquired.Nodup
  /-- a frame is on the socket that its call found -/
  socket : ∀ (k socket : ℕ) (message : Bytes), (k, socket, message) ∈ s.binaries → g.called[k]? = some (some socket)

/-- **Pacing** keeps the host socket under the router's budget. -/
theorem outbound_paced {depths : JsonDepths} {start : ℚ} {events : List ConnectorEvent} {s : Connector} {g : PaceLog}
    (h : Run PacedStep ({ depths := depths }, { now := start }) events (s, g)) : s.Budgeted g := by
  have hp : s.Paced g := paced_run h
  constructor
  · intro instant hinstant w sent
    have hspaced : Spacing.Spaced (fun x : Completed => paceGap x.size) (fun x => instant x.call) g.completed :=
      hp.spaced.imp_of_mem fun hx hy hxy =>
        (add_le_add_left (hinstant _ hx).2 _).trans (hxy.trans (hinstant _ hy).1)
    have hsent : Spacing.Spaced (fun x : Completed => paceGap x.size) (fun x => instant x.call) sent :=
      hspaced.sublist List.filter_sublist
    have hin : ∀ x ∈ sent, w ≤ instant x.call ∧ instant x.call ≤ w + 10 := fun x hx => by
      simpa using (List.mem_filter.1 hx).2
    have hmem : ∀ x ∈ sent, x ∈ g.completed := fun x hx => (List.mem_filter.1 hx).1
    constructor
    · -- Gaps of 1 / 180 s leave room for 1801 frames.
      have hcount : (sent.length - 1 : ℕ) * (1 / 180 : ℚ) ≤ 10 :=
        hsent.count (by norm_num) (fun x _ => le_max_of_le_left (by norm_num)) hin
      by_contra hmany
      have hmany' : (2000 : ℚ) ≤ (sent.length - 1 : ℕ) := by
        exact_mod_cast (show 2000 ≤ sent.length - 1 by omega)
      linarith
    · -- At 2,250,000 octets per second, the last frame is over and above.
      have hsize : (sent.map fun x => (x.message.length : ℚ)).sum ≤ 2250000 * 10 + 65543 := by
        refine hsent.size (by norm_num) (by norm_num) (fun x hx => ?_) (by norm_num) (fun x hx => ?_) hin
        · have hlen : (x.message.length : ℚ) ≤ x.size := by exact_mod_cast (hp.frames x (hmem x hx)).2
          have hgap : (x.size : ℚ) * 10 / (25000000 * (9 / 10)) ≤ paceGap x.size := le_max_right _ _
          linarith
        · have hlen : x.message.length ≤ 65543 := (hp.frames x (hmem x hx)).2.trans (hp.lasts x (hmem x hx)).2
          exact_mod_cast hlen
      refine (Nat.cast_le (α := ℚ)).1 ?_
      rw [Nat.cast_list_sum, List.map_map]
      exact hsize.trans (by norm_num)
  · intro k call hcall hsent
    obtain ⟨x, hx, rfl⟩ := hp.logged k call hcall hsent
    exact ⟨x, hx, rfl, (hp.frames x hx).1⟩
  · exact hp.order
  · exact hp.once
  · exact fun k socket message hmem => hp.handed _ hmem

end Connector

/-- The second frame waits for 1 / 180 s. -/
def pacedFrames : List ConnectorEvent :=
  devicesOpened 1 ++ [.send 0 [9] none 0 false, .sendDone 0 true 0, .send 0 [8] none 0 false,
    .sendResume 1 (1 / 180), .sendDone 1 true (1 / 180)]

theorem outbound_paced_two : ∃ (s : Connector) (g : PaceLog), s.Budgeted g ∧
    g.completed.map (·.handed) = [0, 1 / 180] ∧ g.acquired = [0, 1] ∧ g.called = [some 0, some 0] ∧
      s.binaries = [(0, 0, [0, 0, 0, 0, 0, 0, 0, 0, 9]), (1, 0, [0, 0, 0, 0, 0, 0, 0, 0, 8])] := by
  have halong : Along (fun m e => (m.1.perform e, m.1.observePace m.2 e)) (fun m e => m.1.Enabled e ∧
      (∀ now ∈ m.1.reading e, m.2.now ≤ now) ∧ (∀ now ∈ m.1.wakes e, m.2.wake ≤ now) ∧ Connector.Payload e)
      (({}, { now := 0 }) : Connector × PaceLog) pacedFrames := by decide +kernel
  have hrun : Run Connector.PacedStep _ pacedFrames _ := (run_of_along halong).mono fun m e m' h => by
    obtain ⟨⟨hen, hnow, hwake, hpayload⟩, rfl⟩ := h
    exact ⟨⟨hen, rfl⟩, rfl, hnow, hwake, hpayload⟩
  exact ⟨_, _, Connector.outbound_paced hrun, by decide +kernel, by decide +kernel, by decide +kernel,
    by decide +kernel⟩

end MercuryRelay
