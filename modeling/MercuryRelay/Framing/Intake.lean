/-
  Requests of the framing layer and the queue they enter (framing.py,
  virtual_ws.py).

  A frame may be as long as a logical message, but a queue holds half of that.

  * `request_taken_iff`: which requests an idle controller takes;
  * `long_request_closes`: one that the framing layer carries, and that closes it.
-/
import MercuryRelay.Framing.Record
import MercuryRelay.Python.JsonRead
import MercuryRelay.Python.Utf8
import MercuryRelay.VirtualWebSocket

set_option autoImplicit false

namespace MercuryRelay

open Python

namespace VirtualWebSocket

/-- What happens to the inbound queue. -/
inductive Event where
  | feed (text : Str) (profileAuthorizer : Str → Bool)
  | receive
  | close (code : ℕ) (reason : String)

def perform (depths : JsonDepths) (ws : VirtualWebSocket) : Event → VirtualWebSocket
  | .feed text profileAuthorizer => (ws.feedText depths profileAuthorizer text).2
  | .receive => ws.receiveText.2
  | .close code reason => ws.close code reason

/-- A default websocket, after some events. -/
def afterEvents (depths : JsonDepths) (validator : Option MethodPolicy) (events : List Event) :
    VirtualWebSocket :=
  events.foldl (perform depths) { inboundValidator := validator }

/-- The octets of an item. -/
def itemBytes : QueueItem → ℤ
  | .text s => ((utf8 s).getD []).length
  | .close _ _ => 0

/-- The limits are the default ones, and the octets in the queue are counted. -/
structure Accounted (ws : VirtualWebSocket) : Prop where
  items : ws.maxQueueItems = 256
  frame : ws.maxFrameBytes = Framing.maxLogicalMessageBytes
  queue : ws.maxQueueBytes = 8388608
  bytes : ws.inboundBytes = (ws.inbound.map itemBytes).sum

section Accounting

variable {ws : VirtualWebSocket} {depths : JsonDepths} {authorizer : Str → Bool} {text : Str}
  {bs : Bytes}

theorem Accounted.closeNow (h : ws.Accounted) (code : ℕ) (reason : String) :
    (ws.closeNow code reason).Accounted := by
  by_cases hclosed : ws.closed
  · simp only [VirtualWebSocket.closeNow, hclosed, if_true]
    exact ⟨h.items, h.frame, h.queue, rfl⟩
  · simp only [VirtualWebSocket.closeNow, hclosed]
    exact ⟨h.items, h.frame, h.queue, rfl⟩

theorem Accounted.enqueue (h : ws.Accounted) (htext : utf8 text = some bs) :
    (ws.enqueue text bs.length).2.Accounted := by
  unfold VirtualWebSocket.enqueue
  split
  · exact h.closeNow _ _
  · split
    · exact h.closeNow _ _
    · refine ⟨h.items, h.frame, h.queue, ?_⟩
      simp [itemBytes, htext, h.bytes]

theorem Accounted.feedText (h : ws.Accounted) : (ws.feedText depths authorizer text).2.Accounted := by
  rw [feedText_eq]
  split
  · exact h
  · split
    · exact h
    · rename_i hbytes
      split
      · exact h
      · split
        · exact h
        · exact h.enqueue hbytes

theorem Accounted.receiveText (h : ws.Accounted) : ws.receiveText.2.Accounted := by
  have hbytes := h.bytes
  unfold VirtualWebSocket.receiveText
  split
  · rename_i hqueue
    refine ⟨h.items, h.frame, h.queue, ?_⟩
    rw [hqueue] at hbytes
    simp [hbytes, itemBytes]
  · rename_i hqueue
    refine ⟨h.items, h.frame, h.queue, ?_⟩
    rw [hqueue] at hbytes
    simpa [itemBytes] using hbytes
  · exact h

theorem Accounted.perform (h : ws.Accounted) (event : Event) : (ws.perform depths event).Accounted := by
  cases event with
  | feed text authorizer => exact h.feedText
  | receive => exact h.receiveText
  | close code reason => exact h.closeNow code reason

theorem afterEvents_accounted (validator : Option MethodPolicy) (events : List Event) :
    (afterEvents depths validator events).Accounted := by
  have h : ∀ ws : VirtualWebSocket, ws.Accounted →
      (events.foldl (VirtualWebSocket.perform depths) ws).Accounted := by
    induction events with
    | nil => exact fun ws h => h
    | cons event events ih => exact fun ws h => ih _ (h.perform event)
  exact h _ ⟨rfl, rfl, rfl, rfl⟩

/-- What an idle websocket does with a text that is a frame and passes the policy. -/
theorem Accounted.feedText_idle (h : ws.Accounted) (hopen : ws.closed = false) (hempty : ws.inbound = [])
    (htext : utf8 text = some bs) (hlen : bs.length ≤ Framing.maxLogicalMessageBytes)
    (hpolicy : ws.validate depths authorizer text = .ok text) :
    ws.feedText depths authorizer text =
      if bs.length ≤ 8388608 then
        (.ok (), { ws with inbound := [.text text], inboundBytes := bs.length })
      else (.error .backpressure, ws.closeNow 1013 "inbound_backpressure") := by
  have hbytes : ws.inboundBytes = 0 := by
    rw [h.bytes, hempty]
    rfl
  have hframe : ¬ ws.maxFrameBytes < bs.length := by
    rw [h.frame]
    omega
  rw [feedText_eq, if_neg (by simp [hopen]), htext]
  dsimp only
  rw [if_neg hframe, hpolicy]
  dsimp only
  rw [VirtualWebSocket.enqueue, h.queue, h.items, hbytes, hempty, Int.zero_add]
  by_cases hfits : bs.length ≤ 8388608
  · rw [if_neg (by omega), if_neg (by simp), if_pos hfits]
    rfl
  · rw [if_pos (by omega), if_neg hfits]

/-- **Which requests an idle controller takes** of those that the framing layer carries:
    the others close it. -/
theorem request_taken_iff {validator : Option MethodPolicy} {events : List Event} {message : Bytes}
    (hws : ws = afterEvents depths validator events) (hopen : ws.closed = false)
    (hempty : ws.inbound = []) (hlen : message.length ≤ Framing.maxLogicalMessageBytes)
    (htext : decodeUtf8 message = some text)
    (hpolicy : ws.validate depths authorizer text = .ok text) :
    ((ws.feedText depths authorizer text).2.inbound = [.text text] ∧
      (ws.feedText depths authorizer text).2.closed = false) ↔ message.length ≤ 8388608 := by
  have hacc : ws.Accounted := by
    rw [hws]
    exact afterEvents_accounted validator events
  rw [hacc.feedText_idle hopen hempty (decodeUtf8_iff.1 htext) hlen hpolicy]
  by_cases hfits : message.length ≤ 8388608
  · rw [if_pos hfits]
    exact iff_of_true ⟨rfl, hopen⟩ hfits
  · rw [if_neg hfits]
    refine iff_of_false ?_ hfits
    rintro ⟨hqueue, -⟩
    cases hqueue

end Accounting

section Ping

/-- A request. -/
def pingRequest : Str := lit "\x7b\"jsonrpc\":\"2.0\",\"id\":\"1\",\"method\":\"gateway.ping\"\x7d"

/-- The policy of one profile. -/
def pingPolicy : MethodPolicy := { profile := lit "default" }

/-- The request after some blanks. -/
def paddedPing (blanks : ℕ) : Str := List.replicate blanks 32 ++ pingRequest

theorem utf8_paddedPing (blanks : ℕ) : ∃ bs, utf8 (paddedPing blanks) = some bs ∧ bs.length = blanks + 50 := by
  induction blanks with
  | zero =>
    have hsome : (utf8 (paddedPing 0)).isSome := by decide +kernel
    have hlen : ((utf8 (paddedPing 0)).getD []).length = 50 := by decide +kernel
    obtain ⟨bs, hbs⟩ := Option.isSome_iff_exists.1 hsome
    rw [hbs] at hlen
    exact ⟨bs, hbs, hlen⟩
  | succ blanks ih =>
    obtain ⟨bs, hbs, hlen⟩ := ih
    refine ⟨32 :: bs, ?_, by rw [List.length_cons, hlen, Nat.succ_add]⟩
    exact utf8_cons.2 ⟨[32], bs, rfl, hbs, rfl⟩

theorem skipWs_replicate (blanks : ℕ) (s : Str) : skipWs (List.replicate blanks 32 ++ s) = skipWs s := by
  induction blanks with
  | zero => rfl
  | succ blanks ih =>
    rw [List.replicate_succ, List.cons_append, skipWs, if_pos (.inl rfl)]
    exact ih

/-- Blanks before a request do not change its value. -/
theorem loadsStrict_paddedPing {depths : JsonDepths} (blanks : ℕ) {v : Json}
    (h : loadsStrict depths pingRequest = some v) : loadsStrict depths (paddedPing blanks) = some v := by
  have hhead : (paddedPing blanks).head? ≠ some 0xFEFF := by
    rw [paddedPing]
    cases blanks with
    | zero => decide +kernel
    | succ blanks => simp [List.replicate_succ]
  have hfuel : 2 * pingRequest.length + 2 ≤ 2 * (paddedPing blanks).length + 2 := by
    rw [paddedPing, List.length_append]
    omega
  unfold loadsStrict at h ⊢
  rw [if_neg hhead, paddedPing, skipWs_replicate, ← paddedPing]
  split at h
  · cases h
  · split at h
    · rename_i hread
      rw [(readMono hfuel).value hread]
      exact h
    · cases h

/-- The websocket of a new controller. -/
def pingSocket : VirtualWebSocket := { inboundValidator := some pingPolicy }

theorem pingSocket_eq : pingSocket = afterEvents ⟨900, 900⟩ (some pingPolicy) [] := rfl

theorem ping_permitted : pingPolicy.validateText ⟨900, 900⟩ (fun _ => false) pingRequest = .ok pingRequest := by
  decide +kernel

theorem request_taken_ping :
    (pingSocket.feedText ⟨900, 900⟩ (fun _ => false) pingRequest).2.inbound = [.text pingRequest] := by
  obtain ⟨bs, hbs, hlen⟩ := utf8_paddedPing 0
  rw [paddedPing, List.replicate_zero, List.nil_append] at hbs
  have hvalid : pingSocket.validate ⟨900, 900⟩ (fun _ => false) pingRequest = .ok pingRequest := by
    simp only [validate, pingSocket, ping_permitted]
  have hmax : bs.length ≤ Framing.maxLogicalMessageBytes := by
    simp only [Framing.maxLogicalMessageBytes]
    omega
  have htaken := request_taken_iff pingSocket_eq rfl rfl hmax (decodeUtf8_iff.2 hbs) hvalid
  have hfits : bs.length ≤ 8388608 := by omega
  exact (htaken.2 hfits).1

/-- A request of more octets than the queue holds. -/
theorem paddedPing_closes {blanks : ℕ} (hlong : 8388608 < blanks + 50)
    (hframe : blanks + 50 ≤ Framing.maxLogicalMessageBytes) :
    ∃ message text, message.length = blanks + 50 ∧ decodeUtf8 message = some text ∧
      pingPolicy.validateText ⟨900, 900⟩ (fun _ => false) text = .ok text ∧
      (pingSocket.feedText ⟨900, 900⟩ (fun _ => false) text).2.closed = true := by
  obtain ⟨bs, hbs, hlen⟩ := utf8_paddedPing blanks
  have hpolicy : pingPolicy.validateText ⟨900, 900⟩ (fun _ => false) (paddedPing blanks) =
      .ok (paddedPing blanks) := by
    obtain ⟨request, method, params, hvalue, hpermits⟩ := MethodPolicy.validateText_iff.1 ping_permitted
    refine MethodPolicy.validateText_iff.2 ⟨request, method, params, ?_, hpermits⟩
    exact loadsStrict_paddedPing blanks hvalue
  refine ⟨bs, paddedPing blanks, hlen, decodeUtf8_iff.2 hbs, hpolicy, ?_⟩
  have hvalid : pingSocket.validate ⟨900, 900⟩ (fun _ => false) (paddedPing blanks) =
      .ok (paddedPing blanks) := by
    simp only [validate, pingSocket, hpolicy]
  have hacc : pingSocket.Accounted := by
    rw [pingSocket_eq]
    exact afterEvents_accounted _ _
  rw [hacc.feedText_idle rfl rfl hbs (by omega) hvalid, if_neg (by omega)]
  rfl

/-- **A request that the framing layer carries and the policy accepts**, and the controller is
    closed for it. -/
theorem long_request_closes : ∃ message text, message.length = 8388609 ∧
    message.length ≤ Framing.maxLogicalMessageBytes ∧ decodeUtf8 message = some text ∧
    pingPolicy.validateText ⟨900, 900⟩ (fun _ => false) text = .ok text ∧
    (pingSocket.feedText ⟨900, 900⟩ (fun _ => false) text).2.closed = true := by
  have hmax : Framing.maxLogicalMessageBytes = 16777216 := rfl
  obtain ⟨message, text, hlen, htext, hpolicy, hclosed⟩ := @paddedPing_closes 8388559 (by omega) (by omega)
  exact ⟨message, text, by omega, by omega, htext, hpolicy, hclosed⟩

end Ping

end VirtualWebSocket

end MercuryRelay
