/-
  The in-memory WebSocket between a lease and its controller (virtual_ws.py),
  on the side that carries requests.

  A queue that would overflow closes the socket for good: what was queued is
  dropped and a close signal takes its place.
-/
import MercuryRelay.MethodPolicy

set_option autoImplicit false

namespace MercuryRelay

open Python

/-- What stands in a queue. -/
inductive QueueItem where
  | text (s : Str)
  | close (code : ℕ) (reason : String)
  deriving DecidableEq

/-- Why `feed_text` raised: three kinds of `VirtualWebSocketError`, and what the
    encoder and the policy raise. -/
inductive FeedFault where
  | closed | frameTooLarge | backpressure
  | unencodable
  | policy (reason : PolicyReason)
  deriving DecidableEq

/-- `isinstance(error, VirtualWebSocketError)`. -/
def FeedFault.isVirtual : FeedFault → Bool
  | .closed | .frameTooLarge | .backpressure => true
  | _ => false

structure VirtualWebSocket where
  maxQueueItems : ℕ := 256
  maxFrameBytes : ℕ := 16777216
  maxQueueBytes : ℕ := 8388608
  inboundValidator : Option MethodPolicy := none
  closed : Bool := false
  closeCode : ℕ := 0
  closeReason : String := ""
  inbound : List QueueItem := []
  inboundBytes : ℤ := 0

namespace VirtualWebSocket

/-- `_close_now`; the first code and reason stay. -/
def closeNow (ws : VirtualWebSocket) (code : ℕ) (reason : String) : VirtualWebSocket :=
  let ws := if ws.closed then ws
    else { ws with closed := true, closeCode := code, closeReason := reason }
  { ws with
    inbound := [.close (if ws.closeCode = 0 then code else ws.closeCode)
      (if ws.closeReason = "" then reason else ws.closeReason)]
    inboundBytes := 0 }

/-- `_validate_text`. -/
def validateSize (ws : VirtualWebSocket) (text : Str) : Except FeedFault ℕ :=
  match utf8 text with
  | none => .error .unencodable
  | some bytes => if ws.maxFrameBytes < bytes.length then .error .frameTooLarge else .ok bytes.length

/-- The inbound validator, if there is one. -/
def validate (ws : VirtualWebSocket) (depths : JsonDepths) (profileAuthorizer : Str → Bool)
    (text : Str) : Except FeedFault Str :=
  match ws.inboundValidator with
  | none => .ok text
  | some policy =>
    match policy.validateText depths profileAuthorizer text with
    | .ok text => .ok text
    | .error reason => .error (.policy reason)

/-- Queue a text of `size` octets, or close. -/
def enqueue (ws : VirtualWebSocket) (text : Str) (size : ℕ) : Except FeedFault Unit × VirtualWebSocket :=
  if (ws.maxQueueBytes : ℤ) < ws.inboundBytes + size then
    (.error .backpressure, ws.closeNow 1013 "inbound_backpressure")
  else if ws.maxQueueItems ≤ ws.inbound.length then
    (.error .backpressure, ws.closeNow 1013 "inbound_backpressure")
  else (.ok (), { ws with
    inbound := ws.inbound ++ [.text text], inboundBytes := ws.inboundBytes + size })

/-- `feed_text`. -/
def feedText (ws : VirtualWebSocket) (depths : JsonDepths) (profileAuthorizer : Str → Bool)
    (text : Str) : Except FeedFault Unit × VirtualWebSocket :=
  if ws.closed then (.error .closed, ws)
  else
    match ws.validateSize text with
    | .error fault => (.error fault, ws)
    | .ok _ =>
      match ws.validate depths profileAuthorizer text with
      | .error fault => (.error fault, ws)
      | .ok text =>
        match ws.validateSize text with
        | .error fault => (.error fault, ws)
        | .ok size => ws.enqueue text size

/-- An open websocket refuses a text for what the text is: it does not encode,
    or it fits in a frame and the validator rejects it. -/
def rejects (ws : VirtualWebSocket) (depths : JsonDepths) (profileAuthorizer : Str → Bool)
    (text : Str) : Bool :=
  !ws.closed &&
    match utf8 text with
    | none => true
    | some bytes =>
      bytes.length ≤ ws.maxFrameBytes && !(ws.validate depths profileAuthorizer text).toBool

section Feeding

variable {ws ws' : VirtualWebSocket} {depths : JsonDepths} {authorizer : Str → Bool}
  {text text' : Str} {fault : FeedFault}

theorem validate_ok (h : ws.validate depths authorizer text = .ok text') : text' = text := by
  unfold validate at h
  split at h
  · cases h; rfl
  · split at h
    · rename_i hok
      cases h
      exact MethodPolicy.validateText_ok hok
    · cases h

theorem validate_error (h : ws.validate depths authorizer text = .error fault) :
    fault.isVirtual = false := by
  unfold validate at h
  split at h
  · cases h
  · split at h
    · cases h
    · cases h; rfl

theorem enqueue_ok {size : ℕ} (h : ws.enqueue text size = (.ok (), ws')) :
    ws'.inbound = ws.inbound ++ [.text text] := by
  unfold enqueue at h
  split at h
  · cases h
  · split at h
    · cases h
    · cases h; rfl

theorem enqueue_error {size : ℕ} (h : ws.enqueue text size = (.error fault, ws')) :
    fault = .backpressure := by
  unfold enqueue at h
  split at h
  · cases h; rfl
  · split at h
    · cases h; rfl
    · cases h

/-- What `feed_text` comes to: a closed websocket, a text that is no frame, one
    that is rejected, or a place in the queue. -/
theorem feedText_eq : ws.feedText depths authorizer text =
    if ws.closed then (.error .closed, ws)
    else
      match utf8 text with
      | none => (.error .unencodable, ws)
      | some bytes =>
        if ws.maxFrameBytes < bytes.length then (.error .frameTooLarge, ws)
        else
          match ws.validate depths authorizer text with
          | .error fault => (.error fault, ws)
          | .ok _ => ws.enqueue text bytes.length := by
  unfold feedText validateSize
  split
  · rfl
  · cases hu : utf8 text with
    | none => rfl
    | some bytes =>
      by_cases hsize : ws.maxFrameBytes < bytes.length
      · simp only [hsize, if_true]
      · simp only [hsize, if_false]
        cases hv : ws.validate depths authorizer text with
        | error => rfl
        | ok text' =>
          obtain rfl := validate_ok hv
          simp only [hu, hsize, if_false]

/-- A text that is taken goes last in the queue. -/
theorem feedText_ok (h : ws.feedText depths authorizer text = (.ok (), ws')) :
    ws'.inbound = ws.inbound ++ [.text text] ∧ ws.rejects depths authorizer text = false := by
  rw [feedText_eq] at h
  unfold rejects
  split at h
  · cases h
  · split at h
    · cases h
    · split at h
      · cases h
      · split at h
        · cases h
        · rename_i hv
          exact ⟨enqueue_ok h, by simp [hv, Except.toBool]⟩

/-- A refusal is a `VirtualWebSocketError` unless the text is rejected. -/
theorem feedText_error (h : ws.feedText depths authorizer text = (.error fault, ws')) :
    fault.isVirtual = !ws.rejects depths authorizer text := by
  rw [feedText_eq] at h
  unfold rejects
  split at h
  · rename_i hclosed
    cases h
    simp [hclosed, FeedFault.isVirtual]
  · rename_i hclosed
    split at h
    · cases h
      simp [hclosed, FeedFault.isVirtual]
    · split at h
      · rename_i hsize
        cases h
        simp [hclosed, hsize, FeedFault.isVirtual]
      · rename_i hsize
        split at h
        · rename_i hv
          cases h
          simp [hclosed, Nat.not_lt.1 hsize, hv, validate_error hv, Except.toBool]
        · rename_i hv
          rw [enqueue_error h]
          simp [hv, FeedFault.isVirtual, Except.toBool]

end Feeding

/-- `receive_text`: the text the controller reads next, if one is queued. -/
def receiveText (ws : VirtualWebSocket) : Option Str × VirtualWebSocket :=
  match ws.inbound with
  | .text s :: rest =>
    (some s, { ws with
      inbound := rest, inboundBytes := ws.inboundBytes - ((utf8 s).getD []).length })
  | .close _ _ :: rest => (none, { ws with inbound := rest })
  | [] => (none, ws)

/-- `close`. -/
def close (ws : VirtualWebSocket) (code : ℕ) (reason : String) : VirtualWebSocket :=
  ws.closeNow code reason

end VirtualWebSocket

end MercuryRelay
