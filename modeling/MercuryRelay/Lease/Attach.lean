/-
  Attaching an outer consumer to a lease.

  The replay is a snapshot of the ring, taken when the attachment is made; what
  the controller says from then on goes to the attachment's live queue.
-/
import MercuryRelay.Lease.Retention

set_option autoImplicit false

namespace MercuryRelay

open Python

/-- The arguments of `attach`, and what it asks others for: a routing token, and
    the capabilities of an available push bridge. -/
structure AttachRequest where
  cursor : ℤ := 0
  recovery : Bool := false
  recoveryReset : Bool := false
  replaceAttached : Bool := false
  relayToken : Option Str := none
  capabilities : Option Json := none

namespace Lease

/-- The retained events after a cursor. -/
def replayAfter (l : Lease) (cursor : ℤ) : List RetainedEvent :=
  l.ring.filter fun e => cursor < e.leaseSeq

/-- The cursor precedes an event that is gone. -/
def replayGap (l : Lease) (cursor : ℤ) : Bool := cursor < l.trimmedThrough

/-- The members recovery adds to the attach-status frame. -/
def recoveryMembers (l : Lease) (request : AttachRequest) (snapshot : List (Str × Json)) :
    List (Str × Json) :=
  [(lit "recovery_version", .int 1), (lit "lease_id", .str l.leaseId),
   (lit "recovery_reset", .bool request.recoveryReset),
   (lit "snapshot_through", .int l.lastSeq)] ++ snapshot

/-- The attach-status frame. -/
def attachedText (l : Lease) (request : AttachRequest) (snapshot : List (Str × Json)) : Str :=
  write compactSorted (.obj
    [(lit "jsonrpc", .str (lit "2.0")), (lit "method", .str (lit "relay.lease.attached")),
     (lit "params", .obj
       ((match request.relayToken with
          | some (c :: token) => [(lit "relay_token", .str (c :: token))]
          | _ => []) ++
        (request.capabilities.map fun v => (lit "capabilities", v)).toList ++
        [(lit "last_seq", .int l.lastSeq), (lit "replay_gap", .bool (l.replayGap request.cursor)),
         (lit "replayed_from", match l.replayAfter request.cursor with
          | e :: _ => .int e.leaseSeq
          | [] => .null),
         (lit "resume_cursor", .int request.cursor)] ++
        (if request.recovery then l.recoveryMembers request snapshot else [])))])

/-- `LeaseAttachment.__init__`. -/
def newAttachment (l : Lease) (request : AttachRequest) (snapshot : List (Str × Json)) :
    LeaseAttachment where
  replay := l.replayAfter request.cursor
  replayGap := l.replayGap request.cursor
  preamble := some (l.attachedText request snapshot)
  recovery := request.recovery
  replayComplete := if request.recovery then some (replayCompleteText l.leaseId l.lastSeq) else none

/-- Why `attach` raises, before it changes anything. -/
def attachRefused (l : Lease) (request : AttachRequest) : Option LeaseFault :=
  if l.released then some .released
  else if ¬ (0 ≤ request.cursor ∧ request.cursor ≤ maxCursor) then
    some (.attachRejected "invalid_cursor")
  else if (l.lastSeq : ℤ) < request.cursor then some (.attachRejected "cursor_ahead")
  else if l.attachment.isSome ∧ ¬ (request.recovery ∧ request.replaceAttached) then
    some (.attachRejected "already_attached")
  else none

/-- The snapshot a recovery attachment reports. -/
def takeSnapshot (l : Lease) (env : Surroundings) (recovery : Bool) : Lease × List (Str × Json) :=
  if recovery then
    let (members, projection) := l.recoveryProjection.snapshot env
    (l.withProjection projection, members)
  else (l, [])

/-- The current attachment, if there is one, loses its place. -/
def replaceAttachment (l : Lease) : Lease :=
  match l.attachment with
  | none => l
  | some a => l.modifyAttachment a (·.markDetached .attachmentReplaced)

/-- The end of `attach`: a new attachment takes the place of the current one. -/
def publish (l : Lease) (att : LeaseAttachment) : Lease :=
  { l.cancelExpiry with
    heap := fun b => if b = l.opened then att else l.replaceAttachment.heap b
    opened := l.opened + 1
    recoveryEnabled := l.recoveryEnabled || att.recovery
    attachment := some l.opened }

/-- `attach`, with the number of the attachment it makes. -/
def attach (l : Lease) (env : Surroundings) (now : ℚ) (request : AttachRequest) :
    Lease × Except LeaseFault ℕ :=
  match l.attachRefused request with
  | some fault => (l, .error fault)
  | none =>
    let l := (l.trim now).1
    let (l, snapshot) := l.takeSnapshot env request.recovery
    (l.publish (l.newAttachment request snapshot), .ok l.opened)

theorem attachRefused_none {l : Lease} {request : AttachRequest} (h : l.attachRefused request = none) :
    l.released = false ∧ 0 ≤ request.cursor ∧ request.cursor ≤ l.lastSeq ∧
      (l.attachment = none ∨ request.recovery = true ∧ request.replaceAttached = true) := by
  unfold attachRefused at h
  split at h
  · cases h
  · rename_i hr
    split at h
    · cases h
    · rename_i hc
      split at h
      · cases h
      · rename_i hl
        split at h
        · cases h
        · rename_i ha
          refine ⟨by simpa using hr, by omega, by omega, ?_⟩
          cases hatt : l.attachment with
          | none => exact .inl rfl
          | some b => exact .inr (Classical.not_not.1 fun hn => ha ⟨by simp [hatt], hn⟩)

end Lease

end MercuryRelay
