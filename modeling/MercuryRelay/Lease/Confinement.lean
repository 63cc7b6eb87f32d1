/-
  What the device can send to the controller.

  A request is read twice, by the lease and by the policy of the websocket, and
  both read the same value.

  * `submitText_websocket`: the one way from a submitted text to the websocket;
  * `inbound_confined`: what is queued is a permitted request.
-/
import MercuryRelay.Framing.Intake
import MercuryRelay.Lease.Ledger

set_option autoImplicit false

namespace MercuryRelay

open Python

/-- What may be queued for the controller. -/
structure Confined (policy : MethodPolicy) (profileAuthorizer : Str → Bool)
    (request : List (Str × Json)) : Prop where
  /-- no object repeats a key -/
  distinct : (Json.obj request).distinct
  method : ∃ method, Json.lookup request (lit "method") = some (.str method) ∧
    method ∈ policy.allowedMethods ∧ method ∉ relayLocalMethods
  id : (∃ n, Json.lookup request (lit "id") = some (.int n)) ∨
    ∃ s, Json.lookup request (lit "id") = some (.str s) ∧ s ≠ []
  params : ∃ params, (Json.lookup request (lit "params")).getD (.obj []) = .obj params ∧
    Json.hasKey params (lit "auth_identity") = false ∧
    Json.hasKey params (lit "principal_id") = false ∧
    ∀ v, Json.lookup params (lit "profile") = some v → v ≠ .null →
      ∃ profile, v = .str profile ∧ validateProfileId profile ∧
        if policy.usesAuthorizer then profileAuthorizer profile else profile = policy.profile

theorem correlated_iff {v : Option Json} :
    correlated v ↔ (∃ n, v = some (.int n)) ∨ ∃ s, v = some (.str s) ∧ s ≠ [] := by
  cases v with
  | none => simp [correlated]
  | some v => cases v <;> simp [correlated]

/-- A permitted request that is not for the relay. -/
theorem MethodPolicy.Permits.confined {policy : MethodPolicy} {authorizer : Str → Bool}
    {request params : List (Str × Json)} {method : Str}
    (h : policy.Permits authorizer request method params) (hdistinct : (Json.obj request).distinct)
    (hlocal : method ∉ relayLocalMethods) : Confined policy authorizer request := by
  have hidentity := h.identity
  simp only [privilegedIdentityFields, List.any_cons, List.any_nil, Bool.or_false, Bool.or_eq_true,
    not_or, Bool.not_eq_true] at hidentity
  refine ⟨hdistinct, ⟨method, h.named, h.allowed, hlocal⟩, correlated_iff.1 h.correlated, params,
    h.arguments, hidentity.1, hidentity.2, ?_⟩
  intro v hv hnull
  have hprofile := h.profile
  rw [hv, Option.getD_some] at hprofile
  rcases hprofile with rfl | hprofile
  · exact absurd rfl hnull
  · exact hprofile

namespace VirtualWebSocket

variable {ws : VirtualWebSocket} {depths : JsonDepths} {authorizer : Str → Bool} {text : Str}

/-- What `feed_text` does to the queue. -/
theorem feedText_inbound :
    ((ws.feedText depths authorizer text).2.inbound = ws.inbound ++ [.text text] ∧
      ws.validate depths authorizer text = .ok text) ∨
    (ws.feedText depths authorizer text).2.inbound = ws.inbound ∨
    ∃ code reason, (ws.feedText depths authorizer text).2.inbound = [.close code reason] := by
  rw [feedText_eq]
  split
  · exact .inr (.inl rfl)
  · split
    · exact .inr (.inl rfl)
    · split
      · exact .inr (.inl rfl)
      · split
        · exact .inr (.inl rfl)
        · rename_i hvalid
          rw [validate_ok hvalid] at hvalid
          unfold enqueue
          split
          · exact .inr (.inr ⟨_, _, rfl⟩)
          · split
            · exact .inr (.inr ⟨_, _, rfl⟩)
            · exact .inl ⟨rfl, hvalid⟩

theorem validate_policy {policy : MethodPolicy} (hpolicy : ws.inboundValidator = some policy)
    (h : ws.validate depths authorizer text = .ok text) :
    policy.validateText depths authorizer text = .ok text := by
  unfold validate at h
  rw [hpolicy] at h
  dsimp only at h
  split at h
  · rename_i hok
    rw [hok, MethodPolicy.validateText_ok hok]
  · cases h

end VirtualWebSocket

namespace Lease

variable {l : Lease} {env : Surroundings} {a : ℕ} {text : Str} {policy : MethodPolicy}

/-- The text is a request that the relay answers itself. -/
def RelayLocal (depths : JsonDepths) (text : Str) : Prop :=
  ∃ request method, loadsStrict depths text = some (.obj request) ∧
    Json.lookup request (lit "method") = some (.str method) ∧ method ∈ relayLocalMethods

/-- The websocket after a text that the lease does not answer itself. -/
def fed (l : Lease) (env : Surroundings) (text : Str) : VirtualWebSocket :=
  (l.websocket.feedText l.depths env.profileAuthorizer text).2

theorem forwardSubmission_websocket {sid : Str} {requestId : Json} :
    (l.forwardSubmission env text sid requestId).1.websocket = l.fed env text := by
  unfold forwardSubmission fed
  dsimp only [withSubmissions]
  split
  · rename_i hfeed
    rw [hfeed]
    rfl
  · rename_i hfeed
    rw [hfeed]
    split <;> rfl

/-- A request that the lease does not answer itself is for the controller, unless it
    repeats a submission or the table has no place for it. -/
def submits (l : Lease) (value : Option Json) : Bool :=
  match parseSubmission value with
  | .error _ => false
  | .ok none => true
  | .ok (some (sid, _)) =>
    (l.submissions.get sid).isNone &&
      (decide (l.submissions.length < l.limits.maxTrackedSubmissions) ||
        (evictFirst (fun r => r.outcome.isSome) l.submissions).isSome)

/-- The method is one that the lease looks up, and does not answer itself. -/
def passesOn (l : Lease) (method : Json) : Bool :=
  match method with
  | .str method => !(decide (method ∈ relayLocalMethods) && l.hasReadDispatcher)
  | method => method.hashable

/-- The lease does not answer the request itself, nor refuse it. -/
def handsOn (l : Lease) (value : Option Json) : Bool :=
  (match value with
    | some (.obj request) => ((Json.lookup request (lit "method")).map l.passesOn).getD true
    | _ => true) && l.submits value

/-- `submit_text` hands the text to the websocket. -/
def forwards (l : Lease) (a : ℕ) (text : Str) : Bool :=
  !l.released && decide (l.attachment = some a) && l.handsOn (loadsStrict l.depths text)

theorem newSubmission_websocket {sid : Str} {requestId : Json} :
    (l.newSubmission env text sid requestId).1.websocket =
      if (decide (l.submissions.length < l.limits.maxTrackedSubmissions) ||
          (evictFirst (fun r => r.outcome.isSome) l.submissions).isSome) = true
      then l.fed env text else l.websocket := by
  unfold newSubmission
  split
  · rename_i hfull
    rw [decide_eq_false (Nat.not_lt.2 hfull), Bool.false_or]
    split
    · rename_i hevict
      rw [hevict, Option.isSome_some, if_pos rfl]
      exact forwardSubmission_websocket
    · rename_i hevict
      rw [hevict]
      rfl
  · rename_i hroom
    rw [decide_eq_true (Nat.lt_of_not_le hroom), Bool.true_or, if_pos rfl]
    exact forwardSubmission_websocket

theorem repeatSubmission_websocket {sid : Str} {record : SubmissionRecord} {requestId : Json} :
    (l.repeatSubmission a sid record requestId).1.websocket = l.websocket := by
  unfold repeatSubmission
  split
  · exact congrArg Book.websocket (deliverOutcome_book _ _)
  · rfl

theorem submitRequest_websocket {value : Option Json} :
    (l.submitRequest env a text value).1.websocket =
      if l.submits value = true then l.fed env text else l.websocket := by
  unfold submitRequest submits
  cases parseSubmission value with
  | error fault => rfl
  | ok submission =>
    cases submission with
    | none =>
      dsimp only
      rw [if_pos rfl]
      unfold fed
      cases l.websocket.feedText l.depths env.profileAuthorizer text with
      | mk outcome websocket => cases outcome <;> rfl
    | some submission =>
      obtain ⟨sid, requestId⟩ := submission
      dsimp only
      split
      · rename_i hget
        rw [newSubmission_websocket]
        simp only [hget, Option.isNone_none, Bool.true_and]
      · rename_i hget
        rw [repeatSubmission_websocket]
        simp [hget]

theorem passesOn_of_ne {method : Json} (h : ∀ s, method ≠ .str s) : l.passesOn method = method.hashable := by
  cases method with
  | str s => exact absurd rfl (h s)
  | _ => rfl

/-- **The one way from a submitted text to the websocket.** -/
theorem submitText_websocket : (l.submitText env a text).1.websocket =
    if l.forwards a text = true then l.fed env text else l.websocket := by
  have hrequest : ∀ {value : Option Json}, l.handsOn value = l.submits value →
      (l.submitRequest env a text value).1.websocket =
        if l.handsOn value = true then l.fed env text else l.websocket := by
    intro value h
    rw [h]
    exact submitRequest_websocket
  unfold submitText forwards
  split
  · rename_i hreleased
    rw [hreleased]
    rfl
  · rename_i hreleased
    rw [Bool.not_eq_true] at hreleased
    rw [hreleased, Bool.not_false, Bool.true_and]
    split
    · rename_i hcurrent
      rw [decide_eq_false hcurrent, Bool.false_and]
      rfl
    · rename_i hcurrent
      rw [not_not] at hcurrent
      rw [decide_eq_true hcurrent, Bool.true_and]
      dsimp only
      split
      · rename_i request hvalue
        rw [hvalue]
        split
        · rename_i method hmethod
          split
          · rename_i hlocal
            have hstays : l.handsOn (some (.obj request)) = false := by
              simp [handsOn, hmethod, passesOn, hlocal.1, hlocal.2]
            rw [hstays]
            split
            · exact congrArg Book.websocket (startMutation_book _ _)
            · exact congrArg Book.websocket (startRead_book _ _)
          · rename_i hlocal
            refine hrequest ?_
            have hpasses : l.passesOn (.str method) = true := by
              simpa [passesOn, imp_iff_not_or] using hlocal
            simp [handsOn, hmethod, hpasses]
        · rename_i method hnot hmethod
          have hpasses := passesOn_of_ne (l := l) fun s hs => hnot s hs
          split
          · rename_i hhash
            refine hrequest ?_
            simp [handsOn, hmethod, hpasses, hhash]
          · rename_i hhash
            have hstays : l.handsOn (some (.obj request)) = false := by
              simp [handsOn, hmethod, hpasses, hhash]
            rw [hstays]
            rfl
        · rename_i hmethod
          refine hrequest ?_
          simp [handsOn, hmethod]
      · rename_i hvalue
        refine hrequest ?_
        rw [handsOn]
        · exact Bool.true_and _
        · exact hvalue

/-- What is handed on is not for the relay. -/
theorem forwards_not_local (hdispatcher : l.hasReadDispatcher = true) (h : l.forwards a text = true) :
    ¬ RelayLocal l.depths text := by
  rintro ⟨request, method, hvalue, hmethod, hmem⟩
  simp [forwards, handsOn, passesOn, hvalue, hmethod, hmem, hdispatcher] at h

/-- **What is queued is a permitted request**, and never one that the relay answers itself. -/
theorem inbound_confined (hpolicy : l.websocket.inboundValidator = some policy)
    (hdispatcher : l.hasReadDispatcher = true) :
    (((l.submitText env a text).1.websocket.inbound = l.websocket.inbound ++ [.text text] ∧
        ∃ request, loadsStrict l.depths text = some (.obj request) ∧
          Confined policy env.profileAuthorizer request) ∨
      (l.submitText env a text).1.websocket.inbound = l.websocket.inbound ∨
      ∃ code reason, (l.submitText env a text).1.websocket.inbound = [.close code reason]) ∧
    (RelayLocal l.depths text → (l.submitText env a text).1.websocket = l.websocket) := by
  rw [submitText_websocket]
  by_cases hforwards : l.forwards a text = true
  · rw [if_pos hforwards]
    have hlocal := forwards_not_local hdispatcher hforwards
    refine ⟨?_, fun h => absurd h hlocal⟩
    rcases @VirtualWebSocket.feedText_inbound l.websocket l.depths env.profileAuthorizer text with
      ⟨hqueue, hvalid⟩ | hqueue | hqueue
    · left
      obtain ⟨request, method, params, hvalue, hpermits⟩ :=
        MethodPolicy.validateText_iff.1 (VirtualWebSocket.validate_policy hpolicy hvalid)
      refine ⟨hqueue, request, hvalue, hpermits.confined (loadsStrict_distinct hvalue) ?_⟩
      intro hmem
      exact hlocal ⟨request, method, hvalue, hpermits.named, hmem⟩
    · exact .inr (.inl hqueue)
    · exact .inr (.inr hqueue)
  · rw [if_neg hforwards]
    exact ⟨.inr (.inl rfl), fun _ => rfl⟩

/-- A lease with an attachment and a policy. -/
def pingLease : Lease where
  hasReadDispatcher := true
  opened := 1
  attachment := some 0
  websocket := VirtualWebSocket.pingSocket

/-- A text is all that is queued. -/
def isText : List QueueItem → Bool
  | [.text _] => true
  | _ => false

theorem inbound_confined_ping : ∃ request,
    loadsStrict ⟨900, 900⟩ VirtualWebSocket.pingRequest = some (.obj request) ∧
      Confined VirtualWebSocket.pingPolicy (fun _ => false) request := by
  have hqueued : isText
      (pingLease.submitText (.standing 0 fun _ => false) 0 VirtualWebSocket.pingRequest).1.websocket.inbound = true := by
    decide +kernel
  rcases (@inbound_confined pingLease (.standing 0 fun _ => false) 0 VirtualWebSocket.pingRequest
    VirtualWebSocket.pingPolicy rfl rfl).1 with ⟨-, h⟩ | h | ⟨code, reason, h⟩
  · exact h
  · rw [h] at hqueued
    cases hqueued
  · rw [h] at hqueued
    cases hqueued

end Lease

end MercuryRelay
