/-
  Duplicates get the outcome of the original.

  An observer of the events follows the requests the controller was sent, and
  the responses to them by identifier; it knows nothing of the ledger.  While
  the ledger has no record of a submission that was rejected, its records in
  flight are requests in flight there, and what it delivers are the outcomes.

  * `forwarded_at_most_once`.
-/
import MercuryRelay.Lease.Forwards
import MercuryRelay.Lease.Submissions
import MercuryRelay.Lib.Exchange

set_option autoImplicit false

namespace MercuryRelay

open Python Lease Transition

/-! ## The observer -/

/-- The identifier of a request: a parsed object with `method`. -/
def requestIdOf : Option Json → Option Json
  | some (.obj value) =>
    if Json.hasKey value (lit "method") then
      match Json.lookup value (lit "id") with
      | none | some .null => none
      | some rid => some rid
    else none
  | _ => none

/-- The identifier and the outcome of a response. -/
def responseOf : Option Json → Option (Json × Outcome)
  | some (.obj value) =>
    match responseId value, outcomeOf value with
    | some rid, some outcome => some (rid, outcome)
    | _, _ => none
  | _ => none

/-- The submission a text is for, and its request identifier. -/
def submissionOf (value : Option Json) : Option (Str × Json) :=
  match parseSubmission value with
  | .ok tracked => tracked
  | .error _ => none

/-- What was asked of the controller, each request with the submission it was
    for, and the duplicates, which were taken and not forwarded. -/
structure Conversation where
  calls : Exchange Json (Option Str) Outcome := {}
  duplicates : List (Str × Waiter) := []

namespace Conversation

def observe (depths : JsonDepths) (c : Conversation) : LeaseLabel → Conversation
  | (.submit _ _ text, .submitted true) =>
    match requestIdOf (loadsStrict depths text) with
    | some rid =>
      { c with calls := c.calls.send rid ((submissionOf (loadsStrict depths text)).map (·.1)) }
    | none => c
  | (.submit _ a text, .submitted false) =>
    match submissionOf (loadsStrict depths text) with
    | some (sid, rid) => { c with duplicates := c.duplicates ++ [(sid, rid, a)] }
    | none => c
  | (.frame _ _ text, _) =>
    match responseOf (loadsStrict depths text) with
    | some (rid, outcome) => { c with calls := c.calls.respond Json.norm rid outcome }
    | none => c
  | _ => c

/-- No two requests in flight carry equal identifiers. -/
def DistinctIds (c : Conversation) (_ : LeaseLabel) : Prop := c.calls.Distinct Json.norm

/-- An item of a live queue, if it answers a submission, has the outcome of
    that submission, and the identifier of a duplicate made there. -/
def Justifies (c : Conversation) (a : ℕ) (item : LiveText) : Prop :=
  match item.origin with
  | .answer (.submission sid) r =>
    ∃ d ∈ c.duplicates, ∃ p ∈ c.calls.outcomes, d.1 = sid ∧ d.2.2 = a ∧ p.1 = some sid ∧
      r = response d.2.1 (outcomeMember p.2) ∧ item.text = write compactUnicode r
  | _ => True

/-- What a consumer gets is justified. -/
def AnsweredRight (c : Conversation) : LeaseLabel → Prop
  | (.next a, .received (.live item)) => c.Justifies a item
  | _ => True

instance (c : Conversation) (label : LeaseLabel) : Decidable (c.DistinctIds label) :=
  inferInstanceAs (Decidable (c.calls.Distinct Json.norm))

instance (c : Conversation) (a : ℕ) (item : LiveText) : Decidable (c.Justifies a item) := by
  unfold Justifies
  split <;> infer_instance

instance (c : Conversation) (label : LeaseLabel) : Decidable (c.AnsweredRight label) := by
  unfold AnsweredRight
  split <;> infer_instance

end Conversation

/-- No text that starts a submission is rejected by the encoder or the policy
    once its record is made. -/
def Lease.Unrejected (l : Lease) (label : LeaseLabel) : Prop :=
  ∀ env a text sid requestId, label.1 = .submit env a text → l.Opens a text sid requestId →
    l.Exhausted ∨ l.websocket.rejects l.depths env.profileAuthorizer text = false

/-! ## What a step adds -/

section Observe

variable {c : Conversation} {depths : JsonDepths} {sid : Str}

/-- The observer forgets nothing of what it justifies. -/
theorem observe_mono (label : LeaseLabel) :
    c.duplicates ⊆ (c.observe depths label).duplicates ∧
      c.calls.outcomes ⊆ (c.observe depths label).calls.outcomes := by
  unfold Conversation.observe
  split
  · split
    · exact ⟨fun _ h => h, fun _ h => h⟩
    · exact ⟨fun _ h => h, fun _ h => h⟩
  · split
    · exact ⟨fun _ h => List.mem_append_left _ h, fun _ h => h⟩
    · exact ⟨fun _ h => h, fun _ h => h⟩
  · split
    · exact ⟨fun _ h => h, fun _ h => Exchange.respond_outcomes h _ _⟩
    · exact ⟨fun _ h => h, fun _ h => h⟩
  · exact ⟨fun _ h => h, fun _ h => h⟩

/-- Only a response ends a request. -/
theorem observe_inFlight {label : LeaseLabel} (h : ∀ env now text, label.1 ≠ .frame env now text) :
    c.calls.inFlight ⊆ (c.observe depths label).calls.inFlight := by
  intro q hq
  unfold Conversation.observe
  split
  · split
    · exact List.mem_append_left _ hq
    · exact hq
  · split <;> exact hq
  · exact absurd rfl (h _ _ _)
  · exact hq

theorem Conversation.Justifies.mono {c' : Conversation} {a : ℕ} {item : LiveText}
    (h : c.Justifies a item) (hd : c.duplicates ⊆ c'.duplicates)
    (ho : c.calls.outcomes ⊆ c'.calls.outcomes) : c'.Justifies a item := by
  unfold Conversation.Justifies at h ⊢
  split
  · rename_i sid r horigin
    rw [horigin] at h
    obtain ⟨d, hdm, p, hpm, hrest⟩ := h
    exact ⟨d, hd hdm, p, ho hpm, hrest⟩
  · trivial

theorem submissionOf_some {value : Option Json} {requestId : Json}
    (h : parseSubmission value = .ok (some (sid, requestId))) :
    submissionOf value = some (sid, requestId) := by
  simp [submissionOf, h]

/-- A tracked submission that has an identifier is a request with it. -/
theorem requestIdOf_some {value : Option Json} {requestId : Json}
    (h : parseSubmission value = .ok (some (sid, requestId))) (hnull : requestId ≠ .null) :
    requestIdOf value = some requestId := by
  obtain ⟨request, rfl, hm⟩ := parseSubmission_some h
  have hid : requestId = (Json.lookup request (lit "id")).getD .null := by
    unfold parseSubmission at h
    dsimp only at h
    split at h
    · cases h
    · split at h
      · split at h
        · cases h
        · split at h
          · cases h; rfl
          · cases h
        · cases h
      · cases h
  unfold requestIdOf
  dsimp only
  rw [if_pos (Json.hasKey_of_lookup hm)]
  cases hl : Json.lookup request (lit "id") with
  | none => rw [hl] at hid; exact absurd hid hnull
  | some rid =>
    rw [hl] at hid
    obtain rfl : requestId = rid := hid
    cases requestId <;> first | rfl | exact absurd rfl hnull

end Observe

/-! ## The ledger and the conversation -/

/-- The records of a ledger agree with the conversation: what is in flight was
    sent and has no response, what is settled has the response's outcome, and
    who waits asked. -/
structure Agrees (d : Dict Str SubmissionRecord) (c : Conversation) : Prop where
  inFlight : ∀ sid record, d.get sid = some record → record.outcome = none →
    record.requestId ≠ .null → (record.requestId, some sid) ∈ c.calls.inFlight
  settled : ∀ sid record outcome, d.get sid = some record → record.outcome = some outcome →
    (some sid, outcome) ∈ c.calls.outcomes
  waiters : ∀ sid record, d.get sid = some record → ∀ w ∈ record.waiters, (sid, w) ∈ c.duplicates

namespace Agrees

variable {d : Dict Str SubmissionRecord} {c c' : Conversation} {sid : Str} {record : SubmissionRecord}

theorem mono (h : Agrees d c) (hc : c.calls.inFlight ⊆ c'.calls.inFlight)
    (ho : c.calls.outcomes ⊆ c'.calls.outcomes) (hd : c.duplicates ⊆ c'.duplicates) : Agrees d c' where
  inFlight sid record hget hnone hid := hc (h.inFlight sid record hget hnone hid)
  settled sid record outcome hget hout := ho (h.settled sid record outcome hget hout)
  waiters sid record hget w hw := hd (h.waiters sid record hget w hw)

theorem evicts {l : Lease} (h : Agrees l.submissions c) (hd : l.Evicts d) : Agrees d c := by
  have hget : ∀ {sid record}, d.get sid = some record → l.submissions.get sid = some record := by
    intro sid record hr
    rcases hd.get sid with he | he
    · rw [← he]; exact hr
    · rw [he] at hr; cases hr
  constructor
  · intro sid record hr
    exact h.inFlight sid record (hget hr)
  · intro sid record outcome hr
    exact h.settled sid record outcome (hget hr)
  · intro sid record hr
    exact h.waiters sid record (hget hr)

/-- A record that agrees may be put among the others. -/
theorem set (h : Agrees d c)
    (hin : record.outcome = none → record.requestId ≠ .null →
      (record.requestId, some sid) ∈ c.calls.inFlight)
    (hout : ∀ outcome, record.outcome = some outcome → (some sid, outcome) ∈ c.calls.outcomes)
    (hwait : ∀ w ∈ record.waiters, (sid, w) ∈ c.duplicates) : Agrees (d.set sid record) c := by
  have hcases : ∀ {key record'}, Dict.get (d.set sid record) key = some record' →
      key = sid ∧ record' = record ∨ d.get key = some record' := by
    intro key record' hr
    rw [Dict.get_set] at hr
    split at hr
    · rename_i he
      cases hr
      exact .inl ⟨he.symm, rfl⟩
    · exact .inr hr
  constructor
  · intro key record' hr
    rcases hcases hr with ⟨rfl, rfl⟩ | hr
    · exact hin
    · exact h.inFlight key record' hr
  · intro key record' outcome hr
    rcases hcases hr with ⟨rfl, rfl⟩ | hr
    · exact hout outcome
    · exact h.settled key record' outcome hr
  · intro key record' hr
    rcases hcases hr with ⟨rfl, rfl⟩ | hr
    · exact hwait
    · exact h.waiters key record' hr

end Agrees

section Responses

variable {l : Lease} {text sid : Str} {record : SubmissionRecord} {outcome : Outcome} {rid : Json}

theorem responseId_ne_null {value : List (Str × Json)} (h : responseId value = some rid) :
    rid ≠ .null := by
  rintro rfl
  unfold responseId at h
  split at h
  · cases h
  · split at h
    · cases h
    · cases h
    · rename_i hne hl
      cases h
      exact hne rfl

/-- A frame that settles a record is a response to its request. -/
theorem settles_response (h : l.settles text = some (sid, record, outcome)) :
    ∃ rid, responseOf (loadsStrict l.depths text) = some (rid, outcome) ∧
      record.requestId.norm = rid.norm ∧ record.requestId ≠ .null := by
  unfold settles settlesValue at h
  split at h
  · cases h
  · split at h
    · rename_i value hv
      split at h
      · cases h
      · rename_i rid hrid
        split at h
        · rename_i hpend hout
          cases h
          have hprop := List.find?_some hpend
          simp only [Bool.and_eq_true, decide_eq_true_eq] at hprop
          refine ⟨rid, ?_, hprop.2, ?_⟩
          · rw [hv]
            simp only [responseOf, hrid, hout]
          · intro hnull
            have hnorm : rid.norm = .null := by rw [← hprop.2, hnull]; rfl
            exact responseId_ne_null hrid (Json.norm_eq_null hnorm)
        · cases h
    · cases h

/-- A response that settles nothing is to no record in flight. -/
theorem settles_none (h : l.settles text = none)
    (hr : responseOf (loadsStrict l.depths text) = some (rid, outcome))
    (hget : l.submissions.get sid = some record) (hnone : record.outcome = none) :
    record.requestId.norm ≠ rid.norm := by
  intro hsame
  have hmem := Dict.get_mem hget
  unfold settles settlesValue at h
  rw [if_neg (List.ne_nil_of_mem hmem)] at h
  cases hv : loadsStrict l.depths text with
  | none => simp [hv, responseOf] at hr
  | some v =>
    rw [hv] at h hr
    cases v with
    | obj value =>
      cases hrid : responseId value with
      | none => simp [responseOf, hrid] at hr
      | some rid' =>
        cases hout : outcomeOf value with
        | none => simp [responseOf, hrid, hout] at hr
        | some outcome' =>
          obtain ⟨rfl, rfl⟩ : rid' = rid ∧ outcome' = outcome := by
            simpa [responseOf, hrid, hout] using hr
          cases hp : l.pendingRecord rid' with
          | some found => simp [hrid, hout, hp] at h
          | none =>
            have hno := List.find?_eq_none.1 hp _ hmem
            simp [hnone, Json.same, hsame] at hno
    | _ => simp [responseOf] at hr

end Responses

/-! ## Steps -/

section Steps

variable {l l' : Lease} {label : LeaseLabel} {c : Conversation} {sid : Str}

theorem Lease.Evicts.not_exhausted {d : Dict Str SubmissionRecord} (h : l.Evicts d) : ¬ l.Exhausted := by
  rintro ⟨hfull, hall⟩
  cases h with
  | room hlt => omega
  | @evicted key record _ hget hsome =>
    have hnone : record.outcome = none := hall _ (Dict.get_mem hget)
    simp [hnone] at hsome

/-- A frame releases the lease, or nothing was raised. -/
theorem frame_done {env : Surroundings} {now : ℚ} {text : Str} {out : LeaseOutput}
    (hs : Step l (.frame env now text, out) l') (hrel : l'.released = false) : out = .done := by
  cases step_moves hs with
  | answered hsilent => exact hsilent.elim
  | retained => rfl
  | failed =>
    rw [release_released] at hrel
    cases hrel

/-- A response to a request in flight gives its record the outcome, and leaves
    the others in flight. -/
theorem agrees_settle {text : Str} {record : SubmissionRecord} {outcome : Outcome}
    (h : Agrees l.submissions c) (hd : c.calls.Distinct Json.norm) (hk : l.submissions.Keyed)
    (hset : l.settles text = some (sid, record, outcome)) (env : Surroundings) (now : ℚ)
    (out : LeaseOutput) :
    Agrees (l.submissions.set sid (record.settle outcome))
      (c.observe l.depths (.frame env now text, out)) := by
  obtain ⟨rid, hresp, hsame, hnull⟩ := settles_response hset
  obtain ⟨hget, hnone⟩ := settles_some hk hset
  have hmine := h.inFlight sid record hget hnone hnull
  have hc : c.observe l.depths (.frame env now text, out) =
      { c with calls := c.calls.respond Json.norm rid outcome } := by
    simp only [Conversation.observe, hresp]
  rw [hc]
  constructor
  · intro key record' hr hnone' hnull'
    rw [Dict.get_set] at hr
    split at hr
    · cases hr
      simp [SubmissionRecord.settle] at hnone'
    · rename_i hne
      have hother := h.inFlight key record' hr hnone' hnull'
      refine Exchange.respond_inFlight hother ?_ outcome
      intro he
      have := hd.unique hmine hother (hsame.trans he.symm)
      exact hne (Option.some.inj this)
  · intro key record' outcome' hr hout
    rw [Dict.get_set] at hr
    split at hr
    · rename_i he
      subst he
      cases hr
      obtain rfl : outcome = outcome' := Option.some.inj hout
      exact Exchange.respond_outcome hd hmine hsame outcome
    · exact Exchange.respond_outcomes (h.settled key record' outcome' hr hout) rid outcome
  · intro key record' hr w hw
    rw [Dict.get_set] at hr
    split at hr
    · cases hr
      simp [SubmissionRecord.settle] at hw
    · exact h.waiters key record' hr w hw

/-- A frame that settles nothing ends no request of a record. -/
theorem agrees_frame {text : Str} (h : Agrees l.submissions c) (hset : l.settles text = none)
    (env : Surroundings) (now : ℚ) (out : LeaseOutput) :
    Agrees l.submissions (c.observe l.depths (.frame env now text, out)) := by
  cases hresp : responseOf (loadsStrict l.depths text) with
  | none => simpa only [Conversation.observe, hresp] using h
  | some response =>
    obtain ⟨rid, outcome⟩ := response
    have hc : c.observe l.depths (.frame env now text, out) =
        { c with calls := c.calls.respond Json.norm rid outcome } := by
      simp only [Conversation.observe, hresp]
    rw [hc]
    constructor
    · intro sid record hget hnone hnull
      exact Exchange.respond_inFlight (h.inFlight sid record hget hnone hnull)
        (settles_none hset hresp hget hnone) outcome
    · intro sid record outcome' hget hout
      exact Exchange.respond_outcomes (h.settled sid record outcome' hget hout) rid outcome
    · exact h.waiters

/-- **The ledger goes on to agree with the conversation**, if no submission is
    rejected after its record is made. -/
theorem agrees_step (hk : l.submissions.Keyed) (hs : Step l label l') (hrel : l'.released = false)
    (hun : l.Unrejected label) (hd : c.calls.Distinct Json.norm) (h : Agrees l.submissions c) :
    Agrees l'.submissions (c.observe l.depths label) := by
  have hrec := step_records hk hs
  have hmono : (∀ env now text, label.1 ≠ .frame env now text) → ∀ {d}, Agrees d c →
      Agrees d (c.observe l.depths label) := by
    intro hlabel d hd
    obtain ⟨h1, h2⟩ := @observe_mono c l.depths label
    exact hd.mono (observe_inFlight hlabel) h2 h1
  cases hrec with
  | kept hsub hunrec =>
    rw [hsub]
    by_cases hframe : ∃ env now text, label.1 = .frame env now text
    · obtain ⟨e, out⟩ := label
      obtain ⟨env, now, text, rfl⟩ := hframe
      obtain rfl := frame_done hs hrel
      exact agrees_frame h (hunrec.frame env now text rfl) env now .done
    · refine hmono ?_ h
      intro env now text he
      exact hframe ⟨env, now, text, he⟩
  | @submitted env a text sid requestId _ fault ho hf =>
    have hnot : ∀ {d}, l.Evicts d → l.websocket.rejects l.depths env.profileAuthorizer text = false := by
      intro d hd
      rcases hun env a text sid requestId rfl ho with he | hno
      · exact absurd he hd.not_exhausted
      · exact hno
    cases hf with
    | @forwarded d _ hev hsub =>
      rw [hsub]
      refine (hmono (by simp) (h.evicts hev)).set ?_ (by simp) (by simp)
      intro _ hnull
      have hc : c.observe l.depths (.submit env a text, .submitted true) =
          { c with calls := c.calls.send requestId (some sid) } := by
        simp only [Conversation.observe, requestIdOf_some ho.tracked hnull,
          submissionOf_some ho.tracked, Option.map_some]
      simp only [hc, Exchange.send, List.mem_append, List.mem_singleton, or_true]
    | refused hev hsub => rw [hsub]; exact hmono (by simp) (h.evicts hev)
    | rejected hev hsub hrej =>
      rw [hnot hev] at hrej
      cases hrej
    | exhausted => exact hmono (by simp) h
  | @waiting env a text sid requestId record _ hp _ hget hnone hsub =>
    rw [hsub]
    have hm := hmono (by simp) h
    refine hm.set ?_ ?_ ?_
    · intro _ hnull
      rw [await_requestId] at hnull ⊢
      exact hm.inFlight sid record hget hnone hnull
    · intro outcome hout
      rw [await_outcome, hnone] at hout
      cases hout
    · intro w hw
      rcases Lease.await_waiters hw with hw | rfl
      · exact hm.waiters sid record hget w hw
      · simp [Conversation.observe, submissionOf_some hp]
  | @settled env now text sid record outcome out _ hset hsub =>
    rw [hsub]
    exact agrees_settle h hd hk hset env now out
  | cleared hreleased =>
    have := released_step (step_moves hs) hreleased
    rw [this] at hrel
    cases hrel

end Steps

/-! ## The live queues -/

/-- What waits in the live queues is justified. -/
def Justified (l : Lease) (c : Conversation) : Prop :=
  ∀ a < l.opened, ∀ item ∈ (l.heap a).live, c.Justifies a item

section Queues

variable {l l' : Lease} {label : LeaseLabel} {c : Conversation} {a b : ℕ} {item x : LiveText}

theorem markDetached_live {att : LeaseAttachment} {reason : DetachReason}
    (h : x ∈ (att.markDetached reason).live) : x ∈ att.live := by
  unfold LeaseAttachment.markDetached at h
  dsimp only at h
  split at h
  · split at h <;> simp at h
  · split at h <;> exact h

theorem detach_live {reason : DetachReason} (h : x ∈ ((l.detach a reason).heap b).live) :
    x ∈ (l.heap b).live := by
  by_cases hb : b = a
  · subst hb
    rw [detach_heap_self] at h
    exact markDetached_live h
  · rwa [detach_heap_of_ne l a reason hb] at h

/-- A delivery adds the item, to one queue. -/
theorem deliver_live (h : x ∈ ((l.deliver a item).heap b).live) :
    x ∈ (l.heap b).live ∨ b = a ∧ x = item := by
  unfold deliver at h
  split at h
  · exact .inl (detach_live h)
  · by_cases hb : b = a
    · subst hb
      rw [modifyAttachment_heap_self] at h
      rcases List.mem_append.1 h with h | h
      · exact .inl h
      · exact .inr ⟨rfl, by simpa using h⟩
    · rw [modifyAttachment_heap_of_ne _ _ _ hb] at h
      exact .inl h

theorem Justified.deliver (h : Justified l c) (hitem : c.Justifies a item) :
    Justified (l.deliver a item) c := by
  intro b hb x hx
  rw [(deliver_sameLog l a item).opened] at hb
  rcases deliver_live hx with hx | ⟨rfl, rfl⟩
  · exact h b hb x hx
  · exact hitem

theorem Justified.quiet (hd : l'.delivery = l.delivery) (h : Justified l c) : Justified l' c := by
  intro b hb x hx
  rw [show l'.heap = l.heap from congrArg Delivery.heap hd] at hx
  rw [(delivery_sameLog hd).opened] at hb
  exact h b hb x hx

theorem Justified.answered {P : AnswerCause → Json → ℕ → Prop} (hl : Answered P l l')
    (h : Justified l c)
    (hP : ∀ cause r b, P cause r b → c.Justifies b ⟨write compactUnicode r, .answer cause r⟩) :
    Justified l' c := by
  induction hl with
  | quiet hd => exact h.quiet (congrArg Upkeep.delivery hd)
  | @answer l a cause r _ hp => exact h.deliver (hP cause r a hp)
  | trans _ _ ih ih' => exact ih' (ih h)

theorem deliverLocal_raised {cause : AnswerCause} {r : Json} {fault : LeaseFault}
    (h : l.deliverLocal cause r a = (l', some fault)) : l' = l := by
  unfold deliverLocal at h
  split at h
  · cases h
  · split at h
    · cases h; rfl
    · split at h
      · cases h
      · cases h; rfl

/-- A duplicate that is not answered, since its answer does not encode, changes
    nothing. -/
theorem repeat_raised {env : Surroundings} {text sid : Str} {requestId : Json}
    {record : SubmissionRecord} {outcome : Outcome} {fault : LeaseFault}
    (hs : Step l (.submit env a text, .raised fault) l')
    (hp : parseSubmission (loadsStrict l.depths text) = .ok (some (sid, requestId)))
    (hget : l.submissions.get sid = some record) (hout : record.outcome = some outcome) : l' = l := by
  obtain ⟨-, hx⟩ := hs
  rcases hr : l.feedText env a text with ⟨m, raised⟩
  simp only [perform, hr] at hx
  cases raised with
  | none => cases hx
  | some f =>
    cases hx
    unfold feedText at hr
    rw [submitText_tracked hp, hget] at hr
    split at hr
    · cases hr; rfl
    · split at hr
      · cases hr; rfl
      · split at hr
        · cases hr; rfl
        · simp only [repeatSubmission, hout] at hr
          exact deliverLocal_raised hr

/-- An answer that a step owes is justified, or the step changes nothing. -/
theorem owes_justified (hk : l.submissions.Keyed) (hs : Step l label l')
    (hd : c.calls.Distinct Json.norm) (h : Agrees l.submissions c) {cause : AnswerCause} {r : Json}
    (ho : Owes l label cause r b) :
    (c.observe l.depths label).Justifies b ⟨write compactUnicode r, .answer cause r⟩ ∨ l' = l := by
  obtain ⟨e, out⟩ := label
  cases cause with
  | mutation => exact .inl trivial
  | read => exact .inl trivial
  | submission sid =>
    cases e with
    | submit env a text =>
      obtain ⟨rfl, requestId, record, outcome, hp, hget, hout, rfl⟩ := ho
      rcases hr : l.feedText env b text with ⟨m, fault⟩
      have hx := hs.2
      simp only [perform, hr, Prod.mk.injEq] at hx
      obtain ⟨rfl, hout'⟩ := hx
      cases fault with
      | some f => subst hout'; exact .inr (repeat_raised hs hp hget hout)
      | none =>
        left
        have hsent : l.sent m text = false := by
          by_contra hsent
          have htrue : l.sent m text = true := by simpa using hsent
          have hfwd : Forwards l.depths sid requestId (.submit env b text, out) :=
            ⟨env, b, text, by rw [← hout', submitOutput, htrue], hp⟩
          have hnew := (forwards_step hk hs hfwd).2.1
          rw [hget] at hnew
          cases hnew
        rw [submitOutput, hsent] at hout'
        subst hout'
        refine ⟨(sid, requestId, b), ?_, (some sid, outcome), ?_, rfl, rfl, rfl, rfl, rfl⟩
        · simp [Conversation.observe, submissionOf_some hp]
        · exact observe_mono _ |>.2 (h.settled sid record outcome hget hout)
    | frame env now text =>
      obtain ⟨record, outcome, hset, w, hw, rfl, rfl⟩ := ho
      left
      have hget := (settles_some hk hset).1
      have hafter := agrees_settle h hd hk hset env now out
      refine ⟨(sid, w), observe_mono _ |>.1 (h.waiters sid record hget w hw), (some sid, outcome),
        ?_, rfl, rfl, rfl, rfl, rfl⟩
      exact hafter.settled sid (record.settle outcome) outcome Dict.get_set_self rfl
    | _ => exact ho.elim

/-- **The live queues go on to be justified.** -/
theorem justified_step (hk : l.submissions.Keyed) (hs : Step l label l') (hrel : l'.released = false)
    (hd : c.calls.Distinct Json.norm) (h : Agrees l.submissions c) (hq : Justified l c) :
    Justified l' (c.observe l.depths label) := by
  have hq' : Justified l (c.observe l.depths label) := by
    intro b hb x hx
    obtain ⟨h1, h2⟩ := @observe_mono c l.depths label
    exact (hq b hb x hx).mono h1 h2
  have howes := @owes_justified l l' label c
  cases step_moves hs with
  | answered _ hl =>
    by_cases hsame : l' = l
    · rw [hsame]; exact hq'
    · refine hq'.answered hl ?_
      intro cause r b ho
      exact (howes hk hs hd h ho).resolve_right hsame
  | detached =>
    intro b hb x hx
    rw [(detach_sameLog _ _ _).opened] at hb
    exact hq' b hb x (detach_live hx)
  | released => rw [release_released] at hrel; cases hrel
  | finished hreleased => exact absurd (hreleased.symm.trans hrel) (by simp)
  | @retained env now text m size hl =>
    have hstamp : Justified l.stamp (c.observe l.depths (.frame env now text, .done)) := hq'
    have hm := hstamp.answered hl (by
      intro cause r b ho
      rcases howes hk hs hd h ho with hj | hsame
      · exact hj
      · have hlast := congrArg Lease.lastSeq hsame
        rw [(appendEvent_sameLog _ _).lastSeq, ringed_lastSeq, hl.sameLog.lastSeq] at hlast
        exact absurd hlast (Nat.succ_ne_self _))
    rcases appendEvent_spec m ⟨l.lastSeq + 1, text, size, now⟩ with ⟨-, hdel⟩ | ⟨a, -, hdel⟩
    · exact Justified.quiet hdel hm
    · rw [hdel]
      have hringed : Justified (m.ringed ⟨l.lastSeq + 1, text, size, now⟩)
          (c.observe l.depths (.frame env now text, .done)) := hm
      exact hringed.deliver trivial
  | failed => rw [release_released] at hrel; cases hrel
  | @took a item att _ _ hpend =>
    intro b hopen x hx
    by_cases hb : b = a
    · subst hb
      rw [modifyAttachment_heap_self] at hx
      have hmem : Received.live x ∈ (l.heap b).pending l.leaseId := by
        rw [hpend]
        exact List.mem_cons_of_mem _ (live_mem_pending.2 hx)
      exact hq' b hopen x (live_mem_pending.1 hmem)
    · rw [modifyAttachment_heap_of_ne _ _ _ hb] at hx
      exact hq' b hopen x hx
  | @attached env now request m snapshot _ hsnap =>
    have hdel : m.delivery = (l.trim now).1.delivery := by
      have := takeSnapshot_delivery (l.trim now).1 env request.recovery
      rwa [hsnap] at this
    have hheap : m.heap = l.heap := congrArg Delivery.heap hdel
    have hopened : m.opened = l.opened := congrArg Delivery.opened hdel
    intro b hb x hx
    by_cases hnew : b = m.opened
    · subst hnew
      rw [publish_heap_new] at hx
      simp [newAttachment] at hx
    · have hlt : b < m.opened + 1 := hb
      have hpub : ((m.publish (m.newAttachment request snapshot)).heap b) =
          m.replaceAttachment.heap b := if_neg hnew
      rw [hpub] at hx
      refine hq' b (by omega) x ?_
      unfold replaceAttachment at hx
      split at hx
      · rw [hheap] at hx; exact hx
      · rename_i a _
        by_cases ha : b = a
        · subst ha
          rw [modifyAttachment_heap_self, hheap] at hx
          exact markDetached_live hx
        · rw [modifyAttachment_heap_of_ne _ _ _ ha, hheap] at hx
          exact hx
  | started => exact hq'.quiet (start_delivery l)
  | elapsed => exact hq'
  | @resumed t =>
    rcases resumeExpiry_spec l t with he | he
    · rw [he]; exact hq'
    · rw [he, release_released] at hrel
      cases hrel

end Queues

/-! ## Runs -/

variable {l l' l₀ : Lease} {label : LeaseLabel} {c : Conversation}

/-- A released lease yields nothing. -/
theorem next_released {a : ℕ} {item : Received} (hs : Step l (.next a, .received item) l') :
    l.released = false := by
  obtain ⟨-, hx⟩ := hs
  cases hrel : l.released with
  | false => rfl
  | true => simp [perform, nextText, hrel] at hx

/-- The lease was released, or it agrees with the conversation. -/
def Told (depths : JsonDepths) (l : Lease) (c : Conversation) : Prop :=
  l.depths = depths ∧
    (l.released = true ∨ l.submissions.Keyed ∧ Agrees l.submissions c ∧ Justified l c)

theorem Lease.Fresh.told (h : l.Fresh) : Told l.depths l {} := by
  refine ⟨rfl, .inr ⟨?_, ⟨?_, ?_, ?_⟩, ?_⟩⟩
  · rw [h.submissions]; exact Dict.keyed_nil
  · intro sid record hget
    simp [h.submissions] at hget
  · intro sid record outcome hget
    simp [h.submissions] at hget
  · intro sid record hget
    simp [h.submissions] at hget
  · intro a ha
    rw [h.opened] at ha
    omega

/-- A step of an agreeing lease yields what is justified, and agrees again. -/
theorem told_step {depths : JsonDepths} (h : Told depths l c) (hd : c.DistinctIds label)
    (hs : l.Unrejected label ∧ Step l label l') :
    c.AnsweredRight label ∧ Told depths l' (c.observe depths label) := by
  obtain ⟨hdepths, h⟩ := h
  subst hdepths
  obtain ⟨hun, hs⟩ := hs
  have hmoves := step_moves hs
  refine ⟨?_, hmoves.constants.depths, ?_⟩
  · cases hmoves with
    | @took a item att _ _ hpend =>
      have hrel := next_released hs
      cases item with
      | live x =>
        rcases h with hreleased | ⟨-, -, hq⟩
        · rw [hrel] at hreleased
          cases hreleased
        · have hmem : Received.live x ∈ (l.heap a).pending l.leaseId := by
            rw [hpend]
            exact List.mem_cons_self
          exact hq a hs.1 x (live_mem_pending.1 hmem)
      | _ => trivial
    | @answered label _ hsilent _ =>
      obtain ⟨e, out⟩ := label
      cases e with
      | next a =>
        cases out with
        | received item => exact hsilent.elim
        | _ => trivial
      | _ => trivial
    | _ => trivial
  · cases hrel : l'.released with
    | true => exact .inl rfl
    | false =>
      rcases h with hreleased | ⟨hk, hagree, hq⟩
      · rw [released_step hmoves hreleased] at hrel
        cases hrel
      · exact .inr ⟨(step_records hk hs).keyed hk, agrees_step hk hs hrel hun hd hagree,
          justified_step hk hs hrel hd hagree hq⟩

/-- **A submission is forwarded at most once, and duplicates get its outcome.**
    Between two forwards of one submission the outcome of the first was recorded,
    and its record then dropped from a full table.  A record in flight stays,
    and its submission is not forwarded again, until a response settles it.  In
    a run in which no submission is rejected after its record is made, and no
    two requests in flight carry equal identifiers, every duplicate that is
    answered gets the outcome of its own submission, under its own identifier. -/
theorem forwarded_at_most_once (hfresh : l₀.Fresh) :
    (∀ before p first p' between q second q' sid requestId requestId', Run l₀ before p →
      Step p first p' → Forwards l₀.depths sid requestId first → Run p' between q →
      Step q second q' → Forwards l₀.depths sid requestId' second →
      p'.Recycled sid requestId between q) ∧
    (∀ trace l label l' sid requestId, Run l₀ trace l → l.released = false →
      l.InFlight sid requestId → Step l label l' →
      (∀ requestId', ¬ Forwards l₀.depths sid requestId' label) ∧
        (l'.InFlight sid requestId ∨ l.RecordsOutcome sid requestId label l')) ∧
    (∀ trace l, Transition.Run (fun l label l' => l.Unrejected label ∧ Step l label l') l₀ trace l →
      Along (Conversation.observe l₀.depths) Conversation.DistinctIds {} trace →
      Along (Conversation.observe l₀.depths) Conversation.AnsweredRight {} trace) := by
  have hkeyed : ∀ {trace l}, Run l₀ trace l → l.submissions.Keyed := by
    intro trace l hrun
    refine keyed_run hrun ?_
    rw [hfresh.submissions]
    exact Dict.keyed_nil
  have hdepths : ∀ {trace l}, Run l₀ trace l → l.depths = l₀.depths := by
    intro trace l hrun
    exact hrun.invariant (I := fun m => m.depths = l₀.depths)
      (fun _ _ _ h hs => (step_moves hs).constants.depths.trans h) rfl
  refine ⟨?_, ?_, ?_⟩
  · intro before p first p' between q second q' sid requestId requestId' hbefore h1 hf1 hrun h2 hf2
    have hq : Run l₀ (before ++ first :: between) q := hbefore.append (.cons h1 hrun)
    rw [← hdepths hbefore] at hf1
    rw [← hdepths hq] at hf2
    exact forwards_recycled (hkeyed hbefore) h1 hf1 hrun h2 hf2
  · intro trace l label l' sid requestId hrun hrel hin hs
    refine ⟨?_, pending_step (hkeyed hrun) hs hrel hin⟩
    intro requestId' hf
    rw [← hdepths hrun] at hf
    have hnew := (forwards_step (hkeyed hrun) hs hf).2.1
    obtain ⟨record, hget, -⟩ := hin
    rw [hnew] at hget
    cases hget
  · intro trace l hrun hdist
    have hstep : ∀ l c label l', Told l₀.depths l c → c.DistinctIds label →
        (l.Unrejected label ∧ Step l label l') →
        c.AnsweredRight label ∧ Told l₀.depths l' (c.observe l₀.depths label) :=
      fun l c label l' => told_step
    exact (along_run_of hstep hrun hdist hfresh.told).1

/-- No submitted text is rejected while events are executed. -/
def Lease.rejectsNone : Lease → List LeaseEvent → Bool
  | _, [] => true
  | l, .submit env a text :: es =>
    !l.websocket.rejects l.depths env.profileAuthorizer text &&
      (l.perform (.submit env a text)).1.rejectsNone es
  | l, e :: es => (l.perform e).1.rejectsNone es

/-- An execution that rejects no text is a run that rejects no submission. -/
theorem unrejected_of_execute {es : List LeaseEvent} {r : Lease × List LeaseLabel}
    (h : execute l es = some r) (hnone : l.rejectsNone es = true) :
    Transition.Run (fun l label l' => l.Unrejected label ∧ Step l label l') l r.2 r.1 := by
  induction es generalizing l r with
  | nil => cases h; exact .nil
  | cons e es ih =>
    unfold execute at h
    split at h
    · rename_i he
      obtain ⟨r', hr', rfl⟩ := Option.map_eq_some_iff.1 h
      have hrest : (l.perform e).1.rejectsNone es = true ∧ ∀ env a text, e = .submit env a text →
          l.websocket.rejects l.depths env.profileAuthorizer text = false := by
        cases e <;> simp_all [Lease.rejectsNone]
      refine .cons ⟨?_, he, rfl⟩ (ih hr' hrest.1)
      intro env a text sid requestId hsubmit _
      exact .inr (hrest.2 env a text hsubmit)
    · cases h

/-- A response with a result. -/
def resultFrame (requestId : ℤ) (value : String) : LeaseEvent :=
  .frame (.standing 0 fun _ => true) 0 (write compactUnicode (response (.int requestId)
    (outcomeMember (.result (.str (lit value))))))

/-- A `prompt.submit` request on the first attachment. -/
def submitOn (requestId : ℤ) (params : List (Str × Json)) : LeaseEvent :=
  .submit (.standing 0 fun _ => true) 0 (promptSubmit (.int requestId) params)

/-- A submission, a duplicate of it that waits, and the response. -/
def duplicateAnswered : List LeaseEvent :=
  [.attach (.standing 0 fun _ => true) 0 {}, submitOn 1 [(lit "submission_id", .str (lit "s"))],
   submitOn 2 [(lit "submission_id", .str (lit "s"))], resultFrame 1 "done", .next 0, .next 0, .next 0]

theorem duplicateAnswered_executes : (execute {} duplicateAnswered).any (fun r =>
    decide (Along (Conversation.observe ({} : Lease).depths) Conversation.DistinctIds {} r.2 ∧
      (receivedBy 0 r.2).length = 3)) = true := by decide +kernel

theorem forwarded_at_most_once_duplicate : ∃ trace l, Run {} trace l ∧
    (receivedBy 0 trace).length = 3 ∧
    Along (Conversation.observe ({} : Lease).depths) Conversation.AnsweredRight {} trace := by
  have hfresh : ({} : Lease).Fresh := ⟨rfl, rfl, rfl, rfl, rfl, rfl, rfl, rfl, rfl, rfl, rfl, rfl, rfl, rfl⟩
  have hnone : ({} : Lease).rejectsNone duplicateAnswered = true := by decide +kernel
  obtain ⟨r, hr, hdec⟩ := (Option.any_eq_true _ _).1 duplicateAnswered_executes
  obtain ⟨hdist, hlen⟩ := of_decide_eq_true hdec
  have hrun := unrejected_of_execute hr hnone
  exact ⟨_, _, hrun.weaken, hlen, (forwarded_at_most_once hfresh).2.2 _ _ hrun hdist⟩

/-! ## A submission that the policy rejects -/

/-- The submission `s` is rejected, and `t` then forwarded under the same request
    identifier; the response to `t` comes, and a duplicate of `s`. -/
def rejectedAnswered : List LeaseEvent :=
  [.attach (.standing 0 fun _ => true) 0 {},
   submitOn 1 [(lit "submission_id", .str (lit "s")), (lit "auth_identity", .str (lit "x"))],
   submitOn 1 [(lit "submission_id", .str (lit "t"))], resultFrame 1 "done",
   submitOn 2 [(lit "submission_id", .str (lit "s"))], .next 0, .next 0, .next 0]

/-- A fresh lease with a method policy. -/
def policedLease : Lease := { websocket := { inboundValidator := some { profile := lit "main" } } }

theorem rejectedAnswered_executes : (execute policedLease rejectedAnswered).any (fun r =>
    decide (Along (Conversation.observe policedLease.depths) Conversation.DistinctIds {} r.2 ∧
      ¬ Along (Conversation.observe policedLease.depths) Conversation.AnsweredRight {} r.2)) = true := by
  decide +kernel

/-- The duplicate of the rejected submission gets the outcome of the other one,
    though no two requests in flight carry equal identifiers. -/
theorem rejected_submission_answered : policedLease.Fresh ∧ ∃ trace l, Run policedLease trace l ∧
    Along (Conversation.observe policedLease.depths) Conversation.DistinctIds {} trace ∧
    ¬ Along (Conversation.observe policedLease.depths) Conversation.AnsweredRight {} trace := by
  refine ⟨⟨rfl, rfl, rfl, rfl, rfl, rfl, rfl, rfl, rfl, rfl, rfl, rfl, rfl, rfl⟩, ?_⟩
  obtain ⟨r, hr, hdec⟩ := (Option.any_eq_true _ _).1 rejectedAnswered_executes
  obtain ⟨hdist, hnot⟩ := of_decide_eq_true hdec
  exact ⟨_, _, run_of_execute hr, hdist, hnot⟩

end MercuryRelay
