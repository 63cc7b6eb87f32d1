/-
  What each event does to the deliveries of a lease.

  A request changes nothing but for answers, which go to the current attachment.

  * `step_moves`: what a step can do.
-/
import MercuryRelay.Lease.Step

set_option autoImplicit false

namespace MercuryRelay

open Python

/-- What of a lease its deliveries depend on. -/
structure Delivery where
  leaseId : Str
  limits : LeaseLimits
  depths : JsonDepths
  ring : List RetainedEvent
  lastSeq : ℕ
  trimmedThrough : ℕ
  heap : ℕ → LeaseAttachment
  opened : ℕ
  attachment : Option ℕ
  released : Bool

/-- What of a lease no request changes, but for the answers it causes. -/
structure Upkeep where
  delivery : Delivery
  ringBytes : ℤ
  recoveryEnabled : Bool
  capReleaseScheduled : Bool
  pumpStarted : Bool
  expiry : ExpiryTimer

/-- The log of a lease is as it was. -/
structure SameLog (l l' : Lease) : Prop where
  leaseId : l'.leaseId = l.leaseId
  limits : l'.limits = l.limits
  depths : l'.depths = l.depths
  ring : l'.ring = l.ring
  lastSeq : l'.lastSeq = l.lastSeq
  trimmedThrough : l'.trimmedThrough = l.trimmedThrough
  opened : l'.opened = l.opened
  released : l'.released = l.released

theorem SameLog.rfl {l : Lease} : SameLog l l :=
  ⟨Eq.refl _, Eq.refl _, Eq.refl _, Eq.refl _, Eq.refl _, Eq.refl _, Eq.refl _, Eq.refl _⟩

theorem SameLog.trans {l l' l'' : Lease} (h : SameLog l l') (h' : SameLog l' l'') :
    SameLog l l'' where
  leaseId := h'.leaseId.trans h.leaseId
  limits := h'.limits.trans h.limits
  depths := h'.depths.trans h.depths
  ring := h'.ring.trans h.ring
  lastSeq := h'.lastSeq.trans h.lastSeq
  trimmedThrough := h'.trimmedThrough.trans h.trimmedThrough
  opened := h'.opened.trans h.opened
  released := h'.released.trans h.released

/-- What waits for the consumer of an attachment, in order. -/
def LeaseAttachment.pending (leaseId : Str) (att : LeaseAttachment) : List Received :=
  att.preamble.toList.map .preamble ++
    att.replay.map (fun e =>
      .replayed e.leaseSeq (if att.recovery then frameText leaseId e true else e.text)) ++
    att.replayComplete.toList.map .replayComplete ++ att.live.map .live

/-- The live items among what waits for a consumer. -/
theorem live_mem_pending {att : LeaseAttachment} {leaseId : Str} {item : LiveText} :
    .live item ∈ att.pending leaseId ↔ item ∈ att.live := by
  simp [LeaseAttachment.pending]

theorem markDetached_recovery (att : LeaseAttachment) (reason : DetachReason) :
    (att.markDetached reason).recovery = att.recovery := by
  unfold LeaseAttachment.markDetached
  dsimp only
  split <;> split <;> rfl

theorem markDetached_detached (att : LeaseAttachment) (reason : DetachReason) :
    (att.markDetached reason).detached = true := by
  unfold LeaseAttachment.markDetached
  dsimp only
  split <;> split
  · assumption
  · rfl
  · assumption
  · rfl

namespace Lease

def delivery (l : Lease) : Delivery :=
  ⟨l.leaseId, l.limits, l.depths, l.ring, l.lastSeq, l.trimmedThrough, l.heap, l.opened,
    l.attachment, l.released⟩

def upkeep (l : Lease) : Upkeep :=
  ⟨l.delivery, l.ringBytes, l.recoveryEnabled, l.capReleaseScheduled, l.pumpStarted, l.expiry⟩

section Operations

variable (l : Lease) (a : ℕ) (f : LeaseAttachment → LeaseAttachment) (reason : DetachReason)
  (item : LiveText)

theorem delivery_sameLog {l l' : Lease} (h : l'.delivery = l.delivery) : SameLog l l' :=
  ⟨congrArg Delivery.leaseId h, congrArg Delivery.limits h, congrArg Delivery.depths h,
    congrArg Delivery.ring h, congrArg Delivery.lastSeq h, congrArg Delivery.trimmedThrough h,
    congrArg Delivery.opened h, congrArg Delivery.released h⟩

@[simp] theorem modifyAttachment_attachment :
    (l.modifyAttachment a f).attachment = l.attachment := rfl

@[simp] theorem modifyAttachment_heap_self : (l.modifyAttachment a f).heap a = f (l.heap a) :=
  if_pos rfl

theorem modifyAttachment_heap_of_ne {b : ℕ} (h : b ≠ a) :
    (l.modifyAttachment a f).heap b = l.heap b := if_neg h

theorem modifyAttachment_sameLog : SameLog l (l.modifyAttachment a f) :=
  ⟨rfl, rfl, rfl, rfl, rfl, rfl, rfl, rfl⟩

theorem detach_sameLog : SameLog l (l.detach a reason) := by
  unfold detach
  split <;> exact ⟨rfl, rfl, rfl, rfl, rfl, rfl, rfl, rfl⟩

theorem detach_attachment : (l.detach a reason).attachment =
    if l.attachment = some a then none else l.attachment := by
  unfold detach
  split <;> rfl

@[simp] theorem detach_heap_self :
    (l.detach a reason).heap a = (l.heap a).markDetached reason := by
  unfold detach
  split <;> exact if_pos rfl

theorem detach_heap_of_ne {b : ℕ} (h : b ≠ a) : (l.detach a reason).heap b = l.heap b := by
  unfold detach
  split <;> exact if_neg h

theorem deliver_sameLog : SameLog l (l.deliver a item) := by
  unfold deliver
  split
  · exact detach_sameLog l a _
  · exact modifyAttachment_sameLog l a _

end Operations

/-! ## What a request asks for -/

end Lease

/-- The method and the members of a request the relay answers itself. -/
def localMethod : Option Json → Option (Str × List (Str × Json))
  | some (.obj request) =>
    match Json.lookup request (lit "method") with
    | some (.str method) => if method ∈ relayLocalMethods then some (method, request) else none
    | _ => none
  | _ => none

/-- The identifier of a request to read. -/
def readRequest (value : Option Json) : Option Json :=
  match localMethod value with
  | some (method, request) =>
    if method ∈ relayMutationMethods then none else (localRequest request).map (·.1)
  | none => none

/-- A request for a mutation. -/
structure MutationRequest where
  method : Str
  params : List (Str × Json)
  requestId : Json
  payload : Raw
  identity : Raw

def mutationOf (depths : JsonDepths) (method : Str) (request : List (Str × Json)) :
    Option MutationRequest :=
  match localRequest request with
  | none => none
  | some (requestId, params) =>
    match payloadFingerprint depths method params, requestIdentity depths method requestId with
    | some payload, some identity => some ⟨method, params, requestId, payload, identity⟩
    | _, _ => none

/-- The mutation a text asks for. -/
def mutationRequest (depths : JsonDepths) (value : Option Json) : Option MutationRequest :=
  match localMethod value with
  | some (method, request) =>
    if method ∈ relayMutationMethods then mutationOf depths method request else none
  | none => none

/-- What a mutation that has a record is answered at once. -/
def LocalMutationRecord.reply (record : LocalMutationRecord) (payload : Raw) : Option Outcome :=
  if record.payloadFingerprint ≠ payload then some (relayError (lit "invalid_params"))
  else record.outcome

namespace Lease

/-- What a request for a mutation is answered at once. -/
def mutationReply (l : Lease) (q : MutationRequest) : Option Outcome :=
  match l.mutations.get q.identity with
  | some record => record.reply q.payload
  | none =>
    if min l.limits.maxTrackedSubmissions maxLocalMutations ≤ l.mutations.length ∧
        evictFirst (fun r => r.outcome.isSome) l.mutations = none then
      some (relayError (lit "rate_limited"))
    else none

/-! ## Answers -/

/-- From one lease to another by answers that satisfy `P`, to the current
    attachment, and by changes that its upkeep does not depend on. -/
inductive Answered (P : AnswerCause → Json → ℕ → Prop) : Lease → Lease → Prop
  | quiet {l l' : Lease} : l'.upkeep = l.upkeep → Answered P l l'
  | answer {l : Lease} {a : ℕ} {cause : AnswerCause} {response : Json} :
      l.attachment = some a → P cause response a →
      Answered P l (l.deliver a ⟨write compactUnicode response, .answer cause response⟩)
  | trans {l l' l'' : Lease} : Answered P l l' → Answered P l' l'' → Answered P l l''

section Answered

variable {P : AnswerCause → Json → ℕ → Prop}

namespace Answered

theorem sameLog {l l' : Lease} (h : Answered P l l') : SameLog l l' := by
  induction h with
  | quiet h => exact delivery_sameLog (congrArg Upkeep.delivery h)
  | answer => exact deliver_sameLog _ _ _
  | trans _ _ ih ih' => exact ih.trans ih'

theorem rfl {l : Lease} : Answered P l l := .quiet (Eq.refl _)

theorem ofSubmissions {l l' : Lease} {submissions : Dict Str SubmissionRecord}
    (h : Answered P (l.withSubmissions submissions) l') : Answered P l l' := by
  have hq : Answered P l (l.withSubmissions submissions) := .quiet (Eq.refl _)
  exact hq.trans h

theorem ofMutations {l l' : Lease} {mutations : Dict Raw LocalMutationRecord}
    (h : Answered P (l.withMutations mutations) l') : Answered P l l' := by
  have hq : Answered P l (l.withMutations mutations) := .quiet (Eq.refl _)
  exact hq.trans h

theorem ofTasks {l l' : Lease} {readTasks : List LocalTask}
    (h : Answered P (l.withTasks readTasks) l') : Answered P l l' := by
  have hq : Answered P l (l.withTasks readTasks) := .quiet (Eq.refl _)
  exact hq.trans h

theorem toProjection {l l' : Lease} (h : Answered P l l')
    (recoveryProjection : RecoveryProjection) :
    Answered P l (l'.withProjection recoveryProjection) :=
  h.trans (quiet (Eq.refl _))

end Answered

variable {l : Lease} {cause : AnswerCause}

theorem deliverLocal_answered {response : Json} {a : ℕ} (h : P cause response a) :
    Answered P l (l.deliverLocal cause response a).1 := by
  unfold deliverLocal
  split
  · exact .rfl
  · rename_i hcur
    simp only [not_or, not_not] at hcur
    split
    · exact .rfl
    · rename_i text htext
      split
      · obtain rfl : write compactUnicode response = text := by
          unfold dumps at htext
          split at htext
          · exact Option.some.inj htext
          · cases htext
        exact .answer hcur.2.1 h
      · exact .rfl

theorem deliverOutcomes_answered {outcome : Outcome} {waiters : List Waiter}
    (h : ∀ w ∈ waiters, P cause (response w.1 (outcomeMember outcome)) w.2) :
    Answered P l (deliverOutcomes cause outcome l waiters).1 := by
  induction waiters generalizing l with
  | nil => exact .rfl
  | cons waiter waiters ih =>
    unfold deliverOutcomes
    have h1 : Answered P l (l.deliverOutcome cause outcome waiter).1 :=
      deliverLocal_answered (h waiter List.mem_cons_self)
    split
    · rename_i hx
      rw [hx] at h1; exact h1
    · rename_i hx
      rw [hx] at h1; exact h1.trans (ih fun w hw => h w (List.mem_cons_of_mem _ hw))

theorem recordOutcome_answered {text : Str}
    (h : ∀ sid record outcome, l.settles text = some (sid, record, outcome) →
      ∀ w ∈ record.waiters, P (.submission sid) (response w.1 (outcomeMember outcome)) w.2) :
    Answered P l (l.recordOutcome text).1 := by
  unfold recordOutcome
  split
  · exact .rfl
  · rename_i hs
    exact (deliverOutcomes_answered (h _ _ _ hs)).ofSubmissions

/-- `_retain` answers waiters; unless it raises, it then appends the event. -/
theorem retain_spec {l' : Lease} {env : Surroundings} {now : ℚ} {text : Str}
    {fault : Option LeaseFault} (hx : l.retain env now text = (l', fault))
    (h : ∀ sid record outcome, l.settles text = some (sid, record, outcome) →
      ∀ w ∈ record.waiters, P (.submission sid) (response w.1 (outcomeMember outcome)) w.2) :
    ∃ m, Answered P l.stamp m ∧
      ((fault = none ∧ ∃ size, size = byteSize text ∧
          l' = m.appendEvent ⟨l.lastSeq + 1, text, size, now⟩) ∨
        (fault ≠ none ∧ l' = m)) := by
  unfold retain at hx
  dsimp only at hx
  have hr : Answered P l.stamp (l.stamp.recordOutcome text).1 := recordOutcome_answered h
  split at hx
  · cases hx
    exact ⟨_, .rfl, .inr ⟨by simp, Eq.refl _⟩⟩
  · rename_i bytes hbytes
    split at hx
    · rename_i hrec
      cases hx
      rw [hrec] at hr
      exact ⟨_, hr, .inr ⟨by simp, Eq.refl _⟩⟩
    · rename_i m hrec
      rw [hrec] at hr
      split at hx
      · cases hx
        exact ⟨_, hr.toProjection _, .inr ⟨by simp, Eq.refl _⟩⟩
      · cases hx
        rw [hr.sameLog.lastSeq]
        exact ⟨_, hr.toProjection _, .inl ⟨Eq.refl _, _, by rw [byteSize, hbytes]; simp, Eq.refl _⟩⟩

/-- The lease whose ring has the event and is trimmed. -/
def ringed (l : Lease) (event : RetainedEvent) : Lease :=
  ({ l with ring := l.ring ++ [event], ringBytes := l.ringBytes + event.size }.trim
    event.storedAt).1

@[simp] theorem ringed_lastSeq (l : Lease) (event : RetainedEvent) :
    (l.ringed event).lastSeq = l.lastSeq := rfl

/-- The current attachment gets an appended event. -/
theorem appendEvent_spec (l : Lease) (event : RetainedEvent) :
    (l.attachment = none ∧ (l.appendEvent event).delivery = (l.ringed event).delivery) ∨
      ∃ a, l.attachment = some a ∧
        l.appendEvent event = (l.ringed event).deliver a ((l.ringed event).liveFrame a event) := by
  have hatt : (l.ringed event).attachment = l.attachment := rfl
  unfold appendEvent
  dsimp only
  split
  · rename_i hc
    exact .inl ⟨hatt ▸ hc.2.1, rfl⟩
  · split
    · rename_i ha
      exact .inl ⟨hatt ▸ ha, rfl⟩
    · rename_i a ha
      exact .inr ⟨a, hatt ▸ ha, rfl⟩

theorem appendEvent_sameLog (l : Lease) (event : RetainedEvent) :
    SameLog (l.ringed event) (l.appendEvent event) := by
  rcases appendEvent_spec l event with ⟨-, hd⟩ | ⟨a, -, hd⟩
  · exact delivery_sameLog hd
  · rw [hd]; exact deliver_sameLog _ _ _

/-- What `next_text` takes is first among what waits; otherwise nothing
    changes. -/
theorem nextText_spec {l l' : Lease} {a : ℕ} {r : Except LeaseFault (Option Received)}
    (hx : l.nextText a = (l', r)) :
    (∃ item att, r = .ok (some item) ∧ l' = l.modifyAttachment a (fun _ => att) ∧
      att.recovery = (l.heap a).recovery ∧ att.detached = (l.heap a).detached ∧
      (l.heap a).pending l.leaseId = item :: att.pending l.leaseId) ∨
    (l' = l ∧ ∀ item, r ≠ .ok (some item)) := by
  unfold nextText at hx
  dsimp only at hx
  split at hx
  · cases hx
    exact .inr ⟨rfl, by simp⟩
  · split at hx
    · rename_i text hp
      cases hx
      refine .inl ⟨_, _, rfl, rfl, rfl, rfl, ?_⟩
      simp [LeaseAttachment.pending, hp]
    · rename_i event replay hp hr
      cases hx
      refine .inl ⟨_, _, rfl, rfl, rfl, rfl, ?_⟩
      simp [LeaseAttachment.pending, hp, hr]
    · rename_i text hp hr hc
      cases hx
      refine .inl ⟨_, _, rfl, rfl, rfl, rfl, ?_⟩
      simp [LeaseAttachment.pending, hp, hr, hc]
    · rename_i item live hp hr hc hl
      cases hx
      refine .inl ⟨_, _, rfl, rfl, rfl, rfl, ?_⟩
      simp [LeaseAttachment.pending, hp, hr, hc, hl]
    · split at hx
      · cases hx
        exact .inr ⟨rfl, by simp⟩
      · cases hx
        exact .inr ⟨rfl, by simp⟩

theorem startRead_answered {a : ℕ} {method : Str} {request : List (Str × Json)}
    (h : ∀ requestId params, localRequest request = some (requestId, params) →
      P .read (response requestId (outcomeMember (relayError (lit "rate_limited")))) a) :
    Answered P l (l.startRead a method request).1 := by
  unfold startRead
  split
  · exact .rfl
  · rename_i hreq
    split
    · exact deliverLocal_answered (h _ _ hreq)
    · exact .quiet (Eq.refl _)

theorem repeatMutation_answered {a : ℕ} {identity payload : Raw} {record : LocalMutationRecord}
    {requestId : Json} (h : ∀ outcome, record.reply payload = some outcome →
      P (.mutation identity) (response requestId (outcomeMember outcome)) a) :
    Answered P l (l.repeatMutation a identity payload record requestId).1 := by
  unfold repeatMutation
  dsimp only
  split
  · rename_i hne
    exact (deliverLocal_answered (h _ (if_pos hne))).ofMutations
  · rename_i hne
    split
    · rename_i ho
      exact (deliverLocal_answered (h _ ((if_neg hne).trans ho))).ofMutations
    · split
      · exact .quiet (Eq.refl _)
      · exact .quiet (Eq.refl _)

theorem startMutation_answered {a : ℕ} {method : Str} {request : List (Str × Json)}
    (h : ∀ q outcome, mutationOf l.depths method request = some q → l.mutationReply q = some outcome →
      P (.mutation q.identity) (response q.requestId (outcomeMember outcome)) a) :
    Answered P l (l.startMutation a method request).1 := by
  unfold startMutation
  split
  · exact .rfl
  · rename_i requestId params hreq
    split
    · rename_i payload identity hp hi
      have hq : mutationOf l.depths method request =
          some ⟨method, params, requestId, payload, identity⟩ := by
        simp only [mutationOf, hreq, hp, hi]
      split
      · rename_i record hget
        refine repeatMutation_answered fun outcome ho => h _ _ hq ?_
        simp only [mutationReply, hget, ho]
      · rename_i hget
        split
        · rename_i hfull
          split
          · exact .quiet (Eq.refl _)
          · rename_i hev
            refine deliverLocal_answered (h _ _ hq ?_)
            simp only [mutationReply, hget, hfull, hev, and_self, if_true]
        · exact .quiet (Eq.refl _)
    · exact .rfl

theorem settleMutation_answered {identity : Raw} {record : LocalMutationRecord}
    {outcome : Outcome} (h : ∀ w ∈ record.waiters,
      P (.mutation identity) (response w.1 (outcomeMember outcome)) w.2) :
    Answered P l (l.settleMutation identity record outcome).1 := by
  have hd : Answered P l (deliverOutcomes (.mutation identity) outcome (l.withMutations
      (l.mutations.set identity (record.settle outcome))) record.waiters).1 :=
    (deliverOutcomes_answered h).ofMutations
  unfold settleMutation
  split
  · rename_i hx
    rw [hx] at hd; exact hd
  · rename_i hx
    rw [hx] at hd
    split
    · exact hd
    · exact hd.trans (.quiet (Eq.refl _))

theorem finishTask_answered {task : LocalTask} {reply : DispatcherReply}
    (hr : ∀ method params requestId a, task = .read method params requestId a →
      P .read (response requestId (outcomeMember reply.outcome)) a)
    (hm : ∀ method params identity record, task = .mutation method params identity →
      l.mutations.get identity = some record → ∀ w ∈ record.waiters,
        P (.mutation identity) (response w.1 (outcomeMember reply.outcome)) w.2) :
    Answered P l (l.finishTask task reply).1 := by
  unfold finishTask
  dsimp only
  split
  · exact (deliverLocal_answered (hr _ _ _ _ (Eq.refl _))).ofTasks
  · split
    · exact .quiet (Eq.refl _)
    · split
      · exact .quiet (Eq.refl _)
      · rename_i hget
        exact (settleMutation_answered (hm _ _ _ _ (Eq.refl _) hget)).ofTasks

theorem forwardSubmission_answered {env : Surroundings} {text sid : Str} {requestId : Json} :
    Answered P l (l.forwardSubmission env text sid requestId).1 := by
  unfold forwardSubmission
  dsimp only
  split
  · exact .quiet (Eq.refl _)
  · split
    · exact .quiet (Eq.refl _)
    · exact .quiet (Eq.refl _)

theorem newSubmission_answered {env : Surroundings} {text sid : Str} {requestId : Json} :
    Answered P l (l.newSubmission env text sid requestId).1 := by
  unfold newSubmission
  split
  · split
    · exact forwardSubmission_answered.ofSubmissions
    · exact .rfl
  · exact forwardSubmission_answered

theorem repeatSubmission_answered {a : ℕ} {sid : Str} {record : SubmissionRecord}
    {requestId : Json} (h : ∀ outcome, record.outcome = some outcome →
      P (.submission sid) (response requestId (outcomeMember outcome)) a) :
    Answered P l (l.repeatSubmission a sid record requestId).1 := by
  unfold repeatSubmission
  split
  · rename_i ho
    exact deliverLocal_answered (h _ ho)
  · exact .quiet (Eq.refl _)

/-- What a request is answered: local requests what the relay has for them, a
    submission its recorded outcome. -/
structure Answers (P : AnswerCause → Json → ℕ → Prop) (l : Lease) (a : ℕ) (value : Option Json) :
    Prop where
  read : ∀ requestId, readRequest value = some requestId →
    P .read (response requestId (outcomeMember (relayError (lit "rate_limited")))) a
  mutation : ∀ q outcome, mutationRequest l.depths value = some q → l.mutationReply q = some outcome →
    P (.mutation q.identity) (response q.requestId (outcomeMember outcome)) a
  submission : ∀ sid requestId record outcome, parseSubmission value = .ok (some (sid, requestId)) →
    l.submissions.get sid = some record → record.outcome = some outcome →
    P (.submission sid) (response requestId (outcomeMember outcome)) a

theorem submitRequest_answered {env : Surroundings} {a : ℕ} {text : Str} {value : Option Json}
    (h : Answers P l a value) : Answered P l (l.submitRequest env a text value).1 := by
  unfold submitRequest
  split
  · exact .rfl
  · split
    · exact .quiet (Eq.refl _)
    · exact .quiet (Eq.refl _)
  · rename_i hparse
    split
    · exact newSubmission_answered
    · rename_i hget
      exact repeatSubmission_answered fun outcome ho => h.submission _ _ _ _ hparse hget ho

theorem submitText_answered {env : Surroundings} {a : ℕ} {text : Str}
    (h : Answers P l a (loadsStrict l.depths text)) :
    Answered P l (l.submitText env a text).1 := by
  unfold submitText
  split
  · exact .rfl
  · split
    · exact .rfl
    · dsimp only
      split
      · rename_i request hv
        split
        · rename_i method hmethod
          split
          · rename_i hlocal
            have hmeth : localMethod (loadsStrict l.depths text) = some (method, request) := by
              simp only [localMethod, hv, hmethod, hlocal.1, if_true]
            split
            · rename_i hmut
              refine startMutation_answered fun q outcome hq ho => h.mutation q outcome ?_ ho
              simp only [mutationRequest, hmeth, hmut, if_true, hq]
            · rename_i hmut
              refine startRead_answered fun requestId params hreq => h.read requestId ?_
              simp only [readRequest, hmeth, hmut, if_false, hreq, Option.map_some]
          · exact submitRequest_answered h
        · split
          · exact submitRequest_answered h
          · exact .rfl
        · exact submitRequest_answered h
      · exact submitRequest_answered h

theorem feedText_answered {env : Surroundings} {a : ℕ} {text : Str}
    (h : Answers P l a (loadsStrict l.depths text)) : Answered P l (l.feedText env a text).1 := by
  unfold feedText
  split
  · exact .rfl
  · exact submitText_answered h

end Answered

/-! ## Steps -/

theorem release_released (l : Lease) (reason : String) : (l.release reason).released = true := by
  unfold release
  split
  · assumption
  · dsimp only
    split <;> rfl

/-- A lease released for the first time has no attachment left. -/
theorem release_attachment {l : Lease} (h : l.released = false) (reason : String) :
    (l.release reason).attachment = none := by
  unfold release
  rw [if_neg (by simp [h])]
  dsimp only
  split
  · assumption
  · rfl

/-- The event is no frame, no attachment and no item for a consumer. -/
def Silent : LeaseLabel → Prop
  | (.frame _ _ _, _) | (.attach _ _ _, .attached _ _) | (.next _, .received _) => False
  | _ => True

/-- The answers an event may cause: to a submission the outcome of its record,
    to its waiters the outcome a frame carries, and to a local request what the
    relay has for it. -/
def Owes (l : Lease) (label : LeaseLabel) : AnswerCause → Json → ℕ → Prop
  | .submission sid, r, b =>
    match label.1 with
    | .submit _ a text => b = a ∧ ∃ requestId record outcome,
        parseSubmission (loadsStrict l.depths text) = .ok (some (sid, requestId)) ∧
        l.submissions.get sid = some record ∧ record.outcome = some outcome ∧
        r = response requestId (outcomeMember outcome)
    | .frame _ _ text => ∃ record outcome, l.settles text = some (sid, record, outcome) ∧
        ∃ w ∈ record.waiters, b = w.2 ∧ r = response w.1 (outcomeMember outcome)
    | _ => False
  | .mutation identity, r, b =>
    match label.1 with
    | .submit _ a text => b = a ∧ ∃ q outcome,
        mutationRequest l.depths (loadsStrict l.depths text) = some q ∧ q.identity = identity ∧
        l.mutationReply q = some outcome ∧ r = response q.requestId (outcomeMember outcome)
    | .taskDone (.mutation _ _ i) reply => i = identity ∧ ∃ record,
        l.mutations.get i = some record ∧
        ∃ w ∈ record.waiters, b = w.2 ∧ r = response w.1 (outcomeMember reply.outcome)
    | _ => False
  | .read, r, b =>
    match label.1 with
    | .submit _ a text => b = a ∧ ∃ requestId,
        readRequest (loadsStrict l.depths text) = some requestId ∧
        r = response requestId (outcomeMember (relayError (lit "rate_limited")))
    | .taskDone (.read _ _ requestId a) reply =>
        b = a ∧ r = response requestId (outcomeMember reply.outcome)
    | _ => False

/-- What a step can do to the deliveries of a lease. -/
inductive Moves (l : Lease) : LeaseLabel → Lease → Prop
  | answered {label l'} : Silent label → Answered (Owes l label) l l' → Moves l label l'
  | detached {a reason} : Moves l (.detach a reason, .done) (l.detach a reason)
  | released {reason} : Moves l (.release reason, .done) (l.release reason)
  | finished {closed} : l.released = true →
      Moves l (.finishRelease closed, .done) (l.finishRelease closed)
  | retained {env now text m size} : Answered (Owes l (.frame env now text, .done)) l.stamp m →
      size = byteSize text →
      Moves l (.frame env now text, .done) (m.appendEvent ⟨l.lastSeq + 1, text, size, now⟩)
  | failed {env now text m fault} :
      Answered (Owes l (.frame env now text, .raised fault)) l.stamp m →
      Moves l (.frame env now text, .raised fault) (m.release "controller_failed")
  | took {a item att} : att.recovery = (l.heap a).recovery → att.detached = (l.heap a).detached →
      (l.heap a).pending l.leaseId = item :: att.pending l.leaseId →
      Moves l (.next a, .received item) (l.modifyAttachment a fun _ => att)
  | attached {env now request m snapshot} : l.attachRefused request = none →
      (l.trim now).1.takeSnapshot env request.recovery = (m, snapshot) →
      Moves l (.attach env now request, .attached l.opened (m.replayGap request.cursor))
        (m.publish (m.newAttachment request snapshot))
  | started : Moves l (.start, .done) l.start
  | elapsed {t} : l.Enabled (.sleepElapses t) → Moves l (.sleepElapses t, .done) (l.elapse t)
  | resumed {t} : l.Enabled (.expiryResumes t) → Moves l (.expiryResumes t, .done) (l.resumeExpiry t)

theorem takeSnapshot_upkeep (l : Lease) (env : Surroundings) (recovery : Bool) :
    (l.takeSnapshot env recovery).1.upkeep = l.upkeep := by
  unfold takeSnapshot
  split <;> rfl

theorem takeSnapshot_delivery (l : Lease) (env : Surroundings) (recovery : Bool) :
    (l.takeSnapshot env recovery).1.delivery = l.delivery :=
  congrArg Upkeep.delivery (takeSnapshot_upkeep l env recovery)

theorem publish_heap_new (l : Lease) (att : LeaseAttachment) : (l.publish att).heap l.opened = att :=
  if_pos rfl

/-- **What a step can do.** -/
theorem step_moves {l : Lease} {label : LeaseLabel} {l' : Lease} (h : Step l label l') : Moves l label l' := by
  obtain ⟨e, out⟩ := label
  obtain ⟨hen, hx⟩ := h
  cases e with
  | frame env now text =>
    rcases hr : l.retain env now text with ⟨m', fault⟩
    simp only [perform, pump, hr] at hx
    obtain ⟨m, hm, ⟨rfl, size, hsize, rfl⟩ | ⟨hf, rfl⟩⟩ := retain_spec
      (P := Owes l (.frame env now text, out)) hr
      fun sid record outcome hs w hw => ⟨record, outcome, hs, w, hw, rfl, rfl⟩
    · cases hx
      exact .retained hm hsize
    · cases fault with
      | none => exact absurd rfl hf
      | some fault =>
        cases hx
        exact .failed hm
  | attach env now request =>
    simp only [perform, attach] at hx
    split at hx
    · rename_i hatt
      split at hatt
      · cases hatt
      · rename_i href
        cases hatt
        cases hx
        have hop : ((l.trim now).1.takeSnapshot env request.recovery).1.opened = l.opened :=
          congrArg Delivery.opened (takeSnapshot_delivery (l.trim now).1 env request.recovery)
        rw [publish_heap_new, hop]
        exact .attached href rfl
    · rename_i hatt
      split at hatt
      · cases hatt
        cases hx
        exact .answered trivial .rfl
      · cases hatt
  | detach a reason =>
    cases hx
    exact .detached
  | submit env a text =>
    have hans : Answers (Owes l (.submit env a text, out)) l a (loadsStrict l.depths text) :=
      ⟨fun requestId h => ⟨rfl, requestId, h, rfl⟩,
        fun q outcome h1 h2 => ⟨rfl, q, outcome, h1, rfl, h2, rfl⟩,
        fun sid requestId record outcome h1 h2 h3 => ⟨rfl, requestId, record, outcome, h1, h2, h3, rfl⟩⟩
    have hf : Answered (Owes l (.submit env a text, out)) l (l.feedText env a text).1 :=
      feedText_answered hans
    rcases hr : l.feedText env a text with ⟨m, fault⟩
    rw [hr] at hf
    simp only [perform, hr] at hx
    cases hx
    exact .answered (by cases fault <;> trivial) hf
  | taskDone task reply =>
    cases hx
    refine .answered trivial (finishTask_answered ?_ ?_)
    · rintro method params requestId a rfl
      exact ⟨rfl, rfl⟩
    · rintro method params identity record rfl hget w hw
      exact ⟨rfl, record, hget, w, hw, rfl, rfl⟩
  | next a =>
    rcases hn : l.nextText a with ⟨m, r⟩
    simp only [perform, hn] at hx
    rcases nextText_spec hn with ⟨item, att, rfl, rfl, h1, h2, h3⟩ | ⟨rfl, hr⟩
    · cases hx
      exact .took h1 h2 h3
    · rcases r with fault | _ | item
      · cases hx
        exact .answered trivial .rfl
      · cases hx
        exact .answered trivial .rfl
      · exact absurd rfl (hr item)
  | release reason =>
    cases hx
    exact .released
  | finishRelease closed =>
    cases hx
    exact .finished hen
  | controllerReads =>
    cases hx
    exact .answered trivial (.quiet rfl)
  | controllerCloses code reason =>
    cases hx
    exact .answered trivial (.quiet rfl)
  | storeChanges store =>
    cases hx
    exact .answered trivial (.quiet rfl)
  | start =>
    cases hx
    exact .started
  | sleepElapses t =>
    cases hx
    exact .elapsed hen
  | expiryResumes t =>
    cases hx
    exact .resumed hen

theorem start_delivery (l : Lease) : l.start.delivery = l.delivery := by
  unfold start
  split <;> rfl

/-- A task that runs `expire` ends, and may release the lease. -/
theorem resumeExpiry_spec (l : Lease) (t : ℕ) :
    l.resumeExpiry t = { l with expiry := l.expiry.finish t } ∨
      l.resumeExpiry t = { l with expiry := l.expiry.finish t }.release "expired" := by
  unfold resumeExpiry
  dsimp only
  split
  · exact .inl rfl
  · split
    · exact .inl rfl
    · exact .inr rfl

/-- What no step changes. -/
structure Constants (l l' : Lease) : Prop where
  leaseId : l'.leaseId = l.leaseId
  limits : l'.limits = l.limits
  depths : l'.depths = l.depths

theorem SameLog.constants {l l' : Lease} (h : SameLog l l') : Constants l l' :=
  ⟨h.leaseId, h.limits, h.depths⟩

theorem Constants.trans {l l' l'' : Lease} (h : Constants l l') (h' : Constants l' l'') :
    Constants l l'' :=
  ⟨h'.leaseId.trans h.leaseId, h'.limits.trans h.limits, h'.depths.trans h.depths⟩

theorem release_constants (l : Lease) (reason : String) : Constants l (l.release reason) := by
  unfold release
  split
  · exact ⟨rfl, rfl, rfl⟩
  · dsimp only
    split <;> exact ⟨rfl, rfl, rfl⟩

theorem Moves.constants {l l' : Lease} {label : LeaseLabel} (hm : Moves l label l') :
    Constants l l' := by
  cases hm with
  | answered _ hl => exact SameLog.constants hl.sameLog
  | detached => exact SameLog.constants (detach_sameLog _ _ _)
  | released => exact release_constants _ _
  | finished => exact ⟨rfl, rfl, rfl⟩
  | @retained env now text m size hl =>
    have ha := appendEvent_sameLog m ⟨l.lastSeq + 1, text, size, now⟩
    have hd := hl.sameLog
    exact ⟨ha.leaseId.trans hd.leaseId, ha.limits.trans hd.limits, ha.depths.trans hd.depths⟩
  | failed hl =>
    have hs : Constants l l.stamp := ⟨rfl, rfl, rfl⟩
    exact (hs.trans (SameLog.constants hl.sameLog)).trans (release_constants _ _)
  | took => exact ⟨rfl, rfl, rfl⟩
  | @attached env now request m snapshot _ hsnap =>
    have hd := delivery_sameLog (takeSnapshot_delivery (l.trim now).1 env request.recovery)
    rw [hsnap] at hd
    exact ⟨hd.leaseId, hd.limits, hd.depths⟩
  | started => exact SameLog.constants (delivery_sameLog (start_delivery l))
  | elapsed => exact ⟨rfl, rfl, rfl⟩
  | @resumed t =>
    have hf : Constants l { l with expiry := l.expiry.finish t } := ⟨rfl, rfl, rfl⟩
    rcases resumeExpiry_spec l t with h | h
    · rw [h]
      exact hf
    · rw [h]
      exact hf.trans (release_constants _ _)

end Lease

end MercuryRelay
