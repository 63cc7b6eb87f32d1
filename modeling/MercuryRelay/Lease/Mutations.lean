/-
  What each event does to the tasks of the dispatcher, and to the ledger of the
  mutations among them (session_lease.py, `_start_read`, `_start_mutation`).

  * `step_tasks`: what a step can do.
-/
import MercuryRelay.Lease.Ledger

set_option autoImplicit false

namespace MercuryRelay

open Python

/-- What of a lease its local requests depend on. -/
structure Desk where
  mutations : Dict Raw LocalMutationRecord
  readTasks : List LocalTask
  hasReadDispatcher : Bool

/-- The response encodes, so that it can be delivered. -/
def Answerable (depths : JsonDepths) (response : Json) : Prop :=
  ∃ text, dumps depths compactUnicode response = some text ∧ (utf8 text).isSome

theorem answerable_iff {depths : JsonDepths} {r : Json} :
    Answerable depths r ↔ r.depth ≤ depths.write ∧ r.encodable = true := by
  unfold Answerable dumps
  rw [← utf8_write]
  split
  · rename_i hd
    simp [hd]
  · rename_i hd
    simp [hd]

theorem Lease.response_depth (requestId : Json) (member : Str × Json) :
    (Lease.response requestId member).depth = max requestId.depth member.2.depth + 1 := by
  simp [Lease.response, Json.depth, Json.depthMembers]

theorem Lease.response_encodable (requestId : Json) (member : Str × Json) :
    (Lease.response requestId member).encodable = true ↔
      requestId.encodable = true ∧ (utf8 member.1).isSome ∧ member.2.encodable = true := by
  have hlit : (utf8 (lit "jsonrpc")).isSome ∧ (utf8 (lit "id")).isSome ∧ (utf8 (lit "2.0")).isSome := by
    decide
  simp [Lease.response, Json.encodable, Json.encodableMembers, hlit]

theorem validLocalRequestId_spec {requestId : Json} (h : validLocalRequestId requestId = true) :
    requestId.depth = 0 ∧ requestId.encodable = true := by
  cases requestId with
  | str s =>
    refine ⟨by simp only [Json.depth], ?_⟩
    simp only [validLocalRequestId] at h
    simp only [Json.encodable]
    cases hs : utf8 s with
    | some => rfl
    | none => simp [hs] at h
  | int n => simp only [Json.depth, Json.encodable, and_self]
  | _ => simp [validLocalRequestId] at h

/-- A request that is made again waits at its attachment, in the place of those
    before it. -/
def LocalMutationRecord.ask (record : LocalMutationRecord) (requestId : Json) (a : ℕ) :
    LocalMutationRecord :=
  if isWaiting record.waiters requestId a then record
  else { record with waiters := [(requestId, a)] }

/-- The record after a request was made again. -/
def LocalMutationRecord.askedAgain (record : LocalMutationRecord) (q : MutationRequest) (a : ℕ) :
    LocalMutationRecord :=
  if record.payloadFingerprint = q.payload ∧ record.outcome = none then record.ask q.requestId a
  else record

/-- The record of a mutation that begins. -/
def MutationRequest.record (q : MutationRequest) (a : ℕ) : LocalMutationRecord :=
  { payloadFingerprint := q.payload, waiters := [(q.requestId, a)] }

def MutationRequest.task (q : MutationRequest) : LocalTask := .mutation q.method q.params q.identity

namespace Lease

def desk (l : Lease) : Desk := ⟨l.mutations, l.readTasks, l.hasReadDispatcher⟩

section Desk

variable {l : Lease} {a : ℕ} {cause : AnswerCause}

@[simp] theorem detach_desk (reason : DetachReason) : (l.detach a reason).desk = l.desk := by
  unfold detach
  split <;> rfl

@[simp] theorem deliver_desk (item : LiveText) : (l.deliver a item).desk = l.desk := by
  unfold deliver
  split
  · exact detach_desk _
  · rfl

@[simp] theorem deliverLocal_desk (response : Json) :
    (l.deliverLocal cause response a).1.desk = l.desk := by
  unfold deliverLocal
  split
  · rfl
  · split
    · rfl
    · split
      · exact deliver_desk _
      · rfl

@[simp] theorem deliverOutcome_desk (outcome : Outcome) (waiter : Waiter) :
    (l.deliverOutcome cause outcome waiter).1.desk = l.desk := deliverLocal_desk _

@[simp] theorem deliverOutcomes_desk (outcome : Outcome) (waiters : List Waiter) :
    (deliverOutcomes cause outcome l waiters).1.desk = l.desk := by
  induction waiters generalizing l with
  | nil => rfl
  | cons waiter waiters ih =>
    unfold deliverOutcomes
    have h : (l.deliverOutcome cause outcome waiter).1.desk = l.desk := deliverOutcome_desk _ _
    split
    · rename_i hx
      rw [hx] at h; exact h
    · rename_i hx
      rw [hx] at h; exact ih.trans h

@[simp] theorem release_desk (reason : String) : (l.release reason).desk = l.desk := by
  unfold release
  split
  · rfl
  · dsimp only
    split <;> rfl

@[simp] theorem appendEvent_desk (event : RetainedEvent) :
    (l.appendEvent event).desk = l.desk := by
  unfold appendEvent
  dsimp only
  split
  · rfl
  · split
    · rfl
    · exact deliver_desk _

@[simp] theorem recordOutcome_desk (text : Str) : (l.recordOutcome text).1.desk = l.desk := by
  unfold recordOutcome
  split
  · rfl
  · exact deliverOutcomes_desk _ _

theorem retain_desk {env : Surroundings} {now : ℚ} {text : Str} {l' : Lease}
    {fault : Option LeaseFault} (hx : l.retain env now text = (l', fault)) : l'.desk = l.desk := by
  unfold retain at hx
  dsimp only at hx
  split at hx
  · cases hx
    rfl
  · have hr : (l.stamp.recordOutcome text).1.desk = l.desk := recordOutcome_desk (l := l.stamp) text
    split at hx
    · rename_i hrec
      cases hx
      rw [hrec] at hr
      exact hr
    · rename_i m hrec
      rw [hrec] at hr
      split at hx
      · cases hx
        exact hr
      · cases hx
        exact (appendEvent_desk _).trans hr

theorem submitRequest_desk (env : Surroundings) (text : Str) (value : Option Json) :
    (l.submitRequest env a text value).1.desk = l.desk := by
  have hforward : ∀ (m : Lease) (sid : Str) (requestId : Json),
      (m.forwardSubmission env text sid requestId).1.desk = m.desk := by
    intro m sid requestId
    unfold forwardSubmission
    dsimp only
    split
    · rfl
    · split <;> rfl
  unfold submitRequest
  split
  · rfl
  · split <;> rfl
  · split
    · unfold newSubmission
      split
      · split
        · exact hforward _ _ _
        · rfl
      · exact hforward _ _ _
    · unfold repeatSubmission
      split
      · exact deliverOutcome_desk _ _
      · rfl

theorem attach_desk (env : Surroundings) (now : ℚ) (request : AttachRequest) :
    (l.attach env now request).1.desk = l.desk := by
  unfold attach
  split
  · rfl
  · dsimp only
    unfold takeSnapshot
    split <;> rfl

end Desk

/-- What cannot be delivered does not encode. -/
theorem deliverLocal_unanswerable {l l' : Lease} {cause : AnswerCause} {r : Json} {a : ℕ}
    {fault : LeaseFault} (h : l.deliverLocal cause r a = (l', some fault)) : ¬ Answerable l.depths r := by
  rintro ⟨text, hd, hu⟩
  unfold deliverLocal at h
  split at h
  · cases h
  · rw [hd] at h
    dsimp only at h
    rw [if_pos hu] at h
    cases h

theorem deliverOutcomes_unanswerable {l l' : Lease} {cause : AnswerCause} {outcome : Outcome}
    {waiters : List Waiter} {fault : LeaseFault}
    (h : deliverOutcomes cause outcome l waiters = (l', some fault)) :
    ∃ w ∈ waiters, ¬ Answerable l.depths (response w.1 (outcomeMember outcome)) := by
  induction waiters generalizing l with
  | nil => cases h
  | cons waiter waiters ih =>
    unfold deliverOutcomes at h
    split at h
    · rename_i hx
      exact ⟨waiter, List.mem_cons_self, deliverLocal_unanswerable hx⟩
    · rename_i m hx
      have hbook : m.book = l.book := by
        have hb : (l.deliverOutcome cause outcome waiter).1.book = l.book :=
          deliverOutcome_book outcome waiter
        rwa [hx] at hb
      have hdepths : m.depths = l.depths := congrArg Book.depths hbook
      obtain ⟨w, hw, hn⟩ := ih h
      exact ⟨w, List.mem_cons_of_mem _ hw, by rwa [hdepths] at hn⟩

/-! ## Steps -/

/-- The table of mutations after a new record has room in it. -/
inductive MakesRoom (l : Lease) : Dict Raw LocalMutationRecord → Prop
  | room : l.mutations.length < min l.limits.maxTrackedSubmissions maxLocalMutations →
      MakesRoom l l.mutations
  | evicted {identity record} :
      min l.limits.maxTrackedSubmissions maxLocalMutations ≤ l.mutations.length →
      l.mutations.get identity = some record → record.outcome.isSome →
      MakesRoom l (l.mutations.remove identity)

/-- The text asks for a mutation on the current attachment. -/
structure AsksMutation (l : Lease) (a : ℕ) (text : Str) (q : MutationRequest) : Prop where
  released : l.released = false
  current : l.attachment = some a
  attached : (l.heap a).detached = false
  dispatcher : l.hasReadDispatcher = true
  request : mutationRequest l.depths (loadsStrict l.depths text) = some q

/-- What a step can do to the tasks of the dispatcher. -/
inductive Tasks (l : Lease) : LeaseLabel → Lease → Prop
  | kept {label l'} : l'.desk = l.desk →
      (∀ env a text q, label.1 = .submit env a text → l.AsksMutation a text q →
        l.mutations.get q.identity = none ∧ l.mutationReply q ≠ none) →
      (∀ task reply, label.1 ≠ .taskDone task reply) → Tasks l label l'
  | reading {env a text requestId method params out l'} : l.attachment = some a →
      readRequest (loadsStrict l.depths text) = some requestId →
      l'.desk = ⟨l.mutations, l.readTasks ++ [.read method params requestId a],
        l.hasReadDispatcher⟩ →
      Tasks l (.submit env a text, out) l'
  | repeated {env a text q record out l'} : l.AsksMutation a text q →
      l.mutations.get q.identity = some record →
      l'.desk = ⟨(l.mutations.moveToEnd q.identity).set q.identity (record.askedAgain q a),
        l.readTasks, l.hasReadDispatcher⟩ →
      (record.payloadFingerprint = q.payload → record.outcome = none →
        ∃ forwarded, out = .submitted forwarded) → Tasks l (.submit env a text, out) l'
  | begun {env a text q d forwarded l'} : l.AsksMutation a text q →
      l.mutations.get q.identity = none → MakesRoom l d →
      l'.desk = ⟨d.set q.identity (q.record a), l.readTasks ++ [q.task], l.hasReadDispatcher⟩ →
      Tasks l (.submit env a text, .submitted forwarded) l'
  | ended {task reply l'} :
      (∀ method params identity record, task = .mutation method params identity →
        l.mutations.get identity = some record → l.released = true) →
      l'.desk = ⟨l.mutations, l.readTasks.erase task, l.hasReadDispatcher⟩ →
      Tasks l (.taskDone task reply, .done) l'
  | settled {method params identity reply record l'} : l.released = false →
      l.mutations.get identity = some record →
      l'.desk = ⟨l.mutations.set identity (record.settle reply.outcome),
        l.readTasks.erase (.mutation method params identity), l.hasReadDispatcher⟩ →
      ((∃ v, reply.outcome = .result v) ∨ ∃ w ∈ record.waiters,
        ¬ Answerable l.depths (response w.1 (outcomeMember reply.outcome))) →
      Tasks l (.taskDone (.mutation method params identity) reply, .done) l'
  | failed {method params identity reply record error l'} : l.released = false →
      l.mutations.get identity = some record → reply.outcome = .error error →
      l'.desk = ⟨l.mutations.remove identity,
        l.readTasks.erase (.mutation method params identity), l.hasReadDispatcher⟩ →
      Tasks l (.taskDone (.mutation method params identity) reply, .done) l'
  | cleared {closed l'} : l.released = true → l'.desk = ⟨[], [], l.hasReadDispatcher⟩ →
      Tasks l (.finishRelease closed, .done) l'

/-- What a text has that asks for a mutation. -/
theorem mutationRequest_some {depths : JsonDepths} {value : Option Json} {q : MutationRequest}
    (h : mutationRequest depths value = some q) : ∃ request, value = some (.obj request) ∧
      Json.lookup request (lit "method") = some (.str q.method) ∧ q.method ∈ relayLocalMethods ∧
      q.method ∈ relayMutationMethods ∧ localRequest request = some (q.requestId, q.params) ∧
      payloadFingerprint depths q.method q.params = some q.payload ∧
      requestIdentity depths q.method q.requestId = some q.identity := by
  unfold mutationRequest at h
  split at h
  · rename_i method request hlocal
    split at h
    · rename_i hmut
      unfold mutationOf at h
      split at h
      · cases h
      · rename_i requestId params hreq
        split at h
        · rename_i payload identity hp hi
          cases h
          unfold localMethod at hlocal
          split at hlocal
          · split at hlocal
            · rename_i hm
              split at hlocal
              · rename_i hmem
                cases hlocal
                exact ⟨_, rfl, hm, hmem, hmut, hreq, hp, hi⟩
              · cases hlocal
            · cases hlocal
          · cases hlocal
        · cases h
    · cases h
  · cases h

section Submit

variable {l l' : Lease} {a : ℕ} {text : Str} {q : MutationRequest}

/-- What becomes of a request for a mutation. -/
theorem feedText_mutation (h : l.AsksMutation a text q) (env : Surroundings) :
    l.feedText env a text = match l.mutations.get q.identity with
      | some record => l.repeatMutation a q.identity q.payload record q.requestId
      | none =>
        if min l.limits.maxTrackedSubmissions maxLocalMutations ≤ l.mutations.length then
          match evictFirst (fun r => r.outcome.isSome) l.mutations with
          | some mutations =>
            ((l.withMutations mutations).beginMutation a q.identity q.payload q.method q.params
              q.requestId, none)
          | none => l.deliverError (.mutation q.identity) "rate_limited" q.requestId a
        else (l.beginMutation a q.identity q.payload q.method q.params q.requestId, none) := by
  obtain ⟨request, hv, hm, hlocal, hmut, hreq, hp, hi⟩ := mutationRequest_some h.request
  unfold feedText
  rw [if_neg (by simp [h.attached])]
  unfold submitText
  rw [if_neg (by simp [h.released]), if_neg (by simp [h.current]), hv]
  simp only [hm, hlocal, h.dispatcher, hmut, and_self, if_true]
  have hstart := startMutation.eq_1 l a q.method request
  simp only [hreq, hp, hi] at hstart
  exact hstart

theorem repeatMutation_desk {record : LocalMutationRecord}
    (hget : l.mutations.get q.identity = some record) :
    (l.repeatMutation a q.identity q.payload record q.requestId).1.desk =
      ⟨(l.mutations.moveToEnd q.identity).set q.identity (record.askedAgain q a), l.readTasks,
        l.hasReadDispatcher⟩ := by
  have hsame : Dict.set (l.mutations.moveToEnd q.identity) q.identity record =
      l.mutations.moveToEnd q.identity := Dict.set_self (Dict.get_moveToEnd.trans hget)
  unfold repeatMutation LocalMutationRecord.askedAgain
  dsimp only
  split
  · rename_i hne
    rw [if_neg fun h => hne h.1, hsame]
    exact deliverOutcome_desk _ _
  · rename_i he
    split
    · rename_i ho
      rw [if_neg fun h => by simp [ho] at h, hsame]
      exact deliverOutcome_desk _ _
    · rename_i ho
      have hmatch : record.payloadFingerprint = q.payload ∧ record.outcome = none :=
        ⟨not_not.1 he, ho⟩
      rw [if_pos hmatch]
      unfold LocalMutationRecord.ask
      by_cases hw : isWaiting record.waiters q.requestId a = true
      · rw [if_pos hw, if_pos hw, hsame]
        rfl
      · rw [if_neg hw, if_neg hw]
        rfl

theorem repeatMutation_pending {record : LocalMutationRecord} {requestId : Json} {identity payload : Raw}
    (hp : record.payloadFingerprint = payload) (ho : record.outcome = none) :
    (l.repeatMutation a identity payload record requestId).2 = none := by
  unfold repeatMutation
  dsimp only
  rw [if_neg fun h => h hp, ho]
  dsimp only
  split <;> rfl

theorem submit_mutation_tasks (hk : l.mutations.Keyed) (h : l.AsksMutation a text q)
    {env : Surroundings} {out : LeaseOutput}
    (hout : (l.feedText env a text).2 = none → ∃ forwarded, out = .submitted forwarded) :
    Tasks l (.submit env a text, out) (l.feedText env a text).1 := by
  have hbegin : ∀ {d : Dict Raw LocalMutationRecord}, l.mutations.get q.identity = none →
      MakesRoom l d → (∃ forwarded, out = .submitted forwarded) → Tasks l (.submit env a text, out)
        ((l.withMutations d).beginMutation a q.identity q.payload q.method q.params q.requestId) := by
    rintro d hget hd ⟨forwarded, rfl⟩
    exact .begun h hget hd rfl
  rw [feedText_mutation h] at hout ⊢
  cases hget : l.mutations.get q.identity with
  | some record =>
    rw [hget] at hout
    exact .repeated h hget (repeatMutation_desk hget) fun hp ho =>
      hout (repeatMutation_pending hp ho)
  | none =>
    rw [hget] at hout
    dsimp only at hout ⊢
    split
    · rename_i hfull
      rw [if_pos hfull] at hout
      split
      · rename_i d he
        rw [he] at hout
        obtain ⟨key, record, h1, h2, rfl⟩ := evictFirst_some hk he
        exact hbegin hget (.evicted hfull h1 h2) (hout rfl)
      · rename_i he
        refine .kept (deliverOutcome_desk _ _) ?_ (by simp)
        rintro _ _ _ q' hlabel hq'
        cases hlabel
        obtain rfl : q = q' := Option.some.inj (h.request.symm.trans hq'.request)
        refine ⟨hget, ?_⟩
        simp only [mutationReply, hget, hfull, he, and_self, if_true]
        simp
    · rename_i hroom
      rw [if_neg hroom] at hout
      exact hbegin (d := l.mutations) hget (.room (by omega)) (hout rfl)

/-- A text that asks for no mutation may start a task to read. -/
theorem submit_read_tasks (h : ∀ q, ¬ l.AsksMutation a text q) {env : Surroundings}
    {out : LeaseOutput} : Tasks l (.submit env a text, out) (l.feedText env a text).1 := by
  have hkept : ∀ {l' : Lease}, l'.desk = l.desk → Tasks l (.submit env a text, out) l' :=
    fun hd => .kept hd (by
      rintro _ _ _ q hlabel hq
      cases hlabel
      exact absurd hq (h q)) (by simp)
  unfold feedText
  split
  · exact hkept rfl
  · rename_i hatt
    unfold submitText
    split
    · exact hkept rfl
    · rename_i hrel
      split
      · exact hkept rfl
      · rename_i hcur
        have hcur' : l.attachment = some a := not_not.1 hcur
        dsimp only
        split
        · rename_i request hv
          split
          · rename_i method hm
            split
            · rename_i hlocal
              have hmeth : localMethod (loadsStrict l.depths text) = some (method, request) := by
                simp only [localMethod, hv, hm, hlocal.1, if_true]
              split
              · rename_i hmut
                have hno : mutationOf l.depths method request = none := by
                  cases hq : mutationOf l.depths method request with
                  | none => rfl
                  | some q =>
                    refine absurd ⟨by simpa using hrel, hcur', by simpa using hatt, hlocal.2, ?_⟩ (h q)
                    simp only [mutationRequest, hmeth, hmut, if_true, hq]
                unfold startMutation
                unfold mutationOf at hno
                split
                · exact hkept rfl
                · rename_i hreq
                  simp only [hreq] at hno
                  split
                  · rename_i hp hi
                    simp [hp, hi] at hno
                  · exact hkept rfl
              · rename_i hmut
                unfold startRead
                split
                · exact hkept rfl
                · rename_i requestId params hreq
                  split
                  · exact hkept (deliverOutcome_desk _ _)
                  · refine .reading hcur' ?_ rfl
                    simp only [readRequest, hmeth, hmut, if_false, hreq, Option.map_some]
            · exact hkept (submitRequest_desk _ _ _)
          · split
            · exact hkept (submitRequest_desk _ _ _)
            · exact hkept rfl
          · exact hkept (submitRequest_desk _ _ _)
        · exact hkept (submitRequest_desk _ _ _)

/-- A mutation that has its outcome is recorded or, if it failed, forgotten; what
    cannot be delivered leaves its record. -/
theorem settleMutation_desk {identity : Raw} {record : LocalMutationRecord} {outcome : Outcome} :
    ((l.settleMutation identity record outcome).1.desk =
        ⟨l.mutations.set identity (record.settle outcome), l.readTasks, l.hasReadDispatcher⟩ ∧
      ((∃ v, outcome = .result v) ∨
        ∃ w ∈ record.waiters, ¬ Answerable l.depths (response w.1 (outcomeMember outcome)))) ∨
    ∃ error, outcome = .error error ∧ (l.settleMutation identity record outcome).1.desk =
      ⟨l.mutations.remove identity, l.readTasks, l.hasReadDispatcher⟩ := by
  have hd : (deliverOutcomes (.mutation identity) outcome
      (l.withMutations (l.mutations.set identity (record.settle outcome))) record.waiters).1.desk =
        (l.withMutations (l.mutations.set identity (record.settle outcome))).desk :=
    deliverOutcomes_desk outcome record.waiters
  unfold settleMutation
  split
  · rename_i m fault hx
    rw [hx] at hd
    have hn := deliverOutcomes_unanswerable hx
    exact .inl ⟨hd, .inr hn⟩
  · rename_i m hx
    rw [hx] at hd
    have hmut : m.mutations = l.mutations.set identity (record.settle outcome) :=
      congrArg Desk.mutations hd
    have htasks : m.readTasks = l.readTasks := congrArg Desk.readTasks hd
    have hdisp : m.hasReadDispatcher = l.hasReadDispatcher := congrArg Desk.hasReadDispatcher hd
    split
    · rename_i v
      exact .inl ⟨hd, .inl ⟨v, rfl⟩⟩
    · rename_i v
      refine .inr ⟨v, rfl, ?_⟩
      unfold desk withMutations
      dsimp only
      rw [hmut, htasks, hdisp, Dict.remove_set_self]

/-- What becomes of a task that ends. -/
theorem finishTask_tasks (task : LocalTask) (reply : DispatcherReply) :
    Tasks l (.taskDone task reply, .done) (l.finishTask task reply).1 := by
  unfold finishTask
  dsimp only
  split
  · exact .ended (fun _ _ _ _ he => by cases he) (deliverOutcome_desk _ _)
  · rename_i method params identity
    split
    · rename_i hrel
      exact .ended (fun _ _ _ _ _ _ => hrel) rfl
    · rename_i hrel
      have hrel' : l.released = false := by
        cases hr : l.released with
        | false => rfl
        | true => exact absurd hr hrel
      split
      · rename_i hget
        refine .ended (fun _ _ _ _ he hget' => ?_) rfl
        cases he
        cases hget.symm.trans hget'
      · rename_i record hget
        rcases @settleMutation_desk (l.withTasks (l.readTasks.erase
          (.mutation method params identity))) identity record reply.outcome with ⟨hd, hcase⟩ | ⟨error, ho, hd⟩
        · exact .settled hrel' hget hd hcase
        · exact .failed hrel' hget ho hd

end Submit

/-- **What a step can do to the tasks of the dispatcher.** -/
theorem step_tasks {l l' : Lease} (hk : l.mutations.Keyed) {label : LeaseLabel}
    (h : Step l label l') : Tasks l label l' := by
  obtain ⟨e, out⟩ := label
  obtain ⟨hen, hx⟩ := h
  have hkept : ∀ {e out} {l' : Lease}, (∀ env a text, e ≠ .submit env a text) →
      (∀ task reply, e ≠ .taskDone task reply) → l'.desk = l.desk → Tasks l (e, out) l' :=
    fun h1 h2 hd => .kept hd (fun env a text _ he => absurd he (h1 env a text)) h2
  cases e with
  | frame env now text =>
    rcases hr : l.retain env now text with ⟨m, fault⟩
    have hd := retain_desk hr
    simp only [perform, pump, hr] at hx
    cases fault with
    | none =>
      cases hx
      exact hkept (by simp) (by simp) hd
    | some fault =>
      cases hx
      exact hkept (by simp) (by simp) ((release_desk _).trans hd)
  | attach env now request =>
    have hd := attach_desk (l := l) env now request
    simp only [perform] at hx
    split at hx
    · rename_i hatt
      cases hx
      rw [hatt] at hd
      exact hkept (by simp) (by simp) hd
    · rename_i hatt
      cases hx
      rw [hatt] at hd
      exact hkept (by simp) (by simp) hd
  | detach a reason =>
    cases hx
    exact hkept (by simp) (by simp) (detach_desk _)
  | submit env a text =>
    rcases hr : l.feedText env a text with ⟨m, fault⟩
    simp only [perform, hr] at hx
    cases hx
    rw [show l' = (l.feedText env a text).1 by rw [hr]]
    by_cases hq : ∃ q, l.AsksMutation a text q
    · obtain ⟨q, hq⟩ := hq
      refine submit_mutation_tasks hk hq fun hnone => ?_
      obtain rfl : fault = none := by rw [← hnone, hr]
      exact ⟨_, rfl⟩
    · exact submit_read_tasks fun q hq' => hq ⟨q, hq'⟩
  | taskDone task reply =>
    cases hx
    exact finishTask_tasks task reply
  | next a =>
    rcases hn : l.nextText a with ⟨m, r⟩
    have hd : m.desk = l.desk := by
      rcases nextText_spec hn with ⟨_, _, _, rfl, _⟩ | ⟨rfl, _⟩ <;> rfl
    simp only [perform, hn] at hx
    rcases r with fault | _ | item <;> cases hx <;> exact hkept (by simp) (by simp) hd
  | release reason =>
    cases hx
    exact hkept (by simp) (by simp) (release_desk _)
  | finishRelease closed =>
    cases hx
    exact .cleared hen rfl
  | controllerReads =>
    cases hx
    exact hkept (by simp) (by simp) rfl
  | controllerCloses code reason =>
    cases hx
    exact hkept (by simp) (by simp) rfl
  | storeChanges store =>
    cases hx
    exact hkept (by simp) (by simp) rfl
  | start =>
    cases hx
    refine hkept (by simp) (by simp) ?_
    unfold start
    split <;> rfl
  | sleepElapses t =>
    cases hx
    exact hkept (by simp) (by simp) rfl
  | expiryResumes t =>
    cases hx
    refine hkept (by simp) (by simp) ?_
    rcases resumeExpiry_spec l t with he | he
    · rw [he]
      rfl
    · rw [he]
      exact release_desk (l := { l with expiry := l.expiry.finish t }) _

theorem MakesRoom.keyed {l : Lease} {d : Dict Raw LocalMutationRecord} (h : MakesRoom l d)
    (hk : l.mutations.Keyed) : Dict.Keyed d := by
  cases h with
  | room => exact hk
  | evicted => exact hk.remove _

/-- The keys of the ledger differ, and go on to. -/
theorem Tasks.keyed {l l' : Lease} {label : LeaseLabel} (h : Tasks l label l')
    (hk : l.mutations.Keyed) : l'.mutations.Keyed := by
  have hmut : ∀ {d : Desk}, l'.desk = d → l'.mutations = d.mutations :=
    fun hd => congrArg Desk.mutations hd
  cases h with
  | kept hd => rw [hmut hd]; exact hk
  | reading _ _ hd => rw [hmut hd]; exact hk
  | repeated _ _ hd => rw [hmut hd]; exact (hk.moveToEnd _).set _ _
  | begun _ _ hr hd => rw [hmut hd]; exact (hr.keyed hk).set _ _
  | ended _ hd => rw [hmut hd]; exact hk
  | settled _ _ hd => rw [hmut hd]; exact hk.set _ _
  | failed _ _ _ hd => rw [hmut hd]; exact hk.remove _
  | cleared _ hd => rw [hmut hd]; exact Dict.keyed_nil

theorem mutations_keyed_run {l l' : Lease} {trace : List LeaseLabel} (hrun : Run l trace l')
    (hk : l.mutations.Keyed) : l'.mutations.Keyed :=
  hrun.invariant (I := fun m => m.mutations.Keyed)
    (fun _ _ _ h hs => (step_tasks h hs).keyed h) hk

end Lease

end MercuryRelay
