/-
  What each event does to the ledger of submissions.

  * `step_records`: what a step can do.
-/
import MercuryRelay.Lease.Moves

set_option autoImplicit false

namespace MercuryRelay

open Python

/-- What of a lease its submissions depend on. -/
structure Book where
  limits : LeaseLimits
  depths : JsonDepths
  submissions : Dict Str SubmissionRecord
  websocket : VirtualWebSocket
  recoveryProjection : RecoveryProjection

namespace Lease

def book (l : Lease) : Book :=
  ⟨l.limits, l.depths, l.submissions, l.websocket, l.recoveryProjection⟩

section Book

variable {l : Lease} {a : ℕ} {cause : AnswerCause}

@[simp] theorem detach_book (reason : DetachReason) : (l.detach a reason).book = l.book := by
  unfold detach
  split <;> rfl

@[simp] theorem deliver_book (item : LiveText) : (l.deliver a item).book = l.book := by
  unfold deliver
  split
  · exact detach_book _
  · rfl

@[simp] theorem deliverLocal_book (response : Json) :
    (l.deliverLocal cause response a).1.book = l.book := by
  unfold deliverLocal
  split
  · rfl
  · split
    · rfl
    · split
      · exact deliver_book _
      · rfl

@[simp] theorem deliverOutcome_book (outcome : Outcome) (waiter : Waiter) :
    (l.deliverOutcome cause outcome waiter).1.book = l.book := deliverLocal_book _

@[simp] theorem deliverOutcomes_book (outcome : Outcome) (waiters : List Waiter) :
    (deliverOutcomes cause outcome l waiters).1.book = l.book := by
  induction waiters generalizing l with
  | nil => rfl
  | cons waiter waiters ih =>
    unfold deliverOutcomes
    have h : (l.deliverOutcome cause outcome waiter).1.book = l.book := deliverOutcome_book _ _
    split
    · rename_i hx
      rw [hx] at h; exact h
    · rename_i hx
      rw [hx] at h; exact ih.trans h

@[simp] theorem release_book (reason : String) : (l.release reason).book = l.book := by
  unfold release
  split
  · rfl
  · dsimp only
    split <;> rfl

@[simp] theorem appendEvent_book (event : RetainedEvent) :
    (l.appendEvent event).book = l.book := by
  unfold appendEvent
  dsimp only
  split
  · rfl
  · split
    · rfl
    · exact deliver_book _

@[simp] theorem startRead_book (method : Str) (request : List (Str × Json)) :
    (l.startRead a method request).1.book = l.book := by
  unfold startRead
  split
  · rfl
  · split
    · exact deliverOutcome_book _ _
    · rfl

@[simp] theorem repeatMutation_book (identity payload : Raw) (record : LocalMutationRecord)
    (requestId : Json) : (l.repeatMutation a identity payload record requestId).1.book = l.book := by
  unfold repeatMutation
  dsimp only
  split
  · exact deliverOutcome_book _ _
  · split
    · exact deliverOutcome_book _ _
    · split <;> rfl

@[simp] theorem startMutation_book (method : Str) (request : List (Str × Json)) :
    (l.startMutation a method request).1.book = l.book := by
  unfold startMutation
  split
  · rfl
  · split
    · split
      · exact repeatMutation_book _ _ _ _
      · split
        · split
          · rfl
          · exact deliverOutcome_book _ _
        · rfl
    · rfl

@[simp] theorem settleMutation_book (identity : Raw) (record : LocalMutationRecord)
    (outcome : Outcome) : (l.settleMutation identity record outcome).1.book = l.book := by
  have hd : (deliverOutcomes (.mutation identity) outcome (l.withMutations
      (l.mutations.set identity (record.settle outcome))) record.waiters).1.book = l.book :=
    deliverOutcomes_book _ _
  unfold settleMutation
  split
  · rename_i hx
    rw [hx] at hd; exact hd
  · rename_i hx
    rw [hx] at hd
    split
    · exact hd
    · exact hd

@[simp] theorem finishTask_book (task : LocalTask) (reply : DispatcherReply) :
    (l.finishTask task reply).1.book = l.book := by
  unfold finishTask
  dsimp only
  split
  · exact deliverOutcome_book _ _
  · split
    · rfl
    · split
      · rfl
      · exact settleMutation_book _ _ _

end Book

/-! ## Submitting -/

theorem await_waiters {record : SubmissionRecord} {waiter w : Waiter}
    (h : w ∈ (record.await waiter).waiters) : w ∈ record.waiters ∨ w = waiter := by
  unfold SubmissionRecord.await at h
  split at h
  · simpa using h
  · exact .inl h

/-- The table after a new record has room in it: as it was, or without its
    oldest settled record where it was full. -/
inductive Evicts (l : Lease) : Dict Str SubmissionRecord → Prop
  | room : l.submissions.length < l.limits.maxTrackedSubmissions → Evicts l l.submissions
  | evicted {sid record} : l.limits.maxTrackedSubmissions ≤ l.submissions.length →
      l.submissions.get sid = some record → record.outcome.isSome → Evicts l (l.submissions.remove sid)

/-- A table full of submissions in flight. -/
def Exhausted (l : Lease) : Prop :=
  l.limits.maxTrackedSubmissions ≤ l.submissions.length ∧
    ∀ item ∈ l.submissions, item.2.outcome = none

theorem evictFirst_some {κ α : Type} [DecidableEq κ] {settled : α → Bool} {d d' : Dict κ α}
    (hd : d.Keyed) (h : evictFirst settled d = some d') :
    ∃ key record, d.get key = some record ∧ settled record = true ∧ d' = d.remove key := by
  induction d generalizing d' with
  | nil => cases h
  | cons x d ih =>
    obtain ⟨key, record⟩ := x
    obtain ⟨hkey, hd'⟩ := hd.cons
    have hrest : Dict.remove d key = d := by
      unfold Dict.remove
      rw [List.filter_eq_self]
      intro y hy
      simpa using Dict.get_none_iff.1 hkey y hy
    unfold evictFirst at h
    split at h
    · rename_i hs
      cases h
      refine ⟨key, record, by rw [Dict.get_cons, if_pos rfl], hs, ?_⟩
      unfold Dict.remove at hrest ⊢
      rw [List.filter_cons_of_neg (by simp), hrest]
    · obtain ⟨d₁, hd₁, rfl⟩ := Option.map_eq_some_iff.1 h
      obtain ⟨k, r, h1, h2, rfl⟩ := ih hd' hd₁
      have hne : key ≠ k := fun he => by
        rw [← he] at h1
        rw [hkey] at h1
        cases h1
      refine ⟨k, r, by rw [Dict.get_cons, if_neg hne, h1], h2, ?_⟩
      unfold Dict.remove
      rw [List.filter_cons_of_pos (by simpa using hne)]

theorem evictFirst_none {κ α : Type} {settled : α → Bool} {d : Dict κ α}
    (h : evictFirst settled d = none) : ∀ item ∈ d, settled item.2 = false := by
  induction d with
  | nil => simp
  | cons x d ih =>
    obtain ⟨key, record⟩ := x
    unfold evictFirst at h
    split at h
    · cases h
    · rename_i hs
      intro item hi
      rcases List.mem_cons.1 hi with rfl | hi
      · simpa using hs
      · exact ih (Option.map_eq_none_iff.1 h) item hi

/-- The text starts a new submission on the current attachment. -/
structure Opens (l : Lease) (a : ℕ) (text sid : Str) (requestId : Json) : Prop where
  released : l.released = false
  current : l.attachment = some a
  tracked : parseSubmission (loadsStrict l.depths text) = .ok (some (sid, requestId))
  new : l.submissions.get sid = none

/-- A tracked submission is a request with the method `prompt.submit`. -/
theorem parseSubmission_some {value : Option Json} {sid : Str} {requestId : Json}
    (h : parseSubmission value = .ok (some (sid, requestId))) :
    ∃ request, value = some (.obj request) ∧
      Json.lookup request (lit "method") = some (.str (lit "prompt.submit")) := by
  unfold parseSubmission at h
  split at h
  · rename_i request
    split at h
    · cases h
    · rename_i hm
      exact ⟨request, rfl, not_not.1 hm⟩
  · cases h

section Submit

variable {l l' : Lease} {env : Surroundings} {a : ℕ} {text sid : Str} {requestId : Json}
  {fault : Option LeaseFault}

/-- A tracked submission goes past the requests the relay answers itself. -/
theorem submitText_tracked
    (h : parseSubmission (loadsStrict l.depths text) = .ok (some (sid, requestId))) :
    l.submitText env a text = if l.released then (l, some .released)
      else if l.attachment ≠ some a then (l, some (.session "attachment_detached"))
      else
        match l.submissions.get sid with
        | none => l.newSubmission env text sid requestId
        | some record => l.repeatSubmission a sid record requestId := by
  obtain ⟨request, hv, hm⟩ := parseSubmission_some h
  have hlocal : lit "prompt.submit" ∉ relayLocalMethods := by decide
  have hreq : ∀ value, value = loadsStrict l.depths text → l.submitRequest env a text value =
      match l.submissions.get sid with
      | none => l.newSubmission env text sid requestId
      | some record => l.repeatSubmission a sid record requestId := by
    intro value hvalue
    unfold submitRequest
    rw [hvalue]
    cases hget : l.submissions.get sid with
    | none => simp only [h, hget]
    | some record => simp only [h, hget]
  rw [← hreq _ hv.symm]
  unfold submitText
  rw [hv]
  simp only [hm, hlocal, false_and, if_false]

/-- A request that is no tracked submission leaves the ledger as it is. -/
theorem submitText_untracked (h : ∀ sid requestId,
    parseSubmission (loadsStrict l.depths text) ≠ .ok (some (sid, requestId))) :
    (l.submitText env a text).1.submissions = l.submissions := by
  have hreq : (l.submitRequest env a text (loadsStrict l.depths text)).1.submissions =
      l.submissions := by
    unfold submitRequest
    split
    · rfl
    · split <;> rfl
    · rename_i sid requestId hp
      exact absurd hp (h sid requestId)
  unfold submitText
  split
  · rfl
  · split
    · rfl
    · dsimp only
      split
      · split
        · split
          · split
            · exact congrArg Book.submissions (startMutation_book _ _)
            · exact congrArg Book.submissions (startRead_book _ _)
          · exact hreq
        · split
          · exact hreq
          · rfl
        · exact hreq
      · exact hreq

/-- What becomes of a new submission. -/
inductive Forwarded (l : Lease) (env : Surroundings) (text sid : Str) (requestId : Json) :
    Lease → Option LeaseFault → Prop
  /-- the controller is sent the text -/
  | forwarded {d l'} : Evicts l d → l'.submissions = d.set sid { requestId := requestId } →
      l.websocket.rejects l.depths env.profileAuthorizer text = false →
      l'.websocket.inbound = l.websocket.inbound ++ [.text text] →
      Forwarded l env text sid requestId l' none
  /-- the websocket refuses the text, and the record goes again -/
  | refused {d l' fault} : Evicts l d → l'.submissions = d →
      l.websocket.rejects l.depths env.profileAuthorizer text = false →
      Forwarded l env text sid requestId l' (some (.feed fault))
  /-- the text is rejected, and the record stays -/
  | rejected {d l' fault} : Evicts l d → l'.submissions = d.set sid { requestId := requestId } →
      l.websocket.rejects l.depths env.profileAuthorizer text = true →
      Forwarded l env text sid requestId l' (some (.feed fault))
  | exhausted : Exhausted l →
      Forwarded l env text sid requestId l (some (.session "submission_tracking_exhausted"))

theorem Evicts.get_none {d : Dict Str SubmissionRecord} (h : Evicts l d)
    (hn : l.submissions.get sid = none) : Dict.get d sid = none := by
  cases h with
  | room => exact hn
  | evicted _ _ _ =>
    rw [Dict.get_remove]
    split
    · rfl
    · exact hn

theorem forwardSubmission_spec {m : Lease} {d : Dict Str SubmissionRecord} (hm : m = l.withSubmissions d)
    (hd : Evicts l d) (hn : l.submissions.get sid = none)
    (hx : m.forwardSubmission env text sid requestId = (l', fault)) :
    Forwarded l env text sid requestId l' fault := by
  subst hm
  unfold forwardSubmission at hx
  dsimp only at hx
  split at hx
  · rename_i hfeed
    cases hx
    obtain ⟨h1, h2⟩ := VirtualWebSocket.feedText_ok hfeed
    exact .forwarded hd rfl h2 h1
  · rename_i f ws hfeed
    have hvirtual : f.isVirtual = !l.websocket.rejects l.depths env.profileAuthorizer text :=
      VirtualWebSocket.feedText_error hfeed
    split at hx
    · rename_i hv
      cases hx
      refine .refused hd (Dict.remove_set (hd.get_none hn)) ?_
      simpa [hv] using hvirtual.symm
    · rename_i hv
      cases hx
      refine .rejected hd rfl ?_
      simpa [hv] using hvirtual.symm

theorem newSubmission_spec (hk : l.submissions.Keyed) (hn : l.submissions.get sid = none)
    (hx : l.newSubmission env text sid requestId = (l', fault)) :
    Forwarded l env text sid requestId l' fault := by
  unfold newSubmission at hx
  split at hx
  · rename_i hfull
    split at hx
    · rename_i d he
      obtain ⟨key, record, h1, h2, rfl⟩ := evictFirst_some hk he
      exact forwardSubmission_spec rfl (.evicted hfull h1 h2) hn hx
    · rename_i he
      cases hx
      exact .exhausted ⟨hfull, fun item hi => by simpa using evictFirst_none he item hi⟩
  · rename_i hroom
    exact forwardSubmission_spec (m := l) rfl (.room (by omega)) hn hx

end Submit

/-! ## Steps -/

/-- The event shows no new submission, no duplicate of one in flight and no
    response to one. -/
structure Unrecorded (l : Lease) (label : LeaseLabel) : Prop where
  submitted : ∀ env a text sid requestId forwarded,
    label = (.submit env a text, .submitted forwarded) →
    parseSubmission (loadsStrict l.depths text) = .ok (some (sid, requestId)) →
    forwarded = false ∧ ∃ record, l.submissions.get sid = some record ∧ record.outcome.isSome
  frame : ∀ env now text, label = (.frame env now text, .done) → l.settles text = none

theorem unrecorded {l : Lease} {label : LeaseLabel}
    (h1 : ∀ env a text forwarded, label ≠ (.submit env a text, .submitted forwarded))
    (h2 : ∀ env now text, label ≠ (.frame env now text, .done)) : Unrecorded l label :=
  ⟨fun _ _ _ _ _ _ he => absurd he (h1 _ _ _ _), fun _ _ _ he => absurd he (h2 _ _ _)⟩

/-- What a step can do to the ledger of submissions. -/
inductive Records (l : Lease) : LeaseLabel → Lease → Prop
  | kept {label l'} : l'.submissions = l.submissions → Unrecorded l label → Records l label l'
  /-- a new submission is sent to the controller, refused or rejected -/
  | submitted {env a text sid requestId l' fault} : l.Opens a text sid requestId →
      Forwarded l env text sid requestId l' fault →
      Records l (.submit env a text, match fault with
        | none => .submitted true
        | some fault => .raised fault) l'
  /-- a duplicate of a submission in flight -/
  | waiting {env a text sid requestId record l'} :
      parseSubmission (loadsStrict l.depths text) = .ok (some (sid, requestId)) →
      l.attachment = some a → l.submissions.get sid = some record → record.outcome = none →
      l'.submissions = l.submissions.set sid (record.await (requestId, a)) →
      Records l (.submit env a text, .submitted false) l'
  /-- the response to a submission -/
  | settled {env now text sid record outcome out l'} :
      l.settles text = some (sid, record, outcome) →
      l'.submissions = l.submissions.set sid (record.settle outcome) →
      Records l (.frame env now text, out) l'
  | cleared {closed l'} : l.released = true → l'.submissions = [] →
      Records l (.finishRelease closed, .done) l'

/-- The ledger after a frame: a record is settled, or nothing changes. -/
theorem recordOutcome_submissions {l : Lease} (text : Str) :
    (l.recordOutcome text).1.submissions = match l.settles text with
      | none => l.submissions
      | some (sid, record, outcome) => l.submissions.set sid (record.settle outcome) := by
  unfold recordOutcome
  cases hs : l.settles text with
  | none => rfl
  | some settled => exact congrArg Book.submissions (deliverOutcomes_book _ _)

theorem retain_submissions {l l' : Lease} {env : Surroundings} {now : ℚ} {text : Str}
    {fault : Option LeaseFault} (hx : l.retain env now text = (l', fault)) :
    l'.submissions = l.submissions ∧ fault ≠ none ∨
      l'.submissions = (l.recordOutcome text).1.submissions := by
  have hstamp : (l.stamp.recordOutcome text).1.submissions = (l.recordOutcome text).1.submissions := by
    rw [recordOutcome_submissions, recordOutcome_submissions]
    rfl
  unfold retain at hx
  dsimp only at hx
  split at hx
  · cases hx
    exact .inl ⟨rfl, by simp⟩
  · right
    rw [← hstamp]
    split at hx
    · rename_i hrec
      cases hx
      rw [hrec]
    · rename_i m hrec
      rw [hrec]
      split at hx
      · cases hx
        rfl
      · cases hx
        exact congrArg Book.submissions (appendEvent_book _)

/-- A websocket as it was has sent nothing. -/
theorem sent_false {l l' : Lease} {text : Str} (h : l'.websocket = l.websocket) :
    l.sent l' text = false := by
  simp [sent, h]

theorem submit_records {l l' : Lease} (hk : l.submissions.Keyed) {env : Surroundings} {a : ℕ}
    {text : Str} {fault : Option LeaseFault} {out : LeaseOutput}
    (hr : l.feedText env a text = (l', fault))
    (hout : out = l.submitOutput l' text fault) : Records l (.submit env a text, out) l' := by
  have hraised : ∀ {l' : Lease} {f : LeaseFault}, l'.submissions = l.submissions →
      Records l (.submit env a text, .raised f) l' :=
    fun hs => .kept hs (unrecorded (by simp) (by simp))
  have huntracked : (∀ sid requestId,
      parseSubmission (loadsStrict l.depths text) ≠ .ok (some (sid, requestId))) →
      l'.submissions = l.submissions → Records l (.submit env a text, out) l' := fun hp hs =>
    .kept hs ⟨fun _ _ _ _ _ _ he hp' => by
      cases he
      exact absurd hp' (hp _ _), fun _ _ _ he => by simp at he⟩
  unfold feedText at hr
  split at hr
  · cases hr
    subst hout
    exact hraised rfl
  · have hsub := @submitText_untracked l env a text
    rw [hr] at hsub
    cases hp : parseSubmission (loadsStrict l.depths text) with
    | error f =>
      have hno : ∀ sid requestId,
          parseSubmission (loadsStrict l.depths text) ≠ .ok (some (sid, requestId)) := by simp [hp]
      exact huntracked hno (hsub hno)
    | ok parsed =>
      cases parsed with
      | none =>
        have hno : ∀ sid requestId,
            parseSubmission (loadsStrict l.depths text) ≠ .ok (some (sid, requestId)) := by simp [hp]
        exact huntracked hno (hsub hno)
      | some tracked =>
        obtain ⟨sid, requestId⟩ := tracked
        rw [submitText_tracked hp] at hr
        split at hr
        · cases hr
          subst hout
          exact hraised rfl
        · rename_i hrel
          split at hr
          · cases hr
            subst hout
            exact hraised rfl
          · rename_i hcur
            split at hr
            · rename_i hget
              have hf := newSubmission_spec hk hget hr
              have hopens : l.Opens a text sid requestId :=
                ⟨by simpa using hrel, by simpa using hcur, hp, hget⟩
              have hrec := Records.submitted hopens hf
              cases fault with
              | some f => subst hout; exact hrec
              | none =>
                cases hf with
                | forwarded _ _ _ hin =>
                  have hsent : l.sent l' text = true := by simpa [sent] using hin
                  rw [hout, submitOutput, hsent]
                  exact hrec
            · rename_i record hget
              unfold repeatSubmission at hr
              split at hr
              · rename_i outcome ho
                have hb : (l.deliverOutcome (.submission sid) outcome (requestId, a)).1.book = l.book :=
                  deliverOutcome_book _ _
                rw [hr] at hb
                have hsent : l.sent l' text = false := sent_false (congrArg Book.websocket hb)
                refine .kept (congrArg Book.submissions hb) ⟨?_, fun _ _ _ he => by simp at he⟩
                intro env' a' text' sid' requestId' forwarded he hp'
                obtain ⟨⟨rfl, rfl, rfl⟩, rfl⟩ :
                    (env = env' ∧ a = a' ∧ text = text') ∧ out = .submitted forwarded := by
                  simpa using he
                obtain ⟨rfl, rfl⟩ : sid = sid' ∧ requestId = requestId' := by
                  simpa using hp.symm.trans hp'
                cases fault with
                | some => cases hout
                | none =>
                  cases hout
                  exact ⟨hsent, record, hget, by simp [ho]⟩
              · rename_i ho
                cases hr
                have hsent : l.sent (l.withSubmissions (l.submissions.set sid
                    (record.await (requestId, a)))) text = false := sent_false rfl
                rw [hout, submitOutput, hsent]
                exact .waiting hp (by simpa using hcur) hget ho rfl

/-- **What a step can do to the ledger.** -/
theorem step_records {l : Lease} (hk : l.submissions.Keyed) {label : LeaseLabel} {l' : Lease}
    (h : Step l label l') : Records l label l' := by
  obtain ⟨e, out⟩ := label
  obtain ⟨hen, hx⟩ := h
  cases e with
  | frame env now text =>
    rcases hr : l.retain env now text with ⟨m, fault⟩
    simp only [perform, pump, hr] at hx
    have hsub : l'.submissions = m.submissions := by
      cases fault with
      | none => cases hx; rfl
      | some fault => cases hx; exact congrArg Book.submissions (release_book _)
    have hkept : (out = .done → l.settles text = none) → Unrecorded l (.frame env now text, out) :=
      fun hs => ⟨fun _ _ _ _ _ _ he => by simp at he, fun _ _ _ he => by
        obtain ⟨⟨rfl, rfl, rfl⟩, rfl⟩ : (env = _ ∧ now = _ ∧ text = _) ∧ out = .done := by
          simpa using he
        exact hs rfl⟩
    rcases retain_submissions hr with ⟨hm, hf⟩ | hm
    · refine .kept (hsub.trans hm) (hkept fun ho => ?_)
      cases fault with
      | none => exact absurd rfl hf
      | some => cases hx; cases ho
    · rw [recordOutcome_submissions] at hm
      cases hs : l.settles text with
      | none =>
        rw [hs] at hm
        exact .kept (hsub.trans hm) (hkept fun _ => hs)
      | some settled =>
        obtain ⟨sid, record, outcome⟩ := settled
        rw [hs] at hm
        exact .settled hs (hsub.trans hm)
  | submit env a text =>
    rcases hr : l.feedText env a text with ⟨m, fault⟩
    simp only [perform, hr] at hx
    cases hx
    exact submit_records hk hr rfl
  | attach env now request =>
    simp only [perform, attach] at hx
    split at hx
    · rename_i hatt
      split at hatt
      · cases hatt
      · cases hatt
        cases hx
        refine .kept ?_ (unrecorded (by simp) (by simp))
        unfold takeSnapshot
        split <;> rfl
    · rename_i hatt
      split at hatt
      · cases hatt
        cases hx
        exact .kept rfl (unrecorded (by simp) (by simp))
      · cases hatt
  | detach a reason =>
    cases hx
    exact .kept (congrArg Book.submissions (detach_book reason)) (unrecorded (by simp) (by simp))
  | taskDone task reply =>
    cases hx
    exact .kept (congrArg Book.submissions (finishTask_book task reply)) (unrecorded (by simp) (by simp))
  | next a =>
    rcases hn : l.nextText a with ⟨m, r⟩
    have hsub : m.submissions = l.submissions := by
      rcases nextText_spec hn with ⟨_, _, _, rfl, _⟩ | ⟨rfl, _⟩ <;> rfl
    simp only [perform, hn] at hx
    rcases r with fault | _ | item <;> cases hx <;>
      exact .kept hsub (unrecorded (by simp) (by simp))
  | release reason =>
    cases hx
    exact .kept (congrArg Book.submissions (release_book reason)) (unrecorded (by simp) (by simp))
  | finishRelease closed =>
    cases hx
    exact .cleared hen rfl
  | controllerReads =>
    cases hx
    exact .kept rfl (unrecorded (by simp) (by simp))
  | controllerCloses code reason =>
    cases hx
    exact .kept rfl (unrecorded (by simp) (by simp))
  | storeChanges store =>
    cases hx
    exact .kept rfl (unrecorded (by simp) (by simp))
  | start =>
    cases hx
    have hsub : l.start.submissions = l.submissions := by
      unfold start
      split <;> rfl
    exact .kept hsub (unrecorded (by simp) (by simp))
  | sleepElapses t =>
    cases hx
    exact .kept rfl (unrecorded (by simp) (by simp))
  | expiryResumes t =>
    cases hx
    have hsub : (l.resumeExpiry t).submissions = l.submissions := by
      rcases resumeExpiry_spec l t with he | he
      · rw [he]
      · rw [he]
        exact congrArg Book.submissions (release_book (l := { l with expiry := l.expiry.finish t }) _)
    exact .kept hsub (unrecorded (by simp) (by simp))

theorem Evicts.keyed {l : Lease} {d : Dict Str SubmissionRecord} (h : Evicts l d)
    (hk : l.submissions.Keyed) : Dict.Keyed d := by
  cases h with
  | room => exact hk
  | evicted => exact hk.remove _

/-- The keys of the ledger differ, and go on to. -/
theorem Records.keyed {l l' : Lease} {label : LeaseLabel} (h : Records l label l')
    (hk : l.submissions.Keyed) : l'.submissions.Keyed := by
  cases h with
  | kept hs => rw [hs]; exact hk
  | submitted _ hf =>
    cases hf with
    | forwarded hd hs => rw [hs]; exact (hd.keyed hk).set _ _
    | refused hd hs => rw [hs]; exact hd.keyed hk
    | rejected hd hs => rw [hs]; exact (hd.keyed hk).set _ _
    | exhausted => exact hk
  | waiting _ _ _ _ hs => rw [hs]; exact hk.set _ _
  | settled _ hs => rw [hs]; exact hk.set _ _
  | cleared _ hs => rw [hs]; exact Dict.keyed_nil

theorem keyed_run {l l' : Lease} {trace : List LeaseLabel} (hrun : Run l trace l')
    (hk : l.submissions.Keyed) : l'.submissions.Keyed :=
  hrun.invariant (I := fun m => m.submissions.Keyed)
    (fun _ _ _ h hs => (step_records h hs).keyed h) hk

/-- The record a frame settles is in flight. -/
theorem settles_some {l : Lease} (hk : l.submissions.Keyed) {text sid : Str}
    {record : SubmissionRecord} {outcome : Outcome}
    (h : l.settles text = some (sid, record, outcome)) :
    l.submissions.get sid = some record ∧ record.outcome = none := by
  unfold settles settlesValue at h
  split at h
  · cases h
  · split at h
    · split at h
      · cases h
      · split at h
        · rename_i hpend _
          cases h
          have hmem := List.mem_of_find?_eq_some hpend
          have hprop := List.find?_some hpend
          simp only [Bool.and_eq_true, Option.isNone_iff_eq_none] at hprop
          exact ⟨hk.get_of_mem hmem, hprop.1⟩
        · cases h
    · cases h

end Lease

end MercuryRelay
