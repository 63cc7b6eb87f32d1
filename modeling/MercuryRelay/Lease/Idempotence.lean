/-
  Mutations that are asked for again (session_lease.py, `_start_mutation`).

  A record carries a mutation from the call of the dispatcher to its outcome, and
  keeps the outcome for those that ask again.  A mutation is known by the digest
  of its method and request identifier, and what it does by the digest of its
  method and parameters.

  * `mutations_run_once`: a mutation runs at most once while it has a record, and
    requests for it get the outcome of that run.
-/
import MercuryRelay.Lease.Answers

set_option autoImplicit false

namespace MercuryRelay

open Python Lease Transition

/-- The event is a request for a mutation that was taken. -/
def Requests (depths : JsonDepths) (a : ℕ) (q : MutationRequest) (label : LeaseLabel) : Prop :=
  ∃ env text forwarded, label = (.submit env a text, .submitted forwarded) ∧
    mutationRequest depths (loadsStrict depths text) = some q

/-- Another request for the same mutation, to do the same. -/
def MutationRequest.Matches (q : MutationRequest) (identity payload : Raw) : Prop :=
  q.identity = identity ∧ q.payload = payload

/-- The dispatcher is called for a request. -/
def Invokes (q : MutationRequest) (l l' : Lease) : Prop :=
  l'.readTasks = l.readTasks ++ [q.task]

/-- The last request of an attachment for a mutation. -/
def LastRequest (depths : JsonDepths) (trace : List LeaseLabel) (a : ℕ) (identity payload : Raw)
    (q : MutationRequest) : Prop :=
  ∃ before label after, trace = before ++ label :: after ∧ Requests depths a q label ∧
    q.Matches identity payload ∧
    ∀ label' ∈ after, ∀ q', Requests depths a q' label' → ¬ q'.Matches identity payload

/-- The record of a mutation is dropped from a full table, with its outcome. -/
def DropsMutation (l : Lease) (identity : Raw) (l' : Lease) : Prop :=
  min l.limits.maxTrackedSubmissions maxLocalMutations ≤ l.mutations.length ∧
    (∃ record, l.mutations.get identity = some record ∧ record.outcome.isSome) ∧
    l'.mutations.get identity = none

/-- The event is the end of a mutation, with an error. -/
def Fails (identity : Raw) (label : LeaseLabel) : Prop :=
  ∃ method params reply error,
    label = (.taskDone (.mutation method params identity) reply, .done) ∧ reply.outcome = .error error

/-- A step after which a mutation has a record. -/
def KeepsRecord (identity : Raw) (l : Lease) (label : LeaseLabel) (l' : Lease) : Prop :=
  Step l label l' ∧ (l'.mutations.get identity).isSome

/-- The run a record stands for: the dispatcher was called for it, it was there
    ever since, and an outcome it has is how that call ended. -/
def StandsFor (l₀ : Lease) (trace : List LeaseLabel) (identity : Raw) (record : LocalMutationRecord)
    (l : Lease) : Prop :=
  ∃ before label after m m' a q, trace = before ++ label :: after ∧ Run l₀ before m ∧
    Step m label m' ∧ Transition.Run (KeepsRecord identity) m' after l ∧
    Requests l₀.depths a q label ∧ Invokes q m m' ∧ q.Matches identity record.payloadFingerprint ∧
    (record.outcome = none → q.task ∈ l.readTasks) ∧
    ∀ outcome, record.outcome = some outcome →
      ∃ reply, (.taskDone q.task reply, .done) ∈ after ∧ reply.outcome = outcome

/-- A request is answered at once: with the outcome on record if it matches the
    record, and otherwise refused. -/
def AnsweredAtOnce (l : Lease) (q : MutationRequest) (outcome : Outcome) : Prop :=
  l.mutations.get q.identity = none ∧ outcome = relayError (lit "rate_limited") ∨
    ∃ record, l.mutations.get q.identity = some record ∧
      (record.payloadFingerprint ≠ q.payload ∧ outcome = relayError (lit "invalid_params") ∨
        record.payloadFingerprint = q.payload ∧ record.outcome = some outcome)

/-- The dispatcher replies in a way that can be delivered. -/
def Encodes (depths : JsonDepths) (label : LeaseLabel) : Prop :=
  ∀ task reply, label.1 = .taskDone task reply → ∀ requestId, validLocalRequestId requestId = true →
    Answerable depths (response requestId (outcomeMember reply.outcome))

/-- What holds of the mutations of a lease at the end of a run. -/
structure MutationsOnce (l₀ : Lease) (trace : List LeaseLabel) (l : Lease) : Prop where
  /-- between two calls for one mutation its record is dropped, or the first call fails -/
  once : ∀ t₁ first t₂ second t₃ m m' n n' q q', trace = t₁ ++ first :: (t₂ ++ second :: t₃) →
    Run l₀ t₁ m → Step m first m' → Run m' t₂ n → Step n second n' → Invokes q m m' →
    Invokes q' n n' → q.identity = q'.identity →
    ∃ u ending v p p', t₂ = u ++ ending :: v ∧ Run m' u p ∧ Step p ending p' ∧
      (DropsMutation p q.identity p' ∨ Fails q.identity ending)
  /-- a record has the outcome of the call it stands for -/
  recorded : ∀ identity record, l.mutations.get identity = some record →
    StandsFor l₀ trace identity record l
  /-- a request for a mutation that has a record calls nothing, and leaves the record -/
  repeated : ∀ env a text out l' q record, Step l (.submit env a text, out) l' →
    mutationRequest l.depths (loadsStrict l.depths text) = some q →
    l.mutations.get q.identity = some record →
    l'.readTasks = l.readTasks ∧ ∃ record', l'.mutations.get q.identity = some record' ∧
      record'.payloadFingerprint = record.payloadFingerprint ∧ record'.outcome = record.outcome
  /-- a response is given at once, or is the outcome of a call that ends -/
  responses : ∀ label l' a item identity r, Step l label l' → item ∈ placed a l l' →
    item.origin = .answer (.mutation identity) r →
    (∃ env text q outcome, label.1 = .submit env a text ∧
      mutationRequest l.depths (loadsStrict l.depths text) = some q ∧ q.identity = identity ∧
      r = response q.requestId (outcomeMember outcome) ∧ AnsweredAtOnce l q outcome) ∨
    (∃ method params reply record q,
      label = (.taskDone (.mutation method params identity) reply, .done) ∧
      l.mutations.get identity = some record ∧
      LastRequest l₀.depths trace a identity record.payloadFingerprint q ∧
      r = response q.requestId (outcomeMember reply.outcome))
  /-- when a call ends, the last request of the current attachment is answered, or
      its queue has no room and it is detached -/
  completed : ∀ method params identity reply l',
    Step l (.taskDone (.mutation method params identity) reply, .done) l' →
    Encodes l.depths (.taskDone (.mutation method params identity) reply, .done) →
    ∃ record, l.mutations.get identity = some record ∧ record.outcome = none ∧
    ∀ a q, l.attachment = some a →
      LastRequest l₀.depths trace a identity record.payloadFingerprint q →
      placed a l l' = [answerText (.mutation identity)
        (response q.requestId (outcomeMember reply.outcome))] ∨
      (l'.heap a).detachReason = some .attachmentBackpressure
  /-- a record in flight stays until its call ends -/
  pending : ∀ label l' identity record, Step l label l' → l'.released = false →
    l.mutations.get identity = some record → record.outcome = none →
    (∃ record', l'.mutations.get identity = some record' ∧ record'.outcome = none ∧
      record'.payloadFingerprint = record.payloadFingerprint) ∨
    ∃ method params reply, label = (.taskDone (.mutation method params identity) reply, .done)
  bounded : l.mutations.length ≤ min l.limits.maxTrackedSubmissions maxLocalMutations
  /-- no record has an error for its outcome -/
  succeeded : ∀ identity record error, l.mutations.get identity = some record →
    record.outcome ≠ some (.error error)
  /-- no request for a mutation reaches the controller -/
  kept : ∀ env a text out l' method request, Step l (.submit env a text, out) l' →
    localMethod (loadsStrict l.depths text) = some (method, request) →
    method ∈ relayMutationMethods → l'.websocket = l.websocket

/-! ## Tasks and records -/

/-- The mutation a task runs. -/
def LocalTask.identity? : LocalTask → Option Raw
  | .read _ _ _ _ => none
  | .mutation _ _ identity => some identity

/-- Of different tasks that run mutations, no two run the same. -/
theorem task_unique {tasks : List LocalTask} (h : (tasks.filterMap LocalTask.identity?).Nodup)
    {t u : LocalTask} (ht : t ∈ tasks) (hu : u ∈ tasks) {identity : Raw}
    (hti : t.identity? = some identity) (hui : u.identity? = some identity) : t = u := by
  have hmem : ∀ {tasks : List LocalTask} {x}, x ∈ tasks → x.identity? = some identity →
      identity ∈ tasks.filterMap LocalTask.identity? :=
    fun hx hi => List.mem_filterMap.2 ⟨_, hx, hi⟩
  induction tasks with
  | nil => cases ht
  | cons x tasks ih =>
    rw [List.filterMap_cons] at h
    rcases List.mem_cons.1 ht with htx | ht'
    · rcases List.mem_cons.1 hu with hux | hu'
      · rw [htx, hux]
      · rw [← htx, hti] at h
        exact absurd (hmem hu' hui) (List.nodup_cons.1 h).1
    · rcases List.mem_cons.1 hu with hux | hu'
      · rw [← hux, hui] at h
        exact absurd (hmem ht' hti) (List.nodup_cons.1 h).1
      · refine ih ?_ ht' hu'
        cases hx : x.identity? with
        | none => rwa [hx] at h
        | some i =>
          rw [hx] at h
          exact (List.nodup_cons.1 h).2

/-- A task that ends runs its mutation no more. -/
theorem task_erased {tasks : List LocalTask} (h : (tasks.filterMap LocalTask.identity?).Nodup)
    {t : LocalTask} (ht : t ∈ tasks) {identity : Raw} (hti : t.identity? = some identity) :
    identity ∉ (tasks.erase t).filterMap LocalTask.identity? := by
  induction tasks with
  | nil => cases ht
  | cons x tasks ih =>
    rw [List.filterMap_cons] at h
    by_cases hx : x = t
    · subst hx
      rw [hti] at h
      rw [List.erase_cons_head]
      exact (List.nodup_cons.1 h).1
    · have ht' : t ∈ tasks := (List.mem_cons.1 ht).resolve_left fun he => hx he.symm
      rw [List.erase_cons_tail (by simpa using hx), List.filterMap_cons]
      cases hxi : x.identity? with
      | none =>
        rw [hxi] at h
        exact ih h ht'
      | some i =>
        rw [hxi] at h
        obtain ⟨hni, hnd⟩ := List.nodup_cons.1 h
        rw [List.mem_cons, not_or]
        refine ⟨fun he => hni ?_, ih hnd ht'⟩
        exact List.mem_filterMap.2 ⟨t, ht', he ▸ hti⟩

/-- Other tasks go on. -/
theorem mem_erased {tasks : List LocalTask} {t : LocalTask} {identity : Raw}
    (ht : t.identity? ≠ some identity) :
    identity ∈ (tasks.erase t).filterMap LocalTask.identity? ↔
      identity ∈ tasks.filterMap LocalTask.identity? := by
  rw [List.mem_filterMap, List.mem_filterMap]
  constructor
  · rintro ⟨u, hu, hi⟩
    exact ⟨u, List.mem_of_mem_erase hu, hi⟩
  · rintro ⟨u, hu, hi⟩
    have hne : u ≠ t := fun he => ht (he ▸ hi)
    exact ⟨u, (List.mem_erase_of_ne hne).2 hu, hi⟩

/-- The ledger of mutations is in order: it is within its limit, its records in
    flight are those that tasks run, and no error is kept. -/
structure Ordered (l : Lease) : Prop where
  keyed : l.mutations.Keyed
  bounded : l.mutations.length ≤ min l.limits.maxTrackedSubmissions maxLocalMutations
  nodup : (l.readTasks.filterMap LocalTask.identity?).Nodup
  flight : ∀ identity, (∃ record, l.mutations.get identity = some record ∧ record.outcome = none) ↔
    identity ∈ l.readTasks.filterMap LocalTask.identity?
  succeeded : ∀ identity record error, l.mutations.get identity = some record →
    record.outcome ≠ some (.error error)
  valid : ∀ identity record, l.mutations.get identity = some record → ∀ w ∈ record.waiters,
    validLocalRequestId w.1 = true

theorem localRequest_valid {request : List (Str × Json)} {requestId : Json}
    {params : List (Str × Json)} (h : localRequest request = some (requestId, params)) :
    validLocalRequestId requestId = true := by
  unfold localRequest at h
  dsimp only at h
  split at h
  · cases h
  · split at h
    · cases h
    · split at h
      · cases h
      · rename_i hvalid
        split at h
        · cases h
          exact not_not.1 hvalid
        · cases h

theorem Lease.AsksMutation.valid {l : Lease} {a : ℕ} {text : Str} {q : MutationRequest}
    (h : l.AsksMutation a text q) : validLocalRequestId q.requestId = true := by
  obtain ⟨request, -, -, -, -, hreq, -⟩ := mutationRequest_some h.request
  exact localRequest_valid hreq

theorem askedAgain_same (record : LocalMutationRecord) (q : MutationRequest) (a : ℕ) :
    (record.askedAgain q a).outcome = record.outcome ∧
      (record.askedAgain q a).payloadFingerprint = record.payloadFingerprint := by
  unfold LocalMutationRecord.askedAgain LocalMutationRecord.ask
  split
  · split <;> exact ⟨rfl, rfl⟩
  · exact ⟨rfl, rfl⟩

/-- Room for a new record: the table without it is below its limit, and loses no
    record in flight. -/
theorem Lease.MakesRoom.spec {l : Lease} {d : Dict Raw LocalMutationRecord} (h : MakesRoom l d)
    (hk : l.mutations.Keyed)
    (hb : l.mutations.length ≤ min l.limits.maxTrackedSubmissions maxLocalMutations) :
    d.length < min l.limits.maxTrackedSubmissions maxLocalMutations ∧
      (∀ identity record, l.mutations.get identity = some record →
        Dict.get d identity = some record ∨ Dict.get d identity = none ∧ record.outcome.isSome ∧
          min l.limits.maxTrackedSubmissions maxLocalMutations ≤ l.mutations.length) := by
  cases h with
  | room hlt => exact ⟨hlt, fun _ _ hget => .inl hget⟩
  | @evicted key old hfull hold hsome =>
    have hlen := hk.length_remove hold
    refine ⟨by omega, fun identity record hget => ?_⟩
    rw [Dict.get_remove]
    split
    · rename_i hkey
      subst hkey
      obtain rfl : old = record := Option.some.inj (hold.symm.trans hget)
      exact .inr ⟨rfl, hsome, hfull⟩
    · exact .inl hget

section Steps

variable {l l' : Lease} {label : LeaseLabel}

theorem desk_eq {d : Desk} (h : l'.desk = d) : l'.mutations = d.mutations ∧ l'.readTasks = d.readTasks :=
  ⟨congrArg Desk.mutations h, congrArg Desk.readTasks h⟩

/-- A task that runs a mutation has its record in flight. -/
theorem Ordered.record (h : Ordered l) {method : Str} {params : List (Str × Json)} {identity : Raw}
    (ht : .mutation method params identity ∈ l.readTasks) :
    ∃ record, l.mutations.get identity = some record ∧ record.outcome = none :=
  (h.flight identity).2 (List.mem_filterMap.2 ⟨_, ht, rfl⟩)

/-- **The ledger of mutations goes on to be in order.** -/
theorem Ordered.step (h : Ordered l) (hs : Step l label l') (hrel : l.released = false)
    (henc : Encodes l.depths label) : Ordered l' := by
  have hlimits : l'.limits = l.limits := (step_moves hs).constants.limits
  have hkeyed := (step_tasks h.keyed hs).keyed h.keyed
  cases step_tasks h.keyed hs with
  | kept hd =>
    obtain ⟨h1, h2⟩ := desk_eq hd
    exact ⟨hkeyed, by rw [h1, hlimits]; exact h.bounded, by rw [h2]; exact h.nodup,
      by rw [h1, h2]; exact h.flight, by rw [h1]; exact h.succeeded, by rw [h1]; exact h.valid⟩
  | reading _ _ hd =>
    obtain ⟨h1, h2⟩ := desk_eq hd
    have hsame : l'.readTasks.filterMap LocalTask.identity? =
        l.readTasks.filterMap LocalTask.identity? := by
      rw [h2, List.filterMap_append]
      simp [LocalTask.identity?]
    exact ⟨hkeyed, by rw [h1, hlimits]; exact h.bounded, by rw [hsame]; exact h.nodup,
      by rw [h1, hsame]; exact h.flight, by rw [h1]; exact h.succeeded, by rw [h1]; exact h.valid⟩
  | @repeated env a text q record _ _ hq hget hd =>
    obtain ⟨h1, h2⟩ := desk_eq hd
    have hget' : ∀ j, l'.mutations.get j =
        if q.identity = j then some (record.askedAgain q a) else l.mutations.get j := by
      intro j
      rw [h1, Dict.get_set, Dict.get_moveToEnd]
    obtain ⟨ho, -⟩ := askedAgain_same record q a
    refine ⟨hkeyed, ?_, by rw [h2]; exact h.nodup, fun j => ?_, fun j r e hj => ?_,
      fun j r hj w hw => ?_⟩
    · have hsome : (Dict.get (l.mutations.moveToEnd q.identity) q.identity).isSome := by
        rw [Dict.get_moveToEnd, hget]
        rfl
      rw [h1, hlimits, Dict.length_set, if_pos hsome, h.keyed.length_moveToEnd]
      exact h.bounded
    · rw [h2, ← h.flight j, hget' j]
      by_cases hj : q.identity = j
      · subst hj
        simp [hget, ho]
      · rw [if_neg hj]
    · rw [hget' j] at hj
      split at hj
      · cases hj
        rw [ho]
        exact h.succeeded _ _ e hget
      · exact h.succeeded _ _ e hj
    · rw [hget' j] at hj
      split at hj
      · cases hj
        rcases askedAgain_waiters hw with hw | rfl
        · exact h.valid _ _ hget w hw
        · exact hq.valid
      · exact h.valid _ _ hj w hw
  | @begun env a text q d forwarded _ hq hnone hroom hd =>
    obtain ⟨h1, h2⟩ := desk_eq hd
    obtain ⟨hlen, hrecords⟩ := hroom.spec h.keyed h.bounded
    have hold : ∀ {j r}, Dict.get d j = some r → l.mutations.get j = some r := hroom.get_some
    have hdnone : Dict.get d q.identity = none := by
      cases hdq : Dict.get d q.identity with
      | none => rfl
      | some r => cases hnone.symm.trans (hold hdq)
    have hget' : ∀ j, l'.mutations.get j =
        if q.identity = j then some (q.record a) else Dict.get d j := by
      intro j
      rw [h1, Dict.get_set]
    have htasks : l'.readTasks.filterMap LocalTask.identity? =
        l.readTasks.filterMap LocalTask.identity? ++ [q.identity] := by
      rw [h2, List.filterMap_append]
      rfl
    have hfree : q.identity ∉ l.readTasks.filterMap LocalTask.identity? := by
      rw [← h.flight]
      rintro ⟨r, hr, -⟩
      cases hnone.symm.trans hr
    refine ⟨hkeyed, ?_, ?_, fun j => ?_, fun j r e hj => ?_, fun j r hj w hw => ?_⟩
    · rw [h1, hlimits, Dict.length_set, if_neg (by simp [hdnone])]
      exact hlen
    · rw [htasks, List.nodup_append]
      refine ⟨h.nodup, by simp, fun x hx y hy he => ?_⟩
      obtain rfl : y = q.identity := by simpa using hy
      exact hfree (he ▸ hx)
    · rw [htasks, List.mem_append, ← h.flight j, hget' j]
      by_cases hj : q.identity = j
      · subst hj
        simp [MutationRequest.record]
      · rw [if_neg hj]
        constructor
        · rintro ⟨r, hr, hro⟩
          exact .inl ⟨r, hold hr, hro⟩
        · rintro (⟨r, hr, hro⟩ | hmem)
          · rcases hrecords j r hr with hkeep | ⟨-, hsome, -⟩
            · exact ⟨r, hkeep, hro⟩
            · simp [hro] at hsome
          · exact absurd (by simpa using hmem : j = q.identity).symm hj
    · rw [hget' j] at hj
      split at hj
      · cases hj
        simp [MutationRequest.record]
      · exact h.succeeded _ _ e (hold hj)
    · rw [hget' j] at hj
      split at hj
      · cases hj
        obtain rfl : w = (q.requestId, a) := by simpa [MutationRequest.record] using hw
        exact hq.valid
      · exact h.valid _ _ (hold hj) w hw
  | @ended task reply _ hno hd =>
    obtain ⟨h1, h2⟩ := desk_eq hd
    have hread : task.identity? = none := by
      cases task with
      | read => rfl
      | mutation method params identity =>
        obtain ⟨record, hget, -⟩ := h.record hs.1
        cases hrel.symm.trans (hno _ _ _ _ rfl hget)
    refine ⟨hkeyed, by rw [h1, hlimits]; exact h.bounded, ?_, fun j => ?_,
      by rw [h1]; exact h.succeeded, by rw [h1]; exact h.valid⟩
    · rw [h2]
      exact h.nodup.sublist (List.erase_sublist.filterMap _)
    · rw [h1, h2, mem_erased (by simp [hread])]
      exact h.flight j
  | @settled method params identity reply record _ _ hget hd hcase =>
    obtain ⟨h1, h2⟩ := desk_eq hd
    have hget' : ∀ j, l'.mutations.get j =
        if identity = j then some (record.settle reply.outcome) else l.mutations.get j := by
      intro j
      rw [h1, Dict.get_set]
    refine ⟨hkeyed, ?_, ?_, fun j => ?_, fun j r e hj => ?_, fun j r hj w hw => ?_⟩
    · rw [h1, hlimits, Dict.length_set, if_pos (by simp [hget])]
      exact h.bounded
    · rw [h2]
      exact h.nodup.sublist (List.erase_sublist.filterMap _)
    · rw [h2, hget' j]
      by_cases hj : identity = j
      · subst hj
        refine iff_of_false ?_ (task_erased h.nodup hs.1 rfl)
        simp [LocalMutationRecord.settle]
      · rw [if_neg hj, mem_erased (by simpa [LocalTask.identity?] using hj)]
        exact h.flight j
    · rw [hget' j] at hj
      split at hj
      · cases hj
        rcases hcase with ⟨v, hv⟩ | ⟨w, hw, hn⟩
        · simp [LocalMutationRecord.settle, hv]
        · exact absurd (henc _ _ rfl _ (h.valid _ _ hget w hw)) hn
      · exact h.succeeded _ _ e hj
    · rw [hget' j] at hj
      split at hj
      · cases hj
        cases hw
      · exact h.valid _ _ hj w hw
  | @failed method params identity reply record error _ _ hget _ hd =>
    obtain ⟨h1, h2⟩ := desk_eq hd
    have hget' : ∀ j, l'.mutations.get j = if identity = j then none else l.mutations.get j := by
      intro j
      rw [h1, Dict.get_remove]
    have hlen : l'.mutations.length + 1 = l.mutations.length := by
      rw [h1]
      exact h.keyed.length_remove hget
    have hbound := h.bounded
    refine ⟨hkeyed, by rw [hlimits]; omega, ?_, fun j => ?_, fun j r e hj => ?_,
      fun j r hj w hw => ?_⟩
    · rw [h2]
      exact h.nodup.sublist (List.erase_sublist.filterMap _)
    · rw [h2, hget' j]
      by_cases hj : identity = j
      · subst hj
        exact iff_of_false (by simp) (task_erased h.nodup hs.1 rfl)
      · rw [if_neg hj, mem_erased (by simpa [LocalTask.identity?] using hj)]
        exact h.flight j
    · rw [hget' j] at hj
      split at hj
      · cases hj
      · exact h.succeeded _ _ e hj
    · rw [hget' j] at hj
      split at hj
      · cases hj
      · exact h.valid _ _ hj w hw
  | cleared hr => rw [hrel] at hr; cases hr

/-- A call of the dispatcher is the start of a mutation that has no record. -/
theorem invokes_step (hk : l.mutations.Keyed) (hs : Step l label l') {q : MutationRequest}
    (h : Invokes q l l') : ∃ env a text forwarded q', label = (.submit env a text, .submitted forwarded) ∧
      l.AsksMutation a text q' ∧ q'.task = q.task ∧ l.mutations.get q'.identity = none ∧
      l'.mutations.get q'.identity = some (q'.record a) := by
  unfold Invokes at h
  have hlonger : ∀ {tasks : List LocalTask}, l'.readTasks = tasks → tasks.length ≤ l.readTasks.length →
      False := by
    intro tasks ht hlen
    have := congrArg List.length (ht.symm.trans h)
    simp at this
    omega
  cases step_tasks hk hs with
  | kept hd => exact (hlonger (desk_eq hd).2 le_rfl).elim
  | reading _ _ hd =>
    have := List.append_cancel_left ((desk_eq hd).2.symm.trans h)
    simp [MutationRequest.task] at this
  | repeated _ _ hd => exact (hlonger (desk_eq hd).2 le_rfl).elim
  | @begun env a text q' d forwarded _ hq hnone _ hd =>
    obtain ⟨h1, h2⟩ := desk_eq hd
    have htask := List.append_cancel_left (h2.symm.trans h)
    exact ⟨env, a, text, forwarded, q', rfl, hq, List.singleton_inj.1 htask, hnone,
      by rw [h1, Dict.get_set_self]⟩
  | ended _ hd => exact (hlonger (desk_eq hd).2 List.length_erase_le).elim
  | settled _ _ hd => exact (hlonger (desk_eq hd).2 List.length_erase_le).elim
  | failed _ _ _ hd => exact (hlonger (desk_eq hd).2 List.length_erase_le).elim
  | cleared _ hd => exact (hlonger (desk_eq hd).2 (Nat.zero_le _)).elim

/-- A record that is gone was dropped with its outcome, or its call failed. -/
theorem record_lost (h : Ordered l) (hs : Step l label l') (hrel : l.released = false)
    {identity : Raw} (hsome : (l.mutations.get identity).isSome)
    (hgone : ¬ (l'.mutations.get identity).isSome) :
    DropsMutation l identity l' ∨ Fails identity label := by
  obtain ⟨record, hget⟩ := Option.isSome_iff_exists.1 hsome
  have hnone : l'.mutations.get identity = none := by simpa using hgone
  have hset : ∀ {d : Dict Raw LocalMutationRecord} {i r}, l'.mutations = d.set i r →
      Dict.get d identity = none := by
    intro d i r hd
    rw [hd, Dict.get_set] at hnone
    split at hnone
    · cases hnone
    · exact hnone
  have hsame : l'.mutations = l.mutations → False := fun he => by
    rw [he, hget] at hnone
    cases hnone
  cases step_tasks h.keyed hs with
  | kept hd => exact (hsame (desk_eq hd).1).elim
  | reading _ _ hd => exact (hsame (desk_eq hd).1).elim
  | repeated _ _ hd =>
    have := hset (desk_eq hd).1
    rw [Dict.get_moveToEnd, hget] at this
    cases this
  | begun _ _ hroom hd =>
    have hd' := hset (desk_eq hd).1
    rcases (hroom.spec h.keyed h.bounded).2 identity record hget with hk | ⟨-, ho, hfull⟩
    · rw [hd'] at hk
      cases hk
    · exact .inl ⟨hfull, ⟨record, hget, ho⟩, hnone⟩
  | ended _ hd => exact (hsame (desk_eq hd).1).elim
  | settled _ _ hd =>
    have := hset (desk_eq hd).1
    rw [hget] at this
    cases this
  | @failed method params i reply record' error _ _ _ ho hd =>
    rw [(desk_eq hd).1, Dict.get_remove] at hnone
    split at hnone
    · rename_i hi
      subst hi
      exact .inr ⟨method, params, reply, error, rfl, ho⟩
    · rw [hget] at hnone
      cases hnone
  | cleared hr => rw [hrel] at hr; cases hr

/-- A record in flight stays until its call ends. -/
theorem pending_record (h : Ordered l) (hs : Step l label l') (hrel : l.released = false)
    {identity : Raw} {record : LocalMutationRecord} (hget : l.mutations.get identity = some record)
    (hnone : record.outcome = none) :
    (∃ record', l'.mutations.get identity = some record' ∧ record'.outcome = none ∧
      record'.payloadFingerprint = record.payloadFingerprint) ∨
    ∃ method params reply, label = (.taskDone (.mutation method params identity) reply, .done) := by
  have hsame : l'.mutations = l.mutations → ∃ record', l'.mutations.get identity = some record' ∧
      record'.outcome = none ∧ record'.payloadFingerprint = record.payloadFingerprint :=
    fun he => ⟨record, by rw [he]; exact hget, hnone, rfl⟩
  cases step_tasks h.keyed hs with
  | kept hd => exact .inl (hsame (desk_eq hd).1)
  | reading _ _ hd => exact .inl (hsame (desk_eq hd).1)
  | @repeated env a text q record' _ _ _ hget' hd =>
    left
    rw [(desk_eq hd).1, Dict.get_set, Dict.get_moveToEnd]
    split
    · rename_i hi
      subst hi
      obtain rfl : record = record' := Option.some.inj (hget.symm.trans hget')
      obtain ⟨h1, h2⟩ := askedAgain_same record q a
      exact ⟨_, rfl, h1.trans hnone, h2⟩
    · exact ⟨record, hget, hnone, rfl⟩
  | @begun env a text q d _ _ _ hfree hroom hd =>
    left
    have hne : q.identity ≠ identity := fun he => by
      rw [he, hget] at hfree
      cases hfree
    rw [(desk_eq hd).1, Dict.get_set_of_ne hne]
    rcases (hroom.spec h.keyed h.bounded).2 identity record hget with hk | ⟨-, ho, -⟩
    · exact ⟨record, hk, hnone, rfl⟩
    · simp [hnone] at ho
  | ended _ hd => exact .inl (hsame (desk_eq hd).1)
  | @settled method params i reply _ _ _ _ hd =>
    by_cases hi : i = identity
    · subst hi
      exact .inr ⟨method, params, reply, rfl⟩
    · left
      rw [(desk_eq hd).1, Dict.get_set_of_ne hi]
      exact ⟨record, hget, hnone, rfl⟩
  | @failed method params i reply _ _ _ _ _ _ hd =>
    by_cases hi : i = identity
    · subst hi
      exact .inr ⟨method, params, reply, rfl⟩
    · left
      rw [(desk_eq hd).1, Dict.get_remove, if_neg hi]
      exact ⟨record, hget, hnone, rfl⟩
  | cleared hr => rw [hrel] at hr; cases hr

theorem mutation_not_read {depths : JsonDepths} {value : Option Json} {q : MutationRequest}
    (h : mutationRequest depths value = some q) : readRequest value = none := by
  unfold mutationRequest at h
  unfold readRequest
  split at h
  · split at h
    · rename_i hmut
      exact if_pos hmut
    · cases h
  · cases h

/-- A request for a mutation that has a record calls nothing, and leaves the
    record. -/
theorem repeated_record (h : Ordered l) {env : Surroundings} {a : ℕ} {text : Str} {out : LeaseOutput}
    (hs : Step l (.submit env a text, out) l') {q : MutationRequest}
    (hq : mutationRequest l.depths (loadsStrict l.depths text) = some q)
    {record : LocalMutationRecord} (hget : l.mutations.get q.identity = some record) :
    l'.readTasks = l.readTasks ∧ ∃ record', l'.mutations.get q.identity = some record' ∧
      record'.payloadFingerprint = record.payloadFingerprint ∧ record'.outcome = record.outcome := by
  cases step_tasks h.keyed hs with
  | kept hd =>
    obtain ⟨h1, h2⟩ := desk_eq hd
    exact ⟨h2, record, by rw [h1]; exact hget, rfl, rfl⟩
  | reading _ hread =>
    rw [mutation_not_read hq] at hread
    cases hread
  | @repeated _ _ _ q' record' _ _ hq' hget' hd =>
    obtain rfl : q = q' := Option.some.inj (hq.symm.trans hq'.request)
    obtain rfl : record = record' := Option.some.inj (hget.symm.trans hget')
    obtain ⟨h1, h2⟩ := desk_eq hd
    obtain ⟨h3, h4⟩ := askedAgain_same record q a
    exact ⟨h2, _, by rw [h1, Dict.get_set_self], h4, h3⟩
  | @begun _ _ _ q' _ _ _ hq' hnone =>
    obtain rfl : q = q' := Option.some.inj (hq.symm.trans hq'.request)
    cases hnone.symm.trans hget

theorem dispatcher_step (hk : l.mutations.Keyed) (hs : Step l label l') :
    l'.hasReadDispatcher = l.hasReadDispatcher := by
  have h : ∀ {d : Desk}, l'.desk = d → d.hasReadDispatcher = l.hasReadDispatcher →
      l'.hasReadDispatcher = l.hasReadDispatcher :=
    fun hd he => (congrArg Desk.hasReadDispatcher hd).trans he
  cases step_tasks hk hs with
  | kept hd => exact h hd rfl
  | reading _ _ hd => exact h hd rfl
  | repeated _ _ hd => exact h hd rfl
  | begun _ _ _ hd => exact h hd rfl
  | ended _ hd => exact h hd rfl
  | settled _ _ hd => exact h hd rfl
  | failed _ _ _ hd => exact h hd rfl
  | cleared _ hd => exact h hd rfl

/-- A request that was taken came from the current attachment. -/
theorem requests_asks (hs : Step l label l') {a : ℕ} {q : MutationRequest}
    (h : Requests l.depths a q label) (hd : l.hasReadDispatcher = true) :
    ∃ env text, label.1 = .submit env a text ∧ l.AsksMutation a text q := by
  obtain ⟨env, text, forwarded, rfl, hq⟩ := h
  obtain ⟨-, hx⟩ := hs
  rcases hr : l.feedText env a text with ⟨m, fault⟩
  simp only [perform, hr, Prod.mk.injEq] at hx
  obtain ⟨-, hout⟩ := hx
  have hnone : fault = none := by
    cases fault with
    | none => rfl
    | some => cases hout
  subst hnone
  refine ⟨env, text, rfl, ?_⟩
  unfold feedText at hr
  split at hr
  · cases hr
  · rename_i hatt
    unfold submitText at hr
    split at hr
    · cases hr
    · rename_i hrel
      split at hr
      · cases hr
      · rename_i hcur
        exact ⟨by simpa using hrel, not_not.1 hcur, by simpa using hatt, hd, hq⟩

end Steps

/-! ## Runs -/

section Runs

variable {l₀ l : Lease} {trace : List LeaseLabel}

theorem Lease.Fresh.ordered (h : l.Fresh) : Ordered l where
  keyed := h.mutations_keyed
  bounded := by simp [h.mutations]
  nodup := by simp [h.readTasks]
  flight := by simp [h.mutations, h.readTasks]
  succeeded := by simp [h.mutations]
  valid := by simp [h.mutations]

/-- What a run keeps, as far as mutations are concerned. -/
structure InOrder (l₀ l : Lease) : Prop where
  depths : l.depths = l₀.depths
  dispatcher : l.hasReadDispatcher = l₀.hasReadDispatcher
  keyed : l.mutations.Keyed
  ordered : l.released = false → Ordered l

theorem inOrder_run (hfresh : l₀.Fresh) (hrun : Run l₀ trace l)
    (henc : ∀ label ∈ trace, Encodes l₀.depths label) : InOrder l₀ l := by
  refine hrun.invariant_mem (I := InOrder l₀) ?_
    ⟨rfl, rfl, hfresh.mutations_keyed, fun _ => hfresh.ordered⟩
  intro m label hlabel m' hm hs
  refine ⟨(step_moves hs).constants.depths.trans hm.depths,
    (dispatcher_step hm.keyed hs).trans hm.dispatcher, (step_tasks hm.keyed hs).keyed hm.keyed,
    fun hrel => ?_⟩
  have hrel' := not_released_of_run (.single hs) hrel
  exact (hm.ordered hrel').step hs hrel' (hm.depths ▸ henc label hlabel)

/-- The record stands for its run after one more step. -/
theorem StandsFor.snoc {identity : Raw} {record record' : LocalMutationRecord} {label : LeaseLabel}
    {l' : Lease} (h : StandsFor l₀ trace identity record l) (ho : Ordered l) (hs : Step l label l')
    (hget : l'.mutations.get identity = some record')
    (hpayload : record'.payloadFingerprint = record.payloadFingerprint)
    (htask : ∀ task ∈ l.readTasks, task.identity? = some identity → record'.outcome = none →
      task ∈ l'.readTasks)
    (hnone : record'.outcome = none → record.outcome = none)
    (hout : ∀ outcome, record'.outcome = some outcome → record.outcome = some outcome ∨
      record.outcome = none ∧ ∃ task reply, label = (.taskDone task reply, .done) ∧
        reply.outcome = outcome ∧ task ∈ l.readTasks ∧ task.identity? = some identity) :
    StandsFor l₀ (trace ++ [label]) identity record' l' := by
  obtain ⟨before, begin, after, m, m', a, q, rfl, h1, h2, h3, h4, h5, h6, h7, h8⟩ := h
  have hid : q.task.identity? = some identity := by rw [← h6.1]; rfl
  refine ⟨before, begin, after ++ [label], m, m', a, q, by simp, h1, h2,
    h3.snoc ⟨hs, by simp [hget]⟩, h4, h5, ⟨h6.1, h6.2.trans hpayload.symm⟩, fun hn => ?_,
    fun outcome hsome => ?_⟩
  · exact htask _ (h7 (hnone hn)) hid hn
  · rcases hout outcome hsome with hold | ⟨hpend, task, reply, rfl, hr, hmem, hti⟩
    · obtain ⟨reply, hmem, hr⟩ := h8 outcome hold
      exact ⟨reply, List.mem_append_left _ hmem, hr⟩
    · obtain rfl := task_unique ho.nodup (h7 hpend) hmem hid hti
      exact ⟨reply, by simp, hr⟩

/-- What holds of every record, once the trace is extended. -/
theorem standsFor_step {label : LeaseLabel} {l' : Lease} (hrun : Run l₀ trace l)
    (ho : Ordered l) (hdepths : l.depths = l₀.depths) (hrel : l.released = false)
    (h : ∀ identity record, l.mutations.get identity = some record →
      StandsFor l₀ trace identity record l) (hs : Step l label l') :
    ∀ identity record, l'.mutations.get identity = some record →
      StandsFor l₀ (trace ++ [label]) identity record l' := by
  intro i r hget
  -- the record was there, and its tasks go on
  have hkept : l.mutations.get i = some r →
      (∀ task ∈ l.readTasks, task.identity? = some i → r.outcome = none → task ∈ l'.readTasks) →
      StandsFor l₀ (trace ++ [label]) i r l' := fun hold htasks =>
    (h i r hold).snoc ho hs hget rfl htasks id fun _ hsome => .inl hsome
  have herase : ∀ {task : LocalTask} {tasks : List LocalTask}, task.identity? ≠ some i →
      ∀ t ∈ tasks, t.identity? = some i → r.outcome = none → t ∈ tasks.erase task :=
    fun {task _} hne t ht hti _ => by
      have htne : t ≠ task := fun he => hne (he ▸ hti)
      exact (List.mem_erase_of_ne htne).2 ht
  cases step_tasks ho.keyed hs with
  | kept hd =>
    obtain ⟨h1, h2⟩ := desk_eq hd
    rw [h1] at hget
    exact hkept hget fun t ht _ _ => by rw [h2]; exact ht
  | reading _ _ hd =>
    obtain ⟨h1, h2⟩ := desk_eq hd
    rw [h1] at hget
    exact hkept hget fun t ht _ _ => by rw [h2]; exact List.mem_append_left _ ht
  | @repeated env a text q record _ _ _ hold hd =>
    obtain ⟨h1, h2⟩ := desk_eq hd
    have htasks : ∀ t ∈ l.readTasks, t.identity? = some i → r.outcome = none → t ∈ l'.readTasks :=
      fun t ht _ _ => by rw [h2]; exact ht
    rw [h1, Dict.get_set, Dict.get_moveToEnd] at hget
    split at hget
    · rename_i hi
      subst hi
      cases hget
      obtain ⟨h3, h4⟩ := askedAgain_same record q a
      refine (h _ record hold).snoc ho hs (by rw [h1, Dict.get_set_self]) h4 htasks
        (fun hn => h3 ▸ hn) fun outcome hsome => .inl (h3 ▸ hsome)
    · exact hkept hget htasks
  | @begun env a text q d forwarded _ hq _ hroom hd =>
    obtain ⟨h1, h2⟩ := desk_eq hd
    rw [h1, Dict.get_set] at hget
    split at hget
    · rename_i hi
      subst hi
      cases hget
      refine ⟨trace, _, [], l, l', a, q, rfl, hrun, hs, .nil, ⟨env, text, forwarded, rfl, ?_⟩, h2,
        ⟨rfl, rfl⟩, fun _ => ?_, fun outcome hsome => ?_⟩
      · rw [← hdepths]
        exact hq.request
      · rw [h2]
        simp
      · simp [MutationRequest.record] at hsome
    · exact hkept (hroom.get_some hget) fun t ht _ _ => by rw [h2]; exact List.mem_append_left _ ht
  | @ended task reply _ hno hd =>
    obtain ⟨h1, h2⟩ := desk_eq hd
    rw [h1] at hget
    refine hkept hget ?_
    rw [h2]
    refine herase fun hi => ?_
    cases task with
    | read => cases hi
    | mutation method params identity =>
      obtain ⟨record, hrec, -⟩ := ho.record hs.1
      cases hrel.symm.trans (hno _ _ _ _ rfl hrec)
  | @settled method params identity reply record _ _ hold hd =>
    obtain ⟨h1, h2⟩ := desk_eq hd
    obtain ⟨record', hrec, hpend⟩ := ho.record hs.1
    obtain rfl : record' = record := Option.some.inj (hrec.symm.trans hold)
    rw [h1, Dict.get_set] at hget
    split at hget
    · rename_i hi
      subst hi
      cases hget
      refine (h _ record' hold).snoc ho hs (by rw [h1, Dict.get_set_self]) rfl (fun _ _ _ hn => by cases hn)
        (fun hn => by cases hn) fun outcome hsome => .inr ⟨hpend, _, reply, rfl, ?_, hs.1, rfl⟩
      exact Option.some.inj hsome
    · rename_i hi
      refine hkept hget ?_
      rw [h2]
      exact herase (by simpa [LocalTask.identity?] using hi)
  | @failed method params identity reply record error _ _ hold _ hd =>
    obtain ⟨h1, h2⟩ := desk_eq hd
    rw [h1, Dict.get_remove] at hget
    split at hget
    · cases hget
    · rename_i hi
      refine hkept hget ?_
      rw [h2]
      exact herase (by simpa [LocalTask.identity?] using hi)
  | cleared hr => rw [hrel] at hr; cases hr

theorem standsFor_run (hfresh : l₀.Fresh) (hrun : Run l₀ trace l)
    (henc : ∀ label ∈ trace, Encodes l₀.depths label) (hrel : l.released = false) :
    ∀ identity record, l.mutations.get identity = some record →
      StandsFor l₀ trace identity record l := by
  refine hrun.history (I := fun trace l => (∀ label ∈ trace, Encodes l₀.depths label) →
    l.released = false → ∀ identity record, l.mutations.get identity = some record →
      StandsFor l₀ trace identity record l) ?_ ?_ henc hrel
  · intro _ _ identity record hget
    rw [hfresh.mutations] at hget
    cases hget
  · intro before m label m' hbefore ih hs henc hrel
    have hrel' := not_released_of_run (.single hs) hrel
    have henc' : ∀ label ∈ before, Encodes l₀.depths label :=
      fun label hl => henc label (List.mem_append_left _ hl)
    have hm := inOrder_run hfresh hbefore henc'
    exact standsFor_step hbefore (hm.ordered hrel') hm.depths hrel' (ih henc' hrel') hs

/-! ## The last request -/

/-- The last request for a mutation, of any attachment. -/
def LastOfAll (depths : JsonDepths) (trace : List LeaseLabel) (b : ℕ) (identity payload : Raw)
    (q : MutationRequest) : Prop :=
  ∃ before label after, trace = before ++ label :: after ∧ Requests depths b q label ∧
    q.Matches identity payload ∧
    ∀ label' ∈ after, ∀ b' q', Requests depths b' q' label' → ¬ q'.Matches identity payload

/-- The last request waits for the outcome of a mutation in flight, and no other. -/
def Awaited (depths : JsonDepths) (trace : List LeaseLabel) (identity : Raw)
    (record : LocalMutationRecord) : Prop :=
  ∃ b q, record.waiters = [(q.requestId, b)] ∧
    LastOfAll depths trace b identity record.payloadFingerprint q

theorem LastOfAll.snoc {depths : JsonDepths} {b : ℕ} {identity payload : Raw} {q : MutationRequest}
    (h : LastOfAll depths trace b identity payload q) {label : LeaseLabel}
    (hlabel : ∀ b' q', Requests depths b' q' label → ¬ q'.Matches identity payload) :
    LastOfAll depths (trace ++ [label]) b identity payload q := by
  obtain ⟨before, last, after, rfl, h1, h2, h3⟩ := h
  refine ⟨before, last, after ++ [label], by simp, h1, h2, fun label' hl => ?_⟩
  rcases List.mem_append.1 hl with hl | hl
  · exact h3 label' hl
  · obtain rfl : label' = label := by simpa using hl
    exact hlabel

/-- Identifiers of local requests that are equal are the same. -/
theorem valid_same {r r' : Json} (h : validLocalRequestId r = true) (h' : validLocalRequestId r' = true)
    (hs : Json.same r r') : r = r' := by
  cases r <;> cases r' <;> simp_all [validLocalRequestId, Json.same, Json.norm]

/-- A request is one for one mutation. -/
theorem Requests.unique {depths : JsonDepths} {a b : ℕ} {q q' : MutationRequest} {label : LeaseLabel}
    (h : Requests depths a q label) (h' : Requests depths b q' label) : a = b ∧ q = q' := by
  obtain ⟨env, text, forwarded, rfl, hq⟩ := h
  obtain ⟨env', text', forwarded', he, hq'⟩ := h'
  cases he
  exact ⟨rfl, Option.some.inj (hq.symm.trans hq')⟩

/-- An attachment that waits already asked with the same identifier. -/
theorem isWaiting_single {w : Waiter} {requestId : Json} {a : ℕ}
    (hw : validLocalRequestId w.1 = true) (hr : validLocalRequestId requestId = true)
    (h : isWaiting [w] requestId a = true) : w = (requestId, a) := by
  obtain ⟨r, b⟩ := w
  simp only [isWaiting, List.any_cons, List.any_nil, Bool.or_false, Bool.and_eq_true,
    decide_eq_true_eq] at h
  obtain ⟨h1, rfl⟩ := h
  obtain rfl : r = requestId := valid_same hw hr h1
  rfl

/-- What holds of the waiters of every record in flight, once the trace is
    extended. -/
theorem awaited_step {label : LeaseLabel} {l' : Lease} (ho : Ordered l) (hdepths : l.depths = l₀.depths)
    (hdisp : l.hasReadDispatcher = true)
    (h : ∀ identity record, l.mutations.get identity = some record → record.outcome = none →
      Awaited l₀.depths trace identity record) (hs : Step l label l') :
    ∀ identity record, l'.mutations.get identity = some record → record.outcome = none →
      Awaited l₀.depths (trace ++ [label]) identity record := by
  intro i r hget hpend
  -- a request that is no match leaves the last one
  have hkept : l.mutations.get i = some r →
      (∀ b q, Requests l.depths b q label → ¬ q.Matches i r.payloadFingerprint) →
      Awaited l₀.depths (trace ++ [label]) i r := by
    intro hold hno
    obtain ⟨b, q, hw, hlast⟩ := h i r hold hpend
    exact ⟨b, q, hw, hlast.snoc (hdepths ▸ hno)⟩
  have hother : ∀ {env a text out q b q' payload}, label = (.submit env a text, out) →
      mutationRequest l.depths (loadsStrict l.depths text) = some q →
      Requests l.depths b q' label → q'.Matches i payload → q' = q := by
    rintro env a text out q b q' payload rfl hq ⟨env', text', forwarded', he, hq'⟩ -
    cases he
    exact Option.some.inj (hq'.symm.trans hq)
  cases step_tasks ho.keyed hs with
  | kept hd hno =>
    have h1 : l'.mutations = l.mutations := (desk_eq hd).1
    rw [h1] at hget
    refine hkept hget fun b q hreq hmatch => ?_
    obtain ⟨env, text, hl, hasks⟩ := requests_asks hs hreq hdisp
    have hnone := (hno env b text q hl hasks).1
    rw [hmatch.1, hget] at hnone
    cases hnone
  | @reading env a text requestId _ _ _ _ _ hread hd =>
    rw [(desk_eq hd).1] at hget
    refine hkept hget fun b q hreq _ => ?_
    obtain ⟨env', text', forwarded, he, hq⟩ := hreq
    cases he
    rw [mutation_not_read hq] at hread
    cases hread
  | @repeated env a text q record out _ hq hold hd hsub =>
    rw [(desk_eq hd).1, Dict.get_set, Dict.get_moveToEnd] at hget
    split at hget
    · rename_i hi
      subst hi
      cases hget
      obtain ⟨h3, h4⟩ := askedAgain_same record q a
      rw [h3] at hpend
      by_cases hp : record.payloadFingerprint = q.payload
      · obtain ⟨forwarded, rfl⟩ := hsub hp hpend
        have hreq : Requests l₀.depths a q (.submit env a text, .submitted forwarded) :=
          ⟨env, text, forwarded, rfl, hdepths ▸ hq.request⟩
        refine ⟨a, q, ?_, trace, _, [], rfl, hreq, ⟨rfl, by rw [h4, hp]⟩, by simp⟩
        unfold LocalMutationRecord.askedAgain LocalMutationRecord.ask
        rw [if_pos ⟨hp, hpend⟩]
        split
        · rename_i hwait
          obtain ⟨b, q₀, hw, -⟩ := h _ record hold hpend
          have hvalid := ho.valid _ _ hold (q₀.requestId, b) (by rw [hw]; simp)
          rw [hw] at hwait ⊢
          rw [isWaiting_single hvalid hq.valid hwait]
        · rfl
      · have hsame : record.askedAgain q a = record := by
          unfold LocalMutationRecord.askedAgain
          rw [if_neg fun hc => hp hc.1]
        rw [hsame]
        obtain ⟨b, q₀, hw, hlast⟩ := h _ record hold hpend
        refine ⟨b, q₀, hw, hlast.snoc fun b' q' hreq hmatch => ?_⟩
        obtain rfl := hother rfl hq.request (hdepths ▸ hreq) hmatch
        exact hp hmatch.2.symm
    · rename_i hi
      refine hkept hget fun b q' hreq hmatch => ?_
      obtain rfl := hother rfl hq.request hreq hmatch
      exact hi hmatch.1
  | @begun env a text q d forwarded _ hq _ hroom hd =>
    rw [(desk_eq hd).1, Dict.get_set] at hget
    split at hget
    · rename_i hi
      subst hi
      cases hget
      exact ⟨a, q, rfl, trace, _, [], rfl, ⟨env, text, forwarded, rfl, hdepths ▸ hq.request⟩,
        ⟨rfl, rfl⟩, by simp⟩
    · rename_i hi
      refine hkept (hroom.get_some hget) fun b q' hreq hmatch => ?_
      obtain rfl := hother rfl hq.request hreq hmatch
      exact hi hmatch.1
  | ended _ hd =>
    rw [(desk_eq hd).1] at hget
    refine hkept hget fun b q hreq => ?_
    obtain ⟨_, _, _, he, _⟩ := hreq
    cases he
  | settled _ _ hd =>
    rw [(desk_eq hd).1, Dict.get_set] at hget
    split at hget
    · cases hget
      cases hpend
    · refine hkept hget fun b q hreq => ?_
      obtain ⟨_, _, _, he, _⟩ := hreq
      cases he
  | failed _ _ _ hd =>
    rw [(desk_eq hd).1, Dict.get_remove] at hget
    split at hget
    · cases hget
    · refine hkept hget fun b q hreq => ?_
      obtain ⟨_, _, _, he, _⟩ := hreq
      cases he
  | cleared _ hd =>
    rw [(desk_eq hd).1] at hget
    cases hget

theorem awaited_run (hfresh : l₀.Fresh) (hrun : Run l₀ trace l)
    (hdisp : l₀.hasReadDispatcher = true) (henc : ∀ label ∈ trace, Encodes l₀.depths label)
    (hrel : l.released = false) :
    ∀ identity record, l.mutations.get identity = some record → record.outcome = none →
      Awaited l₀.depths trace identity record := by
  refine hrun.history (I := fun trace l => (∀ label ∈ trace, Encodes l₀.depths label) →
    l.released = false → ∀ identity record, l.mutations.get identity = some record →
      record.outcome = none → Awaited l₀.depths trace identity record) ?_ ?_ henc hrel
  · intro _ _ identity record hget
    rw [hfresh.mutations] at hget
    cases hget
  · intro before m label m' hbefore ih hs henc hrel
    have hrel' := not_released_of_run (.single hs) hrel
    have henc' : ∀ label ∈ before, Encodes l₀.depths label :=
      fun label hl => henc label (List.mem_append_left _ hl)
    have hm := inOrder_run hfresh hbefore henc'
    exact awaited_step (hm.ordered hrel') hm.depths (hm.dispatcher.trans hdisp) (ih henc' hrel') hs

/-- The last request of the current attachment is the last one of all: no later
    attachment asked, or it would hold the lease. -/
theorem lastRequest_ofAll (hfresh : l₀.Fresh) (hrun : Run l₀ trace l)
    (hdisp : l₀.hasReadDispatcher = true) (henc : ∀ label ∈ trace, Encodes l₀.depths label)
    {a b : ℕ} {identity payload : Raw} {q q₀ : MutationRequest} (hcur : l.attachment = some a)
    (h : LastRequest l₀.depths trace a identity payload q)
    (hall : LastOfAll l₀.depths trace b identity payload q₀) : a = b ∧ q = q₀ := by
  obtain ⟨before, label, after, htrace, hreq, hmatch, hlast⟩ := h
  obtain ⟨before', label', after', htrace', hreq', hmatch', hlast'⟩ := hall
  rcases List.append_eq_append_iff.1 (htrace.symm.trans htrace') with ⟨mid, h1, h2⟩ | ⟨mid, h1, h2⟩
  · cases mid with
    | nil =>
      obtain ⟨rfl, -⟩ := List.cons.inj h2
      exact hreq.unique hreq'
    | cons x mid =>
      obtain ⟨rfl, rfl⟩ := List.cons.inj h2
      -- a later request of `b`: it is not one of `a`, which then holds the lease no more
      have hne : a ≠ b := by
        rintro rfl
        exact hlast label' (by simp) q₀ hreq' hmatch'
      subst htrace
      have hsplit : before ++ label :: mid.append (label' :: after') =
          before ++ (label :: mid) ++ label' :: after' := by simp
      rw [hsplit] at hrun henc
      obtain ⟨n, hrun₁, hrun₂⟩ := hrun.split
      obtain ⟨m, hrun₀, hrun₁'⟩ := hrun₁.split
      have henc₀ : ∀ label ∈ before, Encodes l₀.depths label :=
        fun x hx => henc x (by simp [hx])
      have henc₁ : ∀ x ∈ before ++ label :: mid, Encodes l₀.depths x :=
        fun x hx => henc x (List.mem_append_left _ hx)
      have hm := inOrder_run hfresh hrun₀ henc₀
      have hn := inOrder_run hfresh hrun₁ henc₁
      cases hrun₁' with
      | cons hs hmid =>
        cases hrun₂ with
        | cons hs' hafter =>
          obtain ⟨_, _, -, hasks⟩ := requests_asks hs (hm.depths.symm ▸ hreq)
            (hm.dispatcher.trans hdisp)
          obtain ⟨_, _, -, hasks'⟩ := requests_asks hs' (hn.depths.symm ▸ hreq')
            (hn.dispatcher.trans hdisp)
          have hvm := hfresh.tenure_valid.changes (run_changes hrun₀)
          have hvn := hfresh.tenure_valid.changes (run_changes hrun₁)
          have ha : a < m.opened := ((hvm.current a).1 hasks.current).1
          have hb : b < n.opened := ((hvn.current b).1 hasks'.current).1
          have hmn := Tenure.held_changes (run_changes (.cons hs hmid)) hasks'.current
          have hnl := Tenure.held_changes (run_changes (.cons hs' hafter)) hcur
          have hbm : m.opened ≤ b := by
            refine hmn.2.resolve_left fun hmb => hne ?_
            exact Option.some.inj (hasks.current.symm.trans hmb)
          have han : n.opened ≤ a := by
            refine hnl.2.resolve_left fun hna => hne ?_
            exact (Option.some.inj (hasks'.current.symm.trans hna)).symm
          omega
  · cases mid with
    | nil =>
      obtain ⟨rfl, -⟩ := List.cons.inj h2
      exact hreq.unique hreq'
    | cons x mid =>
      obtain ⟨rfl, rfl⟩ := List.cons.inj h2
      exact absurd hmatch (hlast' label (by simp) a q hreq)

theorem LastOfAll.last {depths : JsonDepths} {a : ℕ} {identity payload : Raw} {q : MutationRequest}
    (h : LastOfAll depths trace a identity payload q) :
    LastRequest depths trace a identity payload q := by
  obtain ⟨before, label, after, h1, h2, h3, h4⟩ := h
  exact ⟨before, label, after, h1, h2, h3, fun label' hl q' => h4 label' hl a q'⟩

/-! ## Responses -/

/-- A response that encodes goes to the current attachment. -/
theorem deliverLocal_current {a : ℕ} {cause : AnswerCause} {r : Json} (hrel : l.released = false)
    (hcur : l.attachment = some a) (hatt : (l.heap a).detached = false)
    (hr : Answerable l.depths r) : l.deliverLocal cause r a = (l.deliver a (answerText cause r), none) := by
  obtain ⟨text, hd, hu⟩ := hr
  have htext : write compactUnicode r = text := by
    unfold dumps at hd
    split at hd
    · exact Option.some.inj hd
    · cases hd
  unfold deliverLocal
  rw [if_neg (by simp [hrel, hcur, hatt]), hd]
  dsimp only
  rw [if_pos hu, answerText, htext]

/-- What is delivered is placed, or the attachment is detached for want of room. -/
theorem deliver_placed {a : ℕ} (item : LiveText) (hatt : (l.heap a).detached = false) :
    placed a l (l.deliver a item) = [item] ∨
      ((l.deliver a item).heap a).detachReason = some .attachmentBackpressure := by
  unfold deliver
  split
  · right
    simp [LeaseAttachment.markDetached, hatt]
  · left
    exact placed_eq (by rw [modifyAttachment_heap_self])

theorem settleMutation_heap {identity : Raw} {record : LocalMutationRecord} {outcome : Outcome} :
    (l.settleMutation identity record outcome).1.heap = (deliverOutcomes (.mutation identity) outcome
      (l.withMutations (l.mutations.set identity (record.settle outcome))) record.waiters).1.heap := by
  unfold settleMutation
  split
  · rename_i hx
    rw [hx]
  · rename_i hx
    rw [hx]
    split <;> rfl

/-- When a mutation is settled, the one that waits for it is answered. -/
theorem settleMutation_placed {a : ℕ} {requestId : Json} {identity : Raw}
    {record : LocalMutationRecord} {outcome : Outcome} (hrel : l.released = false)
    (hcur : l.attachment = some a) (hatt : (l.heap a).detached = false)
    (hw : record.waiters = [(requestId, a)])
    (hr : Answerable l.depths (response requestId (outcomeMember outcome))) :
    placed a l (l.settleMutation identity record outcome).1 =
        [answerText (.mutation identity) (response requestId (outcomeMember outcome))] ∨
      ((l.settleMutation identity record outcome).1.heap a).detachReason =
        some .attachmentBackpressure := by
  have hdeliver := @deliverLocal_current
    (l.withMutations (l.mutations.set identity (record.settle outcome))) a (.mutation identity)
    (response requestId (outcomeMember outcome)) hrel hcur hatt hr
  have hplaced := deliver_placed
    (l := l.withMutations (l.mutations.set identity (record.settle outcome)))
    (answerText (.mutation identity) (response requestId (outcomeMember outcome))) hatt
  unfold placed at hplaced ⊢
  rw [settleMutation_heap, hw]
  unfold deliverOutcomes deliverOutcome
  rw [hdeliver]
  exact hplaced

theorem finishTask_settles {method : Str} {params : List (Str × Json)} {identity : Raw}
    {reply : DispatcherReply} {record : LocalMutationRecord} (hrel : l.released = false)
    (hget : l.mutations.get identity = some record) :
    l.finishTask (.mutation method params identity) reply =
      (l.withTasks (l.readTasks.erase (.mutation method params identity))).settleMutation identity
        record reply.outcome := by
  have hget' : Dict.get (l.withTasks (l.readTasks.erase
    (.mutation method params identity))).mutations identity = some record := hget
  unfold finishTask
  dsimp only
  rw [if_neg (by simp [withTasks, hrel]), hget']

/-- A request for a mutation does not reach the controller. -/
theorem local_kept (hdisp : l.hasReadDispatcher = true) {env : Surroundings} {a : ℕ} {text : Str}
    {out : LeaseOutput} {l' : Lease} (hs : Step l (.submit env a text, out) l') {method : Str}
    {request : List (Str × Json)}
    (hlocal : localMethod (loadsStrict l.depths text) = some (method, request))
    (hmut : method ∈ relayMutationMethods) : l'.websocket = l.websocket := by
  obtain ⟨-, hx⟩ := hs
  have hl' : l' = (l.feedText env a text).1 := (congrArg Prod.fst hx).symm
  subst hl'
  unfold localMethod at hlocal
  split at hlocal
  · rename_i request' hv
    split at hlocal
    · rename_i method' hm
      split at hlocal
      · rename_i hmem
        cases hlocal
        unfold feedText
        split
        · rfl
        · unfold submitText
          split
          · rfl
          · split
            · rfl
            · rw [hv]
              simp only [hm, hmem, hdisp, hmut, and_self, if_true]
              exact congrArg Book.websocket (startMutation_book _ _)
      · cases hlocal
    · cases hlocal
  · cases hlocal

/-- What a request for a mutation is answered at once. -/
theorem answeredAtOnce {q : MutationRequest} {outcome : Outcome} (h : l.mutationReply q = some outcome) :
    AnsweredAtOnce l q outcome := by
  unfold mutationReply at h
  split at h
  · rename_i record hget
    refine .inr ⟨record, hget, ?_⟩
    unfold LocalMutationRecord.reply at h
    split at h
    · rename_i hne
      exact .inl ⟨hne, (Option.some.inj h).symm⟩
    · rename_i he
      exact .inr ⟨not_not.1 he, h⟩
  · rename_i hget
    split at h
    · exact .inl ⟨hget, (Option.some.inj h).symm⟩
    · cases h

/-- Between two calls for one mutation its record is dropped, or the first call
    fails. -/
theorem invoked_once (hfresh : l₀.Fresh) (henc : ∀ label ∈ trace, Encodes l₀.depths label)
    {t₁ t₂ t₃ : List LeaseLabel} {first second : LeaseLabel} {m m' n n' : Lease}
    {q q' : MutationRequest} (htrace : trace = t₁ ++ first :: (t₂ ++ second :: t₃))
    (hrun₁ : Run l₀ t₁ m) (hs : Step m first m') (hrun₂ : Run m' t₂ n) (hs' : Step n second n')
    (h : Invokes q m m') (h' : Invokes q' n n') (hid : q.identity = q'.identity) :
    ∃ u ending v p p', t₂ = u ++ ending :: v ∧ Run m' u p ∧ Step p ending p' ∧
      (DropsMutation p q.identity p' ∨ Fails q.identity ending) := by
  have hkm := mutations_keyed_run hrun₁ hfresh.mutations_keyed
  have hkn := mutations_keyed_run hrun₂ ((step_tasks hkm hs).keyed hkm)
  obtain ⟨_, _, _, _, q₁, -, -, htask₁, -, hrec₁⟩ := invokes_step hkm hs h
  obtain ⟨_, _, _, _, q₂, -, hasks₂, htask₂, hnone₂, -⟩ := invokes_step hkn hs' h'
  have hid₁ : q₁.identity = q.identity := Option.some.inj (congrArg LocalTask.identity? htask₁)
  have hid₂ : q₂.identity = q.identity :=
    (Option.some.inj (congrArg LocalTask.identity? htask₂)).trans hid.symm
  rw [hid₁] at hrec₁
  rw [hid₂] at hnone₂
  -- the record that the first call makes is lost before the second
  obtain ⟨u, ending, v, p, p', rfl, hu, hp, hstep, hp', hv⟩ :=
    hrun₂.lost (P := fun s => (s.mutations.get q.identity).isSome) (by simp [hrec₁]) (by simp [hnone₂])
  have hrel : p.released = false := not_released_of_run (.cons hstep hv) hasks₂.released
  have hordered := (inOrder_run hfresh (hrun₁.append (.cons hs hu)) fun label hl => henc label (by
    rw [htrace]
    simp only [List.mem_append, List.mem_cons] at hl ⊢
    rcases hl with hl | hl | hl
    · exact .inl hl
    · exact .inr (.inl hl)
    · exact .inr (.inr (.inl (.inl hl))))).ordered hrel
  exact ⟨u, ending, v, p, p', rfl, hu, hstep, record_lost hordered hstep hrel hp hp'⟩

/-- **Mutations run at most once.**  At the end of every run of a lease that is not
    released, its dispatcher was called at most once for a mutation while that
    had a record, requests for it had the outcome of that call, and the last
    request of the current attachment has it when the call ends, unless there
    was no room for it. -/
theorem mutations_run_once (hfresh : l₀.Fresh) (hdisp : l₀.hasReadDispatcher = true)
    (hrun : Run l₀ trace l) (henc : ∀ label ∈ trace, Encodes l₀.depths label)
    (hrel : l.released = false) : MutationsOnce l₀ trace l := by
  have hin := inOrder_run hfresh hrun henc
  have hord := hin.ordered hrel
  have hwait := awaited_run hfresh hrun hdisp henc hrel
  have hv := hfresh.tenure_valid.changes (run_changes hrun)
  refine
    { once := fun _ _ _ _ _ _ _ _ _ _ _ htrace h1 h2 h3 h4 h5 h6 h7 =>
        invoked_once hfresh henc htrace h1 h2 h3 h4 h5 h6 h7
      recorded := standsFor_run hfresh hrun henc hrel
      repeated := fun _ _ _ _ _ _ _ hs hq hget => repeated_record hord hs hq hget
      responses := ?_
      completed := ?_
      pending := fun _ _ _ _ hs _ hget hnone => pending_record hord hs hrel hget hnone
      bounded := hord.bounded
      succeeded := hord.succeeded
      kept := fun _ _ _ _ _ _ _ hs hlocal hmut =>
        local_kept (hin.dispatcher.trans hdisp) hs hlocal hmut }
  · intro label l' a item identity r hs hitem horigin
    obtain ⟨-, hfits⟩ := placed_fits hs hitem
    rcases hfits with ⟨-, hframe⟩ | ⟨cause, r', howes, rfl⟩
    · simp [LiveText.isFrame, horigin] at hframe
    · cases horigin
      obtain ⟨e, out⟩ := label
      cases e with
      | submit env b text =>
        obtain ⟨rfl, q, outcome, hq, hi, ho, rfl⟩ := howes
        exact .inl ⟨env, text, q, outcome, rfl, hq, hi, rfl, answeredAtOnce ho⟩
      | taskDone task reply =>
        cases task with
        | read => exact howes.elim
        | mutation method params i =>
          obtain ⟨rfl, record, hget, w, hw, rfl, rfl⟩ := howes
          obtain ⟨record', hget', hpend⟩ := hord.record hs.1
          obtain rfl : record = record' := Option.some.inj (hget.symm.trans hget')
          obtain ⟨b, q, hwaiters, hlast⟩ := hwait i record hget hpend
          obtain rfl : w = (q.requestId, b) := by simpa [hwaiters] using hw
          have hout : out = .done := (congrArg Prod.snd hs.2).symm
          exact .inr ⟨method, params, reply, record, q, by rw [hout], hget, hlast.last, rfl⟩
      | _ => exact howes.elim
  · intro method params identity reply l' hs hencodes
    obtain ⟨record, hget, hpend⟩ := hord.record hs.1
    refine ⟨record, hget, hpend, fun a q hcur hlast => ?_⟩
    obtain ⟨b, q₀, hwaiters, hall⟩ := hwait identity record hget hpend
    obtain ⟨rfl, rfl⟩ := lastRequest_ofAll hfresh hrun hdisp henc hcur hlast hall
    have hvalid := hord.valid _ _ hget (q.requestId, a) (by simp [hwaiters])
    have hl' : l' = (l.finishTask (.mutation method params identity) reply).1 :=
      (congrArg Prod.fst hs.2).symm
    rw [hl', finishTask_settles hrel hget]
    exact settleMutation_placed (l := l.withTasks (l.readTasks.erase _)) hrel hcur ((hv.current a).1 hcur).2 hwaiters
      (hencodes _ _ rfl _ hvalid)

/-- A response to a local request, with a result that encodes. -/
theorem answerable_result {depths : JsonDepths} {requestId v : Json}
    (hr : validLocalRequestId requestId = true) (hv : v.encodable = true)
    (hd : v.depth < depths.write) : Answerable depths (response requestId (lit "result", v)) := by
  obtain ⟨hdepth, hencodable⟩ := validLocalRequestId_spec hr
  have hname : (utf8 (lit "result")).isSome := by decide
  rw [answerable_iff, response_depth, response_encodable, hdepth, Nat.zero_max]
  exact ⟨hd, hencodable, hname, hv⟩

/-- A request to create a folder, and the same again. -/
def folderRequest : Str :=
  write compactUnicode (.obj
    [(lit "jsonrpc", .str (lit "2.0")), (lit "id", .int 1),
     (lit "method", .str (lit "relay.folders.create"))])

theorem folderRequest_asks :
    (mutationRequest ({} : Lease).depths (loadsStrict ({} : Lease).depths folderRequest)).isSome := by
  decide +kernel

/-- The mutation it asks for. -/
def folderMutation : MutationRequest :=
  (mutationRequest ({} : Lease).depths (loadsStrict ({} : Lease).depths folderRequest)).get
    folderRequest_asks

/-- A folder is created while a device asks for it twice. -/
def folderCreated : List LeaseEvent :=
  [.attach (.standing 0 fun _ => true) 0 {}, .submit (.standing 0 fun _ => true) 0 folderRequest,
   .submit (.standing 0 fun _ => true) 0 folderRequest, .taskDone folderMutation.task (.result .null)]

theorem folderCreated_executes : (execute { hasReadDispatcher := true } folderCreated).any (fun r =>
    decide (r.1.released = false ∧ r.1.mutations.length = 1 ∧ (r.1.heap 0).live.length = 1)) = true := by
  decide +kernel


theorem mutations_run_once_folder : ∃ trace l, Run { hasReadDispatcher := true } trace l ∧
    l.mutations.length = 1 ∧ (l.heap 0).live.length = 1 ∧
    MutationsOnce { hasReadDispatcher := true } trace l := by
  obtain ⟨r, hr, hcheck⟩ := (Option.any_eq_true _ _).1 folderCreated_executes
  obtain ⟨hrel, hlength, hlive⟩ := of_decide_eq_true hcheck
  refine ⟨r.2, r.1, run_of_execute hr, hlength, hlive, mutations_run_once
    ⟨rfl, rfl, rfl, rfl, rfl, rfl, rfl, rfl, rfl, rfl, rfl, rfl, rfl, rfl⟩ rfl (run_of_execute hr) ?_
    hrel⟩
  intro label hlabel task reply htask requestId hvalid
  have hmem : label.1 ∈ folderCreated := by
    rw [← execute_events hr]
    exact List.mem_map_of_mem hlabel
  obtain ⟨-, rfl⟩ : task = folderMutation.task ∧ reply = .result .null := by
    simpa [folderCreated, htask] using hmem
  exact answerable_result hvalid (by decide) (by decide)

/-- A lease whose attachments have room for one text. -/
def crowdedLease : Lease where
  hasReadDispatcher := true
  limits := { LeaseLimits.standard with maxEvents := 1, maxEvents_pos := by decide }

/-- The lease that is attached to, that is asked, and that then gets a frame. -/
def crowdedAttached : Lease := (crowdedLease.perform (.attach (.standing 0 fun _ => true) 0 {})).1
def crowdedAsked : Lease := (crowdedAttached.feedText (.standing 0 fun _ => true) 0 folderRequest).1
def crowdedOut : Lease := (crowdedAsked.pump (.standing 0 fun _ => true) 0 (lit "x")).1
def crowdedDone : Lease := (crowdedOut.finishTask folderMutation.task (.result .null)).1

theorem crowded_asks : crowdedAttached.Step (.submit (.standing 0 fun _ => true) 0 folderRequest,
    .submitted (crowdedAttached.sent crowdedAsked folderRequest)) crowdedAsked :=
  submit_step (by decide +kernel) (by decide +kernel)

theorem crowded_frame : crowdedAsked.Step (.frame (.standing 0 fun _ => true) 0 (lit "x"), .done) crowdedOut :=
  frame_step (by decide +kernel)

theorem crowded_done : folderMutation.task ∈ crowdedOut.readTasks ∧ crowdedOut.released = false ∧
    crowdedOut.attachment = some 0 ∧ placed 0 crowdedOut crowdedDone = [] ∧
    ∀ item ∈ (crowdedDone.heap 0).live, item.isFrame = true := by decide +kernel

theorem folderMutation_asks : mutationRequest crowdedLease.depths
    (loadsStrict crowdedLease.depths folderRequest) = some folderMutation := (Option.some_get _).symm

/-- The last request of the current attachment is not answered when its call ends,
    as a frame has the room. -/
theorem last_request_crowded_out : ∃ trace l, Run crowdedLease trace l ∧ l.released = false ∧
    l.attachment = some 0 ∧ LastRequest crowdedLease.depths trace 0 folderMutation.identity
      folderMutation.payload folderMutation ∧
    ∃ l', Step l (.taskDone folderMutation.task (.result .null), .done) l' ∧
      placed 0 l l' = [] ∧ ∀ item ∈ (l'.heap 0).live, item.isFrame = true := by
  obtain ⟨htask, hrel, hcur, hplaced, hlive⟩ := crowded_done
  have hattach : crowdedLease.Step (.attach (.standing 0 fun _ => true) 0 {},
    (crowdedLease.perform (.attach (.standing 0 fun _ => true) 0 {})).2) crowdedAttached := ⟨trivial, rfl⟩
  have hrun := Run.cons hattach (.cons crowded_asks (.single crowded_frame))
  refine ⟨_, crowdedOut, hrun, hrel, hcur, ?_, crowdedDone, ⟨htask, rfl⟩, hplaced, hlive⟩
  refine ⟨[_], _, [_], rfl, ⟨_, _, _, rfl, folderMutation_asks⟩, ⟨rfl, rfl⟩, ?_⟩
  rintro label hlabel q ⟨env, text, forwarded, rfl, -⟩
  simp at hlabel

end Runs

end MercuryRelay
