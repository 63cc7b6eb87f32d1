/-
  Who is answered (session_lease.py, `_deliver_local`).

  A response the relay makes goes to the attachment that asked for it, and to no
  other, however late it is.

  * `step_queues`: what a step can do to the live queues;
  * `answers_stay`: what is placed in a queue was asked for there.
-/
import MercuryRelay.Lease.Mutations
import MercuryRelay.Lease.Tenure

set_option autoImplicit false

namespace MercuryRelay

open Python Lease Transition

/-- What a step adds to the live queue of `a`. -/
def placed (a : ℕ) (l l' : Lease) : List LiveText :=
  (l'.heap a).live.drop (l.heap a).live.length

/-- The event submits a request that the relay answers: a request to read, one
    for a mutation, or a duplicate of a submission. -/
def Asks (l : Lease) (label : LeaseLabel) (cause : AnswerCause) (requestId : Json) (a : ℕ) : Prop :=
  ∃ env text, label.1 = .submit env a text ∧
    match cause with
    | .read => readRequest (loadsStrict l.depths text) = some requestId
    | .mutation identity => ∃ q, mutationRequest l.depths (loadsStrict l.depths text) = some q ∧
        q.identity = identity ∧ q.requestId = requestId
    | .submission sid => parseSubmission (loadsStrict l.depths text) = .ok (some (sid, requestId)) ∧
        (l.submissions.get sid).isSome

/-- The attachment `a` asked, at some point of a run. -/
def AskedIn (l₀ : Lease) (trace : List LeaseLabel) (cause : AnswerCause) (requestId : Json)
    (a : ℕ) : Prop :=
  ∃ before label after m, trace = before ++ label :: after ∧ Run l₀ before m ∧
    Asks m label cause requestId a

/-! ## The live queues -/

section Queues

variable {l l' : Lease} {P : ℕ → LiveText → Prop}

/-- Queues get new items that satisfy `P`, and only the current one gets any. -/
def Grows (P : ℕ → LiveText → Prop) (l l' : Lease) : Prop :=
  ∀ a, ∃ new, (l'.heap a).live = (l.heap a).live ++ new ∧ ∀ item ∈ new, l.attachment = some a ∧ P a item

/-- The current attachment, if there is one, is as before. -/
def Stays (l l' : Lease) : Prop := ∀ a, l'.attachment = some a → l.attachment = some a

theorem Grows.refl (l : Lease) : Grows P l l := fun _ => ⟨[], by simp, by simp⟩

theorem Grows.trans {l'' : Lease} (h : Grows P l l') (hs : Stays l l') (h' : Grows P l' l'') :
    Grows P l l'' := by
  intro a
  obtain ⟨new, h1, h2⟩ := h a
  obtain ⟨new', h1', h2'⟩ := h' a
  refine ⟨new ++ new', by rw [h1', h1, List.append_assoc], fun item hi => ?_⟩
  rcases List.mem_append.1 hi with hi | hi
  · exact h2 item hi
  · exact ⟨hs a (h2' item hi).1, (h2' item hi).2⟩

theorem Grows.of_heap (h : l'.heap = l.heap) : Grows P l l' := fun a => ⟨[], by simp [h], by simp⟩

theorem detach_stays (l : Lease) (a : ℕ) (reason : DetachReason) : Stays l (l.detach a reason) := by
  intro b hb
  rw [detach_attachment] at hb
  split at hb
  · cases hb
  · exact hb

theorem deliver_stays (l : Lease) (a : ℕ) (item : LiveText) : Stays l (l.deliver a item) := by
  unfold deliver
  split
  · exact detach_stays l a _
  · exact fun _ h => h

theorem answered_stays {Q : AnswerCause → Json → ℕ → Prop} (h : Answered Q l l') : Stays l l' := by
  induction h with
  | quiet h =>
    intro a ha
    exact (congrArg (fun u : Upkeep => u.delivery.attachment) h).symm.trans ha
  | answer => exact deliver_stays _ _ _
  | trans _ _ ih ih' => exact fun a ha => ih a (ih' a ha)

/-- An attachment that is detached for another reason keeps its queue. -/
theorem backpressure_live (att : LeaseAttachment) :
    (att.markDetached .attachmentBackpressure).live = att.live := by
  unfold LeaseAttachment.markDetached
  dsimp only
  split <;> split <;> first | rfl | simp_all

/-- A queue that an attachment loses its place with keeps its items, or is dropped. -/
theorem markDetached_suffix (att : LeaseAttachment) (reason : DetachReason) :
    (att.markDetached reason).live <:+ att.live := by
  unfold LeaseAttachment.markDetached
  dsimp only
  split
  · split <;> exact List.nil_suffix
  · split <;> exact List.suffix_rfl

theorem deliver_grows {a : ℕ} {item : LiveText} (ha : l.attachment = some a) (hitem : P a item) :
    Grows P l (l.deliver a item) := by
  intro b
  unfold deliver
  split
  · refine ⟨[], ?_, by simp⟩
    rw [List.append_nil]
    by_cases hb : b = a
    · subst hb
      rw [detach_heap_self, backpressure_live]
    · rw [detach_heap_of_ne l a _ hb]
  · by_cases hb : b = a
    · subst hb
      refine ⟨[item], by rw [modifyAttachment_heap_self], ?_⟩
      rintro x hx
      obtain rfl : x = item := by simpa using hx
      exact ⟨ha, hitem⟩
    · exact ⟨[], by rw [modifyAttachment_heap_of_ne l a _ hb, List.append_nil], by simp⟩

/-- A response, as it is queued. -/
def answerText (cause : AnswerCause) (r : Json) : LiveText :=
  ⟨write compactUnicode r, .answer cause r⟩

theorem answered_grows {Q : AnswerCause → Json → ℕ → Prop} (h : Answered Q l l') :
    Grows (fun a item => ∃ cause r, Q cause r a ∧ item = answerText cause r) l l' := by
  induction h with
  | quiet h => exact .of_heap (congrArg (fun u : Upkeep => u.delivery.heap) h)
  | answer ha hq => exact deliver_grows ha ⟨_, _, hq, rfl⟩
  | trans h1 _ ih ih' => exact ih.trans (answered_stays h1) ih'

theorem Grows.mono {P' : ℕ → LiveText → Prop} (h : Grows P l l') (hP : ∀ a item, P a item → P' a item) :
    Grows P' l l' := by
  intro a
  obtain ⟨new, h1, h2⟩ := h a
  exact ⟨new, h1, fun item hi => ⟨(h2 item hi).1, hP a item (h2 item hi).2⟩⟩

theorem appendEvent_grows (l : Lease) (event : RetainedEvent) :
    Grows (fun _ item => item.isFrame = true) l (l.appendEvent event) := by
  rcases appendEvent_spec l event with ⟨-, hd⟩ | ⟨a, ha, hd⟩
  · exact .of_heap (congrArg Delivery.heap hd)
  · rw [hd]
    exact deliver_grows (l := l.ringed event) ha rfl

/-- The item of a live queue among what a consumer gets. -/
def Received.live? : Received → Option LiveText
  | .live item => some item
  | _ => none

theorem pending_live (leaseId : Str) (att : LeaseAttachment) :
    (att.pending leaseId).filterMap Received.live? = att.live := by
  have hnone : ∀ {α : Type} (xs : List α) (f : α → Received), (∀ x, (f x).live? = none) →
      (xs.map f).filterMap Received.live? = [] := by
    intro α xs f hf
    rw [List.filterMap_map, List.filterMap_eq_nil_iff]
    exact fun x _ => hf x
  unfold LeaseAttachment.pending
  rw [List.filterMap_append, List.filterMap_append, List.filterMap_append, hnone _ _ fun _ => rfl,
    hnone _ _ fun _ => rfl, hnone _ _ fun _ => rfl, List.filterMap_map]
  exact List.filterMap_some

/-- What may be placed in a queue: a frame that is retained, or an answer that is
    owed. -/
def Fits (l : Lease) (label : LeaseLabel) (a : ℕ) (item : LiveText) : Prop :=
  (∃ env now text, label = (.frame env now text, .done)) ∧ item.isFrame = true ∨
    ∃ cause r, Owes l label cause r a ∧ item = answerText cause r

theorem release_suffix (l : Lease) (reason : String) (a : ℕ) :
    ((l.release reason).heap a).live <:+ (l.heap a).live := by
  unfold release
  split
  · exact List.suffix_rfl
  · dsimp only
    split
    · exact List.suffix_rfl
    · rename_i b _
      by_cases hb : a = b
      · subst hb
        rw [modifyAttachment_heap_self]
        exact markDetached_suffix _ _
      · rw [modifyAttachment_heap_of_ne _ _ _ hb]

/-- A release keeps a queue, or drops it. -/
theorem release_live (l : Lease) (reason : String) (a : ℕ) :
    ((l.release reason).heap a).live = (l.heap a).live ∨ ((l.release reason).heap a).live = [] := by
  unfold release
  split
  · exact .inl rfl
  · dsimp only
    split
    · exact .inl rfl
    · rename_i b _
      by_cases hb : a = b
      · subst hb
        rw [modifyAttachment_heap_self]
        right
        unfold LeaseAttachment.markDetached
        dsimp only
        rw [if_pos (Or.inl rfl)]
        split <;> rfl
      · rw [modifyAttachment_heap_of_ne _ _ _ hb]
        exact .inl rfl

/-- **What a step can do to a live queue**: it gets new items, if it is the
    current one, or it loses some. -/
theorem step_queues {label : LeaseLabel} (hs : Step l label l') (a : ℕ) :
    (∃ new, (l'.heap a).live = (l.heap a).live ++ new ∧
      ∀ item ∈ new, l.attachment = some a ∧ Fits l label a item) ∨
    (l'.heap a).live <:+ (l.heap a).live := by
  have howed : ∀ {m m' : Lease}, Answered (Owes l label) m m' → Grows (Fits l label) m m' :=
    fun h => (answered_grows h).mono fun _ _ h => .inr h
  cases step_moves hs with
  | answered _ hl => exact .inl (howed hl a)
  | @detached b reason =>
    right
    by_cases hb : a = b
    · subst hb
      rw [detach_heap_self]
      exact markDetached_suffix _ _
    · rw [detach_heap_of_ne l b reason hb]
  | released => exact .inr (release_suffix _ _ _)
  | finished => exact .inr List.suffix_rfl
  | @retained env now text m size hl =>
    have hm : Grows (Fits l (.frame env now text, .done)) l.stamp m := howed hl
    exact .inl (hm.trans (answered_stays hl)
      ((appendEvent_grows m _).mono fun _ _ h => .inl ⟨⟨env, now, text, rfl⟩, h⟩) a)
  | @failed env now text m fault hl =>
    have hm : Grows (Fits l (.frame env now text, .raised fault)) l.stamp m := howed hl
    rcases release_live m "controller_failed" a with h | h
    · rw [h]
      exact .inl (hm a)
    · rw [h]
      exact .inr List.nil_suffix
  | @took b item att _ _ hpend =>
    right
    by_cases hb : a = b
    · subst hb
      rw [modifyAttachment_heap_self]
      have hlive := congrArg (List.filterMap Received.live?) hpend
      rw [pending_live, List.filterMap_cons] at hlive
      rw [hlive, ← pending_live l.leaseId att]
      split
      · exact List.suffix_rfl
      · exact List.suffix_cons _ _
    · rw [modifyAttachment_heap_of_ne _ _ _ hb]
  | @attached env now request m snapshot _ hsnap =>
    right
    have hd := takeSnapshot_delivery (l.trim now).1 env request.recovery
    rw [hsnap] at hd
    have hheap : m.heap = l.heap := congrArg Delivery.heap hd
    show (if a = m.opened then _ else m.replaceAttachment.heap a).live <:+ _
    split
    · exact List.nil_suffix
    · unfold replaceAttachment
      split
      · rw [hheap]
      · rename_i b _
        by_cases hb : a = b
        · subst hb
          rw [modifyAttachment_heap_self, hheap]
          exact markDetached_suffix _ _
        · rw [modifyAttachment_heap_of_ne _ _ _ hb, hheap]
  | started =>
    have hheap : l.start.heap = l.heap := congrArg Delivery.heap (start_delivery l)
    rw [hheap]
    exact .inr List.suffix_rfl
  | elapsed => exact .inr List.suffix_rfl
  | @resumed t =>
    right
    rcases resumeExpiry_spec l t with he | he
    · rw [he]
    · rw [he]
      exact release_suffix { l with expiry := l.expiry.finish t } _ _

end Queues

/-! ## Requests that wait -/

/-- Everything that waits for an answer, or is one, was asked for there. -/
structure Inquired (asked : AnswerCause → Json → ℕ → Prop) (l : Lease) : Prop where
  waiters : ∀ sid record, l.submissions.get sid = some record → ∀ w ∈ record.waiters,
    asked (.submission sid) w.1 w.2
  mutations : ∀ identity record, l.mutations.get identity = some record → ∀ w ∈ record.waiters,
    asked (.mutation identity) w.1 w.2
  reads : ∀ method params requestId a, .read method params requestId a ∈ l.readTasks →
    asked .read requestId a
  queues : ∀ a < l.opened, ∀ item ∈ (l.heap a).live, ∀ cause r, item.origin = .answer cause r →
    item = answerText cause r ∧
      ∃ requestId outcome, r = response requestId (outcomeMember outcome) ∧ asked cause requestId a

section Inquired

variable {l l' : Lease} {label : LeaseLabel} {asked asked' : AnswerCause → Json → ℕ → Prop}

theorem askedAgain_waiters {record : LocalMutationRecord} {q : MutationRequest} {a : ℕ} {w : Waiter}
    (h : w ∈ (record.askedAgain q a).waiters) : w ∈ record.waiters ∨ w = (q.requestId, a) := by
  unfold LocalMutationRecord.askedAgain at h
  split at h
  · unfold LocalMutationRecord.ask at h
    split at h
    · exact .inl h
    · exact .inr (by simpa using h)
  · exact .inl h

theorem Lease.MakesRoom.get_some {d : Dict Raw LocalMutationRecord} (h : MakesRoom l d)
    {identity : Raw} {record : LocalMutationRecord} (hget : Dict.get d identity = some record) :
    l.mutations.get identity = some record := by
  cases h with
  | room => exact hget
  | evicted =>
    rw [Dict.get_remove] at hget
    split at hget
    · cases hget
    · exact hget

/-- The waiters of submissions go on to be those that asked. -/
theorem waiters_step (hk : l.submissions.Keyed) (hs : Step l label l')
    (h : ∀ sid record, l.submissions.get sid = some record → ∀ w ∈ record.waiters,
      asked (.submission sid) w.1 w.2)
    (hold : ∀ cause r a, asked cause r a → asked' cause r a)
    (hnew : ∀ cause r a, Asks l label cause r a → asked' cause r a) :
    ∀ sid record, l'.submissions.get sid = some record → ∀ w ∈ record.waiters,
      asked' (.submission sid) w.1 w.2 := by
  intro sid record hget w hw
  have hkeep : ∀ {d : Dict Str SubmissionRecord}, Evicts l d → Dict.get d sid = some record →
      asked' (.submission sid) w.1 w.2 := by
    intro d hd hget'
    cases hd with
    | room => exact hold _ _ _ (h sid record hget' w hw)
    | evicted =>
      rw [Dict.get_remove] at hget'
      split at hget'
      · cases hget'
      · exact hold _ _ _ (h sid record hget' w hw)
  have hset : ∀ {d : Dict Str SubmissionRecord} {sid' requestId}, Evicts l d →
      Dict.get (d.set sid' { requestId := requestId }) sid = some record →
      asked' (.submission sid) w.1 w.2 := by
    intro d sid' requestId hd hget'
    rw [Dict.get_set] at hget'
    split at hget'
    · cases hget'
      cases hw
    · exact hkeep hd hget'
  cases step_records hk hs with
  | kept hsub => exact hold _ _ _ (h sid record (hsub ▸ hget) w hw)
  | submitted _ hf =>
    cases hf with
    | forwarded hd hsub => exact hset hd (hsub ▸ hget)
    | refused hd hsub => exact hkeep hd (hsub ▸ hget)
    | rejected hd hsub => exact hset hd (hsub ▸ hget)
    | exhausted => exact hold _ _ _ (h sid record hget w hw)
  | @waiting env a text sid' requestId record' _ hp _ hget' _ hsub =>
    rw [hsub, Dict.get_set] at hget
    split at hget
    · rename_i he
      subst he
      cases hget
      rcases Lease.await_waiters hw with hw | rfl
      · exact hold _ _ _ (h _ record' hget' w hw)
      · exact hnew _ _ _ ⟨env, text, rfl, hp, by simp [hget']⟩
    · exact hold _ _ _ (h sid record hget w hw)
  | settled _ hsub =>
    rw [hsub, Dict.get_set] at hget
    split at hget
    · cases hget
      cases hw
    · exact hold _ _ _ (h sid record hget w hw)
  | cleared _ hsub =>
    rw [hsub] at hget
    cases hget

/-- The waiters of mutations, and the tasks that read, go on to be those that
    asked. -/
theorem tasks_step (hk : l.mutations.Keyed) (hs : Step l label l')
    (hm : ∀ identity record, l.mutations.get identity = some record → ∀ w ∈ record.waiters,
      asked (.mutation identity) w.1 w.2)
    (hr : ∀ method params requestId a, .read method params requestId a ∈ l.readTasks →
      asked .read requestId a)
    (hold : ∀ cause r a, asked cause r a → asked' cause r a)
    (hnew : ∀ cause r a, Asks l label cause r a → asked' cause r a) :
    (∀ identity record, l'.mutations.get identity = some record → ∀ w ∈ record.waiters,
      asked' (.mutation identity) w.1 w.2) ∧
    (∀ method params requestId a, .read method params requestId a ∈ l'.readTasks →
      asked' .read requestId a) := by
  have hm' : ∀ {identity record w}, l.mutations.get identity = some record → w ∈ record.waiters →
      asked' (.mutation identity) w.1 w.2 := fun hg hw => hold _ _ _ (hm _ _ hg _ hw)
  have hr' : ∀ {method params requestId a}, .read method params requestId a ∈ l.readTasks →
      asked' .read requestId a := fun h => hold _ _ _ (hr _ _ _ _ h)
  have herase : ∀ {task method params requestId a},
      .read method params requestId a ∈ l.readTasks.erase task → asked' .read requestId a :=
    fun h => hr' (List.mem_of_mem_erase h)
  have hdesk : ∀ {d : Desk}, l'.desk = d → l'.mutations = d.mutations ∧ l'.readTasks = d.readTasks :=
    fun h => ⟨congrArg Desk.mutations h, congrArg Desk.readTasks h⟩
  cases step_tasks hk hs with
  | kept hd =>
    obtain ⟨h1, h2⟩ := hdesk hd
    rw [h1, h2]
    exact ⟨fun _ _ hg _ hw => hm' hg hw, fun _ _ _ _ h => hr' h⟩
  | @reading env a text requestId method params _ _ _ hreq hd =>
    obtain ⟨h1, h2⟩ := hdesk hd
    rw [h1, h2]
    refine ⟨fun _ _ hg _ hw => hm' hg hw, fun method' params' requestId' b h => ?_⟩
    rcases List.mem_append.1 h with h | h
    · exact hr' h
    · obtain ⟨-, -, rfl, rfl⟩ : method' = method ∧ params' = params ∧ requestId' = requestId ∧ b = a := by
        simpa using h
      exact hnew _ _ _ ⟨env, text, rfl, hreq⟩
  | @repeated env a text q record' _ _ hq hget' hd _ =>
    obtain ⟨h1, h2⟩ := hdesk hd
    rw [h1, h2]
    refine ⟨fun identity record hg w hw => ?_, fun _ _ _ _ h => hr' h⟩
    rw [Dict.get_set, Dict.get_moveToEnd] at hg
    split at hg
    · rename_i he
      subst he
      cases hg
      rcases askedAgain_waiters hw with hw | rfl
      · exact hm' hget' hw
      · exact hnew _ _ _ ⟨env, text, rfl, q, hq.request, rfl, rfl⟩
    · exact hm' hg hw
  | @begun env a text q d _ _ hq _ hroom hd =>
    obtain ⟨h1, h2⟩ := hdesk hd
    rw [h1, h2]
    refine ⟨fun identity record hg w hw => ?_, fun _ _ _ _ h => ?_⟩
    · rw [Dict.get_set] at hg
      split at hg
      · rename_i he
        subst he
        cases hg
        obtain rfl : w = (q.requestId, a) := by simpa [MutationRequest.record] using hw
        exact hnew _ _ _ ⟨env, text, rfl, q, hq.request, rfl, rfl⟩
      · exact hm' (hroom.get_some hg) hw
    · rcases List.mem_append.1 h with h | h
      · exact hr' h
      · simp [MutationRequest.task] at h
  | ended _ hd =>
    obtain ⟨h1, h2⟩ := hdesk hd
    rw [h1, h2]
    exact ⟨fun _ _ hg _ hw => hm' hg hw, fun _ _ _ _ h => herase h⟩
  | settled _ _ hd =>
    obtain ⟨h1, h2⟩ := hdesk hd
    rw [h1, h2]
    refine ⟨fun identity record hg w hw => ?_, fun _ _ _ _ h => herase h⟩
    rw [Dict.get_set] at hg
    split at hg
    · cases hg
      cases hw
    · exact hm' hg hw
  | failed _ _ _ hd =>
    obtain ⟨h1, h2⟩ := hdesk hd
    rw [h1, h2]
    refine ⟨fun identity record hg w hw => ?_, fun _ _ _ _ h => herase h⟩
    rw [Dict.get_remove] at hg
    split at hg
    · cases hg
    · exact hm' hg hw
  | cleared _ hd =>
    obtain ⟨h1, h2⟩ := hdesk hd
    rw [h1, h2]
    refine ⟨fun identity record hg w hw => ?_, fun _ _ _ _ h => ?_⟩
    · cases hg
    · cases h

/-- What a step owes was asked for, by a request that waited or in this step. -/
theorem owes_asked (hk : l.submissions.Keyed) (hen : l.Enabled label.1) (h : Inquired asked l)
    (hold : ∀ cause r a, asked cause r a → asked' cause r a)
    (hnew : ∀ cause r a, Asks l label cause r a → asked' cause r a) {cause : AnswerCause} {r : Json}
    {a : ℕ} (ho : Owes l label cause r a) :
    ∃ requestId outcome, r = response requestId (outcomeMember outcome) ∧ asked' cause requestId a := by
  obtain ⟨e, out⟩ := label
  cases cause with
  | submission sid =>
    cases e with
    | submit env b text =>
      obtain ⟨rfl, requestId, record, outcome, hp, hget, -, rfl⟩ := ho
      exact ⟨requestId, outcome, rfl, hnew _ _ _ ⟨env, text, rfl, hp, by simp [hget]⟩⟩
    | frame env now text =>
      obtain ⟨record, outcome, hset, w, hw, rfl, rfl⟩ := ho
      exact ⟨w.1, outcome, rfl, hold _ _ _ (h.waiters sid record (settles_some hk hset).1 w hw)⟩
    | _ => exact ho.elim
  | mutation identity =>
    cases e with
    | submit env b text =>
      obtain ⟨rfl, q, outcome, hq, rfl, -, rfl⟩ := ho
      exact ⟨q.requestId, outcome, rfl, hnew _ _ _ ⟨env, text, rfl, q, hq, rfl, rfl⟩⟩
    | taskDone task reply =>
      cases task with
      | read => exact ho.elim
      | mutation method params i =>
        obtain ⟨rfl, record, hget, w, hw, rfl, rfl⟩ := ho
        exact ⟨w.1, reply.outcome, rfl, hold _ _ _ (h.mutations i record hget w hw)⟩
    | _ => exact ho.elim
  | read =>
    cases e with
    | submit env b text =>
      obtain ⟨rfl, requestId, hreq, rfl⟩ := ho
      exact ⟨requestId, _, rfl, hnew _ _ _ ⟨env, text, rfl, hreq⟩⟩
    | taskDone task reply =>
      cases task with
      | read method params requestId b =>
        obtain ⟨rfl, rfl⟩ := ho
        exact ⟨requestId, reply.outcome, rfl, hold _ _ _ (h.reads _ _ _ _ hen)⟩
      | mutation => exact ho.elim
    | _ => exact ho.elim

theorem release_opened (l : Lease) (reason : String) : (l.release reason).opened = l.opened := by
  unfold release
  split
  · rfl
  · dsimp only
    split <;> rfl

/-- A new attachment has an empty queue. -/
theorem opened_step (hs : Step l label l') {a : ℕ} (ha : a < l'.opened) :
    a < l.opened ∨ (l'.heap a).live = [] := by
  have hsame : l'.opened = l.opened → a < l.opened ∨ (l'.heap a).live = [] := fun h => .inl (h ▸ ha)
  cases step_moves hs with
  | answered _ hl => exact hsame hl.sameLog.opened
  | detached => exact hsame (detach_sameLog _ _ _).opened
  | released => exact hsame (release_opened _ _)
  | finished => exact .inl ha
  | retained hl => exact hsame ((appendEvent_sameLog _ _).opened.trans hl.sameLog.opened)
  | failed hl => exact hsame ((release_opened _ _).trans hl.sameLog.opened)
  | took => exact .inl ha
  | @attached env now request m snapshot _ hsnap =>
    have hd := takeSnapshot_delivery (l.trim now).1 env request.recovery
    rw [hsnap] at hd
    have hop : m.opened = l.opened := congrArg Delivery.opened hd
    have hlt : a < m.opened + 1 := ha
    by_cases hnew : a = m.opened
    · right
      rw [hnew, publish_heap_new]
      rfl
    · left
      omega
  | started => exact hsame (congrArg Delivery.opened (start_delivery l))
  | elapsed => exact .inl ha
  | @resumed t =>
    refine hsame ?_
    rcases resumeExpiry_spec l t with he | he
    · rw [he]
    · rw [he, release_opened]

theorem Inquired.step (hk : l.submissions.Keyed) (hkm : l.mutations.Keyed) (hs : Step l label l')
    (h : Inquired asked l) (hold : ∀ cause r a, asked cause r a → asked' cause r a)
    (hnew : ∀ cause r a, Asks l label cause r a → asked' cause r a) : Inquired asked' l' := by
  obtain ⟨hm, hr⟩ := tasks_step hkm hs h.mutations h.reads hold hnew
  refine ⟨waiters_step hk hs h.waiters hold hnew, hm, hr, fun a ha item hitem cause r ho => ?_⟩
  have hqueued : a < l.opened → item ∈ (l.heap a).live → item = answerText cause r ∧
      ∃ requestId outcome, r = response requestId (outcomeMember outcome) ∧
        asked' cause requestId a := by
    intro hlt hmem
    obtain ⟨h1, requestId, outcome, h2, h3⟩ := h.queues a hlt item hmem cause r ho
    exact ⟨h1, requestId, outcome, h2, hold _ _ _ h3⟩
  rcases opened_step hs ha with hlt | hnil
  · rcases step_queues hs a with ⟨new, hlive, hfits⟩ | hsuffix
    · rw [hlive] at hitem
      rcases List.mem_append.1 hitem with hmem | hmem
      · exact hqueued hlt hmem
      · rcases (hfits item hmem).2 with ⟨-, hframe⟩ | ⟨cause', r', howes, rfl⟩
        · simp [LiveText.isFrame, ho] at hframe
        · cases ho
          exact ⟨rfl, owes_asked hk hs.1 h hold hnew howes⟩
    · exact hqueued hlt (hsuffix.mem hitem)
  · rw [hnil] at hitem
    cases hitem

end Inquired

/-! ## Runs -/

section Runs

variable {l₀ l : Lease} {trace : List LeaseLabel}

theorem AskedIn.snoc {cause : AnswerCause} {requestId : Json} {a : ℕ} (label : LeaseLabel)
    (h : AskedIn l₀ trace cause requestId a) : AskedIn l₀ (trace ++ [label]) cause requestId a := by
  obtain ⟨before, l, after, m, rfl, h1, h2⟩ := h
  exact ⟨before, l, after ++ [label], m, by simp, h1, h2⟩

theorem askedIn_last (hrun : Run l₀ trace l) {label : LeaseLabel} {cause : AnswerCause}
    {requestId : Json} {a : ℕ} (h : Asks l label cause requestId a) :
    AskedIn l₀ (trace ++ [label]) cause requestId a := ⟨trace, label, [], l, by simp, hrun, h⟩

theorem Lease.Fresh.submissions_keyed (h : l.Fresh) : l.submissions.Keyed := by
  rw [h.submissions]
  exact Dict.keyed_nil

theorem Lease.Fresh.mutations_keyed (h : l.Fresh) : l.mutations.Keyed := by
  rw [h.mutations]
  exact Dict.keyed_nil

theorem inquired_run (hfresh : l₀.Fresh) (hrun : Run l₀ trace l) : Inquired (AskedIn l₀ trace) l := by
  refine hrun.history (I := fun trace l => Inquired (AskedIn l₀ trace) l) ?_ ?_
  · refine ⟨fun _ _ hg => ?_, fun _ _ hg => ?_, fun _ _ _ _ h => ?_, fun a ha => ?_⟩
    · rw [hfresh.submissions] at hg
      cases hg
    · rw [hfresh.mutations] at hg
      cases hg
    · rw [hfresh.readTasks] at h
      cases h
    · rw [hfresh.opened] at ha
      exact absurd ha (Nat.not_lt_zero _)
  · intro before m label m' hbefore hm hs
    exact hm.step (keyed_run hbefore hfresh.submissions_keyed)
      (mutations_keyed_run hbefore hfresh.mutations_keyed) hs (fun _ _ _ h => h.snoc label)
      fun _ _ _ h => askedIn_last hbefore h

theorem placed_eq {l' : Lease} {a : ℕ} {new : List LiveText}
    (h : (l'.heap a).live = (l.heap a).live ++ new) : placed a l l' = new := by
  unfold placed
  rw [h, List.drop_left]

theorem placed_nil {l' : Lease} {a : ℕ} (h : (l'.heap a).live <:+ (l.heap a).live) :
    placed a l l' = [] := List.drop_eq_nil_of_le h.length_le

/-- What a step places in a queue goes to the current attachment. -/
theorem placed_fits {label : LeaseLabel} {l' : Lease} (hs : Step l label l') {a : ℕ} {item : LiveText}
    (h : item ∈ placed a l l') : l.attachment = some a ∧ Fits l label a item := by
  rcases step_queues hs a with ⟨new, hlive, hfits⟩ | hsuffix
  · rw [placed_eq hlive] at h
    exact hfits item h
  · rw [placed_nil hsuffix] at h
    cases h

/-- What a consumer gets live was in its queue. -/
theorem received_queued {l' : Lease} {b : ℕ} {item : LiveText}
    (hs : Step l (.next b, .received (.live item)) l') : item ∈ (l.heap b).live := by
  cases step_moves hs with
  | answered hsilent => exact hsilent.elim
  | took _ _ hpend =>
    refine (@live_mem_pending _ l.leaseId _).1 ?_
    rw [hpend]
    exact List.mem_cons_self

/-- **Responses stay with the attachment that asked.**  A response that the relay
    makes, with a request identifier, is placed only in the queue of an
    attachment that asked for it with a request of that identifier, which is
    the current one, not detached, of a lease that is not released; and no
    other attachment ever gets it. -/
theorem answers_stay (hfresh : l₀.Fresh) (hrun : Run l₀ trace l) :
    (∀ label l' a item cause r, Step l label l' → item ∈ placed a l l' →
      item.origin = .answer cause r →
      l.attachment = some a ∧ (l.heap a).detached = false ∧ l.released = false ∧
      item.text = write compactUnicode r ∧ ∃ requestId outcome,
        r = response requestId (outcomeMember outcome) ∧
        AskedIn l₀ (trace ++ [label]) cause requestId a) ∧
    (∀ a item cause r, .live item ∈ receivedBy a trace → item.origin = .answer cause r →
      item.text = write compactUnicode r ∧ ∃ requestId outcome,
        r = response requestId (outcomeMember outcome) ∧ AskedIn l₀ trace cause requestId a) := by
  have hv : l.tenure.Valid := hfresh.tenure_valid.changes (run_changes hrun)
  constructor
  · intro label l' a item cause r hs hitem ho
    obtain ⟨hcur, hfits⟩ := placed_fits hs hitem
    have hrel : l.released = false := by
      cases hrel : l.released with
      | false => rfl
      | true => cases (hv.released hrel).symm.trans hcur
    refine ⟨hcur, ((hv.current a).1 hcur).2, hrel, ?_⟩
    rcases hfits with ⟨-, hframe⟩ | ⟨cause', r', howes, rfl⟩
    · simp [LiveText.isFrame, ho] at hframe
    · cases ho
      exact ⟨rfl, owes_asked (keyed_run hrun hfresh.submissions_keyed) hs.1
        (inquired_run hfresh hrun) (fun _ _ _ h => h.snoc label) (fun _ _ _ h => askedIn_last hrun h)
        howes⟩
  · refine hrun.history (I := fun trace _ => ∀ a item cause r, .live item ∈ receivedBy a trace →
      item.origin = .answer cause r → item.text = write compactUnicode r ∧ ∃ requestId outcome,
        r = response requestId (outcomeMember outcome) ∧ AskedIn l₀ trace cause requestId a) ?_ ?_
    · intro a item cause r h
      cases h
    · intro before m label m' hbefore ih hs a item cause r hmem ho
      rw [receivedBy_append] at hmem
      rcases List.mem_append.1 hmem with hmem | hmem
      · obtain ⟨h1, requestId, outcome, h2, h3⟩ := ih a item cause r hmem ho
        exact ⟨h1, requestId, outcome, h2, h3.snoc label⟩
      · have hlabel : label = (.next a, .received (.live item)) := by
          obtain ⟨e, out⟩ := label
          cases e with
          | next b =>
            cases out with
            | received got =>
              by_cases hb : b = a
              · subst hb
                obtain rfl : Received.live item = got := by simpa [receivedBy] using hmem
                rfl
              · simp [receivedBy, hb] at hmem
            | _ => simp [receivedBy] at hmem
          | _ => simp [receivedBy] at hmem
        subst hlabel
        obtain ⟨h1, requestId, outcome, h2, h3⟩ := (inquired_run hfresh hbefore).queues a hs.1 item
          (received_queued hs) cause r ho
        exact ⟨by rw [h1]; rfl, requestId, outcome, h2, h3.snoc _⟩

/-- A device attaches, asks for the status, and reads the answer. -/
def statusRead : List LeaseEvent :=
  [.attach (.standing 0 fun _ => true) 0 {}, .next 0,
   .submit (.standing 0 fun _ => true) 0 (write compactUnicode (.obj
     [(lit "jsonrpc", .str (lit "2.0")), (lit "id", .int 1),
      (lit "method", .str (lit "relay.status"))])),
   .taskDone (.read (lit "relay.status") [] (.int 1) 0) (.result .null), .next 0]

theorem statusRead_executes : (execute { hasReadDispatcher := true } statusRead).isSome := by
  decide +kernel

theorem answers_stay_status : ∃ trace l, Run { hasReadDispatcher := true } trace l ∧
    (receivedBy 0 trace).length = 2 ∧
    ∀ item cause r, .live item ∈ receivedBy 0 trace → item.origin = .answer cause r →
      ∃ requestId, AskedIn { hasReadDispatcher := true } trace cause requestId 0 := by
  have hrun := run_of_execute (Option.some_get statusRead_executes).symm
  have h := answers_stay
    ⟨rfl, rfl, rfl, rfl, rfl, rfl, rfl, rfl, rfl, rfl, rfl, rfl, rfl, rfl⟩ hrun
  refine ⟨_, _, hrun, by decide +kernel, fun item cause r hmem ho => ?_⟩
  obtain ⟨-, requestId, -, -, hasked⟩ := h.2 0 item cause r hmem ho
  exact ⟨requestId, hasked⟩

end Runs

end MercuryRelay
