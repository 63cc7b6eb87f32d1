/-
  Consumers of a lease: the texts one attachment yields, and the frames a client
  sees that reattaches.

  * `exact_delivery`: what a consumer gets, and what a client sees that
    reattaches with the last sequence number it applied.
-/
import MercuryRelay.Lease.Delivery

set_option autoImplicit false

namespace MercuryRelay

open Python Log Lease Transition

variable {l l' : Lease} {history : List Str}

/-- The sequence number of a live frame. -/
def LiveText.seq? (item : LiveText) : Option ℕ :=
  match item.origin with
  | .frame s => some s
  | .answer _ _ => none

/-- The sequence number of a frame a consumer gets. -/
def Received.seq? : Received → Option ℕ
  | .replayed s _ => some s
  | .live item => item.seq?
  | .preamble _ | .replayComplete _ => none

@[simp] theorem seq?_replayed (s : ℕ) (text : Str) : (Received.replayed s text).seq? = some s := rfl
@[simp] theorem seq?_live (item : LiveText) : (Received.live item).seq? = item.seq? := rfl
@[simp] theorem seq?_preamble (text : Str) : (Received.preamble text).seq? = none := rfl
@[simp] theorem seq?_replayComplete (text : Str) : (Received.replayComplete text).seq? = none := rfl

/-- A text that carries frame `s`. -/
def Carries (leaseId : Str) (history : List Str) (s : ℕ) (text : Str) : Prop :=
  ∃ x replay, history[s - 1]? = some x ∧ text = wrapped leaseId replay (x, s)

/-! ## The frames of a stream -/

section Stream

variable {leaseId preamble : Str} {m start n : ℕ} {live : List LiveText}

theorem seqs_live (live : List LiveText) : (live.map Received.live).filterMap Received.seq? =
    (live.filter (·.isFrame)).filterMap LiveText.seq? := by
  induction live with
  | nil => rfl
  | cons item live ih =>
    simp only [List.map_cons, List.filterMap_cons, seq?_live, ih, List.filter_cons]
    unfold LiveText.isFrame
    cases ho : item.origin with
    | frame s => simp [LiveText.seq?, ho]
    | answer cause response => simp [LiveText.seq?, ho]

/-- The frames of a stream are numbered without a gap. -/
theorem seqs_stream (h1 : m ≤ start) (h2 : start ≤ n) (hn : n ≤ history.length)
    (hlive : IsLive leaseId history start n live) :
    (streamHead leaseId history preamble m start ++ live.map Received.live).filterMap
      Received.seq? = (span history m n).map (·.2) := by
  have hhead : (streamHead leaseId history preamble m start).filterMap Received.seq? =
      (span history m start).map (·.2) := by
    simp [streamHead, List.filterMap_cons, List.filterMap_map, Function.comp_def, replayedFrame]
  have htail : (live.map Received.live).filterMap Received.seq? =
      (span history start n).map (·.2) := by
    rw [seqs_live, hlive.frames]
    simp [LiveText.seq?, liveFrameOf, List.filterMap_map, Function.comp_def]
  rw [List.filterMap_append, hhead, htail, ← List.map_append, span_concat h1 h2 hn]

/-- A frame of a stream is carried by its text. -/
theorem carries_stream (hlive : IsLive leaseId history start n live) {item : Received}
    (hi : item ∈ streamHead leaseId history preamble m start ++ live.map Received.live) {s : ℕ}
    (hs : item.seq? = some s) : Carries leaseId history s item.text := by
  rcases List.mem_append.1 hi with hi | hi
  · simp only [streamHead, List.cons_append, List.mem_cons, List.mem_append, List.mem_map,
      List.not_mem_nil, or_false] at hi
    rcases hi with rfl | ⟨⟨x, k⟩, hx, rfl⟩ | rfl
    · cases hs
    · cases hs
      exact ⟨x, true, (mem_span.1 hx).2.2, rfl⟩
    · cases hs
  · obtain ⟨item, hmem, rfl⟩ := List.mem_map.1 hi
    have hf : item ∈ live.filter (·.isFrame) := by
      refine List.mem_filter.2 ⟨hmem, ?_⟩
      unfold LiveText.isFrame
      cases ho : item.origin with
      | frame => rfl
      | answer => simp [LiveText.seq?, ho] at hs
    rw [hlive.frames] at hf
    obtain ⟨⟨x, k⟩, hx, rfl⟩ := List.mem_map.1 hf
    cases hs
    exact ⟨x, false, (mem_span.1 hx).2.2, rfl⟩

/-- The next frame a consumer takes is the one after those it took. -/
theorem seq_next {got : List Received} {item : Received} (h1 : m ≤ start) (h2 : start ≤ n)
    (hn : n ≤ history.length) (hlive : IsLive leaseId history start n live)
    (hpre : got ++ [item] <+: streamHead leaseId history preamble m start ++ live.map Received.live) {s : ℕ}
    (hs : item.seq? = some s) : s = m + (got.filterMap Received.seq?).length + 1 := by
  have hp := hpre.filterMap Received.seq?
  rw [seqs_stream h1 h2 hn hlive, List.filterMap_append] at hp
  simp only [List.filterMap_cons, hs, List.filterMap_nil] at hp
  have hget := List.IsPrefix.getElem hp (i := (got.filterMap Received.seq?).length) (by simp)
  simp only [List.getElem_concat_length, List.getElem_map] at hget
  rw [hget]
  simp [span]
  omega

end Stream

theorem Carries.append {leaseId : Str} {s : ℕ} {text : Str} (h : Carries leaseId history s text)
    (more : List Str) : Carries leaseId (history ++ more) s text := by
  obtain ⟨x, replay, hx, ht⟩ := h
  refine ⟨x, replay, ?_, ht⟩
  rw [List.getElem?_append_left (List.getElem?_eq_some_iff.1 hx).1, hx]

theorem streamHead_append {leaseId preamble : Str} {m start : ℕ} (h : start ≤ history.length)
    (more : List Str) : streamHead leaseId (history ++ more) preamble m start =
      streamHead leaseId history preamble m start := by
  unfold streamHead
  rw [span_append h]

/-! ## Clients -/

/-- What a client learns from an event: an attachment, or an item it takes. -/
inductive ClientEvent where
  | attached (request : AttachRequest) (a : ℕ) (replayGap : Bool)
  | got (a : ℕ) (item : Received)

def clientEvent : LeaseLabel → Option ClientEvent
  | (.attach _ _ request, .attached a replayGap) => some (.attached request a replayGap)
  | (.next a, .received item) => some (.got a item)
  | _ => none

/-- A client: the last sequence number it applied, its latest attachment, and
    whether a gap was reported that no frame followed yet. -/
structure Client where
  applied : ℕ := 0
  latest : Option ℕ := none
  gap : Bool := false

namespace Client

def observe (c : Client) (label : LeaseLabel) : Client :=
  match clientEvent label with
  | some (.attached _ a replayGap) => { c with latest := some a, gap := replayGap }
  | some (.got _ item) =>
    match item.seq? with
    | some s => { c with applied := s, gap := false }
    | none => c
  | none => c

/-- The client takes what its latest attachment yields, and reattaches for
    recovery with the last sequence number it applied. -/
def Reattaches (c : Client) (label : LeaseLabel) : Prop :=
  match clientEvent label with
  | some (.attached request _ _) => request.recovery = true ∧ request.cursor = c.applied
  | some (.got a _) => c.latest = some a
  | none => True

/-- A frame the client gets is the one after the last it applied, but for the
    first frame after an attach that reported a gap. -/
def InOrder (leaseId : Str) (history : List Str) (c : Client) (label : LeaseLabel) : Prop :=
  match clientEvent label with
  | some (.got _ item) => ∀ s, item.seq? = some s →
    (s = c.applied + 1 ∨ c.gap = true ∧ c.applied < s) ∧ Carries leaseId history s item.text
  | _ => True

instance (c : Client) (label : LeaseLabel) : Decidable (c.Reattaches label) := by
  unfold Reattaches
  split <;> infer_instance

theorem InOrder.append {leaseId : Str} {c : Client} {label : LeaseLabel}
    (h : InOrder leaseId history c label) (more : List Str) :
    InOrder leaseId (history ++ more) c label := by
  unfold InOrder at h ⊢
  split at h
  · exact fun s hs => ⟨(h s hs).1, (h s hs).2.append more⟩
  · trivial

end Client

theorem clientEvent_attached {label : LeaseLabel} {request : AttachRequest} {a : ℕ} {gap : Bool}
    (h : clientEvent label = some (.attached request a gap)) :
    ∃ env now, label = (.attach env now request, .attached a gap) := by
  unfold clientEvent at h
  split at h
  · cases h; exact ⟨_, _, rfl⟩
  · cases h
  · cases h

theorem clientEvent_got {label : LeaseLabel} {a : ℕ} {item : Received}
    (h : clientEvent label = some (.got a item)) : label = (.next a, .received item) := by
  unfold clientEvent at h
  split at h
  · cases h
  · cases h; rfl
  · cases h

theorem clientEvent_none {label : LeaseLabel} (h : clientEvent label = none) (a : ℕ) :
    receivedBy a [label] = [] := by
  unfold clientEvent at h
  split at h
  · cases h
  · cases h
  · rename_i hnext
    simp only [receivedBy, List.filterMap_cons, List.filterMap_nil]

/-- What a client knows of its latest attachment: the frames it did not see
    follow, or a gap is reported and precedes them. -/
def Following (l : Lease) (history : List Str) (c : Client) : Prop :=
  ∀ a, c.latest = some a → ∃ preamble m start got, m ≤ start ∧ start ≤ history.length ∧
    Delivered l a (streamHead l.leaseId history preamble m start) start history got ∧
    (c.gap = true ∧ got.filterMap Received.seq? = [] ∧ c.applied < m ∨
      c.gap = false ∧ c.applied = m + (got.filterMap Received.seq?).length)

/-- Where the consumer waits, nothing waits for it. -/
theorem nextText_waiting {a : ℕ} (h : (l.nextText a).2 = .ok none) :
    (l.heap a).pending l.leaseId = [] := by
  unfold nextText at h
  dsimp only at h
  split at h
  · cases h
  · split at h
    · cases h
    · cases h
    · cases h
    · cases h
    · rename_i h1 h2 h3 h4
      simp [LeaseAttachment.pending, h1, h2, h3, h4]

section Client

variable {c : Client} {label : LeaseLabel}

/-- An attachment opened with the last sequence number that was applied. -/
theorem following_attached (h : Retained l history) {env : Surroundings} {now : ℚ}
    {request : AttachRequest} {a : ℕ} {gap : Bool}
    (hm : Moves l (.attach env now request, .attached a gap) l') (hrec : request.recovery = true)
    (hc : request.cursor = c.applied) : Following l' history { c with latest := some a, gap := gap } := by
  rintro _ ⟨⟩
  cases hm with
  | answered hs => exact hs.elim
  | @attached _ _ _ m snapshot href hsnap =>
    obtain ⟨-, hc0, hle, -⟩ := attachRefused_none href
    have hd := delivery_sameLog (takeSnapshot_delivery (l.trim now).1 env request.recovery)
    rw [hsnap] at hd
    have hret : Retained m history := (h.trim now).congr hd.ring hd.lastSeq hd.trimmedThrough
    have hid : (m.publish (m.newAttachment request snapshot)).leaseId = l.leaseId := hd.leaseId
    have happ : c.applied ≤ history.length := by rw [← h.lastSeq]; omega
    have hnat : request.cursor.toNat = c.applied := by omega
    refine ⟨m.attachedText request snapshot, max c.applied m.trimmedThrough, history.length, [],
      max_le happ hret.trimmed, le_rfl, ?_, ?_⟩
    · rw [hid, ← hnat]
      exact delivered_attached h hc0 hrec hsnap
    · simp only [replayGap, hc, List.filterMap_nil, List.length_nil]
      by_cases hg : c.applied < m.trimmedThrough
      · left
        exact ⟨by simpa using hg, trivial, by omega⟩
      · right
        exact ⟨by simpa using hg, by omega⟩

/-- The client's attachment goes on, while the client takes nothing. -/
theorem Following.idle (h : Following l history c) (hp : Placed l)
    (hlast : l.lastSeq = history.length) (hm : Moves l label l')
    (hnone : ∀ a, receivedBy a [label] = []) : Following l' (history ++ framesOf [label]) c := by
  intro a ha
  obtain ⟨preamble, m, start, got, h1, h2, hdel, hgap⟩ := h a ha
  have hnext := hdel.step hp hlast hm
  rw [hnone, List.append_nil] at hnext
  refine ⟨preamble, m, start, got, h1, h2.trans (by simp), ?_, hgap⟩
  rw [streamHead_append h2, hm.constants.leaseId]
  exact hnext

/-- The client takes an item: a frame is the next one, and its text carries it. -/
theorem Following.take {a : ℕ} {item : Received} (h : Following l history c) (hp : Placed l)
    (hlast : l.lastSeq = history.length) (hm : Moves l (.next a, .received item) l')
    (ha : c.latest = some a) :
    Following l' history (c.observe (.next a, .received item)) ∧
      c.InOrder l.leaseId history (.next a, .received item) := by
  obtain ⟨preamble, m, start, got, h1, h2, hdel, hgap⟩ := h a ha
  have hnext := hdel.step hp hlast hm
  have hgot : receivedBy a [(LeaseEvent.next a, LeaseOutput.received item)] = [item] := by
    simp [receivedBy]
  have hframes : framesOf [(LeaseEvent.next a, LeaseOutput.received item)] = [] := rfl
  rw [hgot, hframes, List.append_nil] at hnext
  obtain ⟨n, live, h3, h4, -, hlive, hfollows⟩ := hnext.follows
  rw [hm.constants.leaseId] at hlive
  have hpre := hfollows.taken_prefix
  have hseq : ∀ s, item.seq? = some s → s = m + (got.filterMap Received.seq?).length + 1 :=
    fun s hs => seq_next h1 h3 h4 hlive hpre hs
  constructor
  · intro b hb
    refine ⟨preamble, m, start, got ++ [item], h1, h2, ?_, ?_⟩
    · have hlatest : (c.observe (.next a, .received item)).latest = c.latest := by
        simp only [Client.observe, clientEvent]
        split <;> rfl
      obtain rfl : a = b := Option.some.inj (ha.symm.trans (hlatest.symm.trans hb))
      rw [hm.constants.leaseId]
      exact hnext
    · rw [List.filterMap_append]
      simp only [Client.observe, clientEvent]
      cases hs : item.seq? with
      | none => simpa [hs] using hgap
      | some s =>
        have := hseq s hs
        simp only [hs, List.filterMap_cons, List.filterMap_nil, List.length_append,
          List.length_singleton]
        exact .inr ⟨trivial, by omega⟩
  · intro s hs
    refine ⟨?_, carries_stream hlive (hpre.subset (by simp)) hs⟩
    have := hseq s hs
    rcases hgap with ⟨hg, hnil, hlt⟩ | ⟨hg, happ⟩
    · exact .inr ⟨hg, by omega⟩
    · exact .inl (by omega)

/-- One event, to a client that follows its latest attachment. -/
theorem Following.step (h : Following l history c) (hret : Retained l history) (hp : Placed l)
    (hm : Moves l label l') (hc : c.Reattaches label) :
    Following l' (history ++ framesOf [label]) (c.observe label) ∧
      c.InOrder l.leaseId history label := by
  unfold Client.Reattaches at hc
  cases he : clientEvent label with
  | none =>
    have hobs : c.observe label = c := by simp only [Client.observe, he]
    rw [hobs]
    exact ⟨h.idle hp hret.lastSeq hm (clientEvent_none he), by simp only [Client.InOrder, he]⟩
  | some event =>
    cases event with
    | attached request a gap =>
      simp only [he] at hc
      obtain ⟨env, now, rfl⟩ := clientEvent_attached he
      have hframes : history ++ framesOf [(LeaseEvent.attach env now request,
          LeaseOutput.attached a gap)] = history := List.append_nil _
      rw [hframes]
      exact ⟨following_attached hret hm hc.1 hc.2, trivial⟩
    | got a item =>
      simp only [he] at hc
      obtain rfl := clientEvent_got he
      have hframes : history ++ framesOf [(LeaseEvent.next a, LeaseOutput.received item)] =
          history := List.append_nil _
      rw [hframes]
      exact h.take hp hret.lastSeq hm hc

/-- **A client that reattaches sees the frames in order**, over a run. -/
theorem Following.run {trace : List LeaseLabel} (hrun : Run l trace l') (h : Following l history c)
    (hret : Retained l history) (hp : Placed l) (hr : l'.released = false)
    (hc : Along Client.observe Client.Reattaches c trace) :
    Following l' (history ++ framesOf trace) (trace.foldl Client.observe c) ∧
      Along Client.observe (Client.InOrder l.leaseId (history ++ framesOf trace)) c trace := by
  induction hrun generalizing history c with
  | nil => exact ⟨by simpa [framesOf] using h, trivial⟩
  | @cons l label k trace l' hs hrest ih =>
    obtain ⟨hlabel, hc⟩ := hc
    have hm := step_moves hs
    have hhist : history ++ framesOf (label :: trace) =
        history ++ framesOf [label] ++ framesOf trace := by
      rw [List.append_assoc, ← framesOf_append]; rfl
    obtain ⟨hnext, horder⟩ := h.step hret hp hm hlabel
    obtain ⟨h1, h2⟩ := ih hnext (hret.step hm (not_released_of_run hrest hr)) (hp.step hm) hr hc
    rw [hhist]
    refine ⟨h1, ?_, ?_⟩
    · rw [List.append_assoc]
      exact horder.append _
    · rw [← hm.constants.leaseId]
      exact h2

/-- A client that waits on the current attachment applied the last frame, or a
    gap was reported to it. -/
theorem Following.waiting {a : ℕ} (h : Following l history c) (hret : Retained l history)
    (ha : c.latest = some a) (hcur : l.attachment = some a)
    (hwait : (l.nextText a).2 = .ok none) : c.gap = true ∨ c.applied = l.lastSeq := by
  obtain ⟨preamble, m, start, got, h1, h2, hdel, hgap⟩ := h a ha
  obtain ⟨n, live, h3, h4, h5, hlive, hfollows⟩ := hdel.follows
  rcases hgap with ⟨hg, -, -⟩ | ⟨-, happ⟩
  · exact .inl hg
  · right
    have hall := hfollows.all hcur
    rw [nextText_waiting hwait, List.append_nil] at hall
    rw [happ, hall, seqs_stream h1 h3 h4 hlive, List.length_map, length_span h4, hret.lastSeq,
      h5 hcur]
    omega

end Client

theorem leaseId_run {trace : List LeaseLabel} (hrun : Run l trace l') :
    l'.leaseId = l.leaseId :=
  hrun.invariant (I := fun m => m.leaseId = l.leaseId)
    (fun _ _ _ h hs => (step_moves hs).constants.leaseId.trans h) rfl

/-- What a recovery attachment yields over a run, and all of it to a consumer
    that waits on the current attachment. -/
theorem delivered_from_attach {l₁ l₂ : Lease} {env : Surroundings} {now : ℚ}
    {request : AttachRequest} {a : ℕ} {gap : Bool} {after : List LeaseLabel}
    (h : Retained l₁ history) (hp : Placed l₁) (hrec : request.recovery = true)
    (hattach : Step l₁ (.attach env now request, .attached a gap) l₂) (hafter : Run l₂ after l) :
    gap = decide (request.cursor < l₂.trimmedThrough) ∧
    ∃ preamble n live, (l₂.heap a).preamble = some preamble ∧ history.length ≤ n ∧
      n ≤ (history ++ framesOf after).length ∧
      IsLive l.leaseId (history ++ framesOf after) history.length n live ∧
      receivedBy a after <+: streamHead l.leaseId (history ++ framesOf after) preamble
        (max request.cursor.toNat l₂.trimmedThrough) history.length ++ live.map .live ∧
      (l.attachment = some a → (l.nextText a).2 = .ok none →
        n = (history ++ framesOf after).length ∧
        receivedBy a after = streamHead l.leaseId (history ++ framesOf after) preamble
          (max request.cursor.toNat l₂.trimmedThrough) history.length ++ live.map .live) := by
  have hid : l.leaseId = l₁.leaseId :=
    (leaseId_run hafter).trans (step_moves hattach).constants.leaseId
  have hlast := lastSeq_step h.lastSeq (step_moves hattach)
  have hp₂ := hp.step (step_moves hattach)
  have hnil : history ++ framesOf [(LeaseEvent.attach env now request, LeaseOutput.attached a gap)] =
      history := List.append_nil _
  rw [hnil] at hlast
  cases step_moves hattach with
  | answered hs => exact hs.elim
  | @attached _ _ _ m snapshot href hsnap =>
    have hm : m.opened = l₁.opened := by
      have hd := congrArg Delivery.opened
        (takeSnapshot_delivery (l₁.trim now).1 env request.recovery)
      rwa [hsnap] at hd
    obtain ⟨-, hc0, -, -⟩ := attachRefused_none href
    obtain ⟨n, live, h1, h2, h3, h4, h5⟩ :=
      ((delivered_attached h hc0 hrec hsnap).run hafter hp₂ hlast).follows
    rw [List.nil_append, ← hid, ← streamHead_append le_rfl (framesOf after)] at h5
    refine ⟨rfl, m.attachedText request snapshot, n, live, ?_, h1, h2, h4, h5.taken_prefix,
      fun hcur hwait => ⟨h3 hcur, ?_⟩⟩
    · rw [← hm, publish_heap_new]
      rfl
    · have hall := h5.all hcur
      rwa [nextText_waiting hwait, List.append_nil] at hall

/-- **Delivery is exact across reattachment.**  A recovery attachment that was
    opened with cursor `c` when the last sequence number was `L`, and the trim
    point `t`, yields its preamble, the frames `max c t + 1 .. L` as replayed
    ones, the end of the replay, and then the frames `L + 1 ..` as live ones,
    with responses among them; a consumer that waits on the current attachment
    has them all.  A client that reattaches with the last sequence number it
    applied sees every frame once and in order, but where a gap was reported. -/
theorem exact_delivery {l₀ l : Lease} {trace : List LeaseLabel} (hfresh : l₀.Fresh)
    (hrun : Run l₀ trace l) (hreleased : l.released = false) :
    (∀ before env now request a gap after l₁ l₂,
      trace = before ++ (.attach env now request, .attached a gap) :: after →
      Run l₀ before l₁ → Step l₁ (.attach env now request, .attached a gap) l₂ → Run l₂ after l →
      request.recovery = true →
      gap = decide (request.cursor < l₂.trimmedThrough) ∧
      ∃ preamble n live, (l₂.heap a).preamble = some preamble ∧ l₁.lastSeq ≤ n ∧ n ≤ l.lastSeq ∧
        IsLive l.leaseId (framesOf trace) l₁.lastSeq n live ∧
        receivedBy a after <+: streamHead l.leaseId (framesOf trace) preamble
          (max request.cursor.toNat l₂.trimmedThrough) l₁.lastSeq ++ live.map .live ∧
        (l.attachment = some a → (l.nextText a).2 = .ok none →
          n = l.lastSeq ∧ receivedBy a after = streamHead l.leaseId (framesOf trace) preamble
            (max request.cursor.toNat l₂.trimmedThrough) l₁.lastSeq ++ live.map .live)) ∧
    (Along Client.observe Client.Reattaches {} trace →
      Along Client.observe (Client.InOrder l.leaseId (framesOf trace)) {} trace ∧
      ∀ a, (trace.foldl Client.observe {}).latest = some a → l.attachment = some a →
        (l.nextText a).2 = .ok none → (trace.foldl Client.observe {}).gap = true ∨
          (trace.foldl Client.observe {}).applied = l.lastSeq) := by
  constructor
  · intro before env now request a gap after l₁ l₂ htrace hbefore hattach hafter hrec
    have hret := hfresh.retained.run hbefore
      (not_released_of_run (.cons hattach hafter) hreleased)
    have hlast := (hfresh.retained.run hrun hreleased).lastSeq
    have hhist : framesOf trace = framesOf before ++ framesOf after := by
      rw [htrace, framesOf_append]; rfl
    rw [List.nil_append] at hret hlast
    rw [hret.lastSeq, hlast, hhist]
    exact delivered_from_attach hret (hfresh.placed.run hbefore) hrec hattach hafter
  · intro hclient
    have hret := hfresh.retained.run hrun hreleased
    have hstart : Following l₀ [] {} := fun a ha => by cases ha
    obtain ⟨h1, h2⟩ := hstart.run hrun hfresh.retained hfresh.placed hreleased hclient
    rw [leaseId_run hrun]
    exact ⟨h2, fun a ha hcur hwait => h1.waiting hret ha hcur hwait⟩

/-- A device attaches for recovery after one frame, and reads on while another
    one comes. -/
def twoFrames : List LeaseEvent :=
  [.frame (.standing 0 fun _ => true) 0 (lit "a"), .attach (.standing 0 fun _ => true) 0 { recovery := true },
   .next 0, .next 0, .next 0, .frame (.standing 0 fun _ => true) 1 (lit "b"), .next 0, .next 0]

theorem twoFrames_executes : (execute {} twoFrames).isSome := by decide +kernel

theorem exact_delivery_two_frames : ∃ trace l, Run {} trace l ∧
    framesOf trace = [lit "a", lit "b"] ∧ (trace.foldl Client.observe {}).applied = 2 ∧
    Along Client.observe (Client.InOrder l.leaseId (framesOf trace)) {} trace := by
  have hrun := run_of_execute (Option.some_get twoFrames_executes).symm
  exact ⟨_, _, hrun, by decide +kernel, by decide +kernel,
    ((exact_delivery ⟨rfl, rfl, rfl, rfl, rfl, rfl, rfl, rfl, rfl, rfl, rfl, rfl, rfl, rfl⟩ hrun
      (by decide +kernel)).2 (by decide +kernel)).1⟩

end MercuryRelay
