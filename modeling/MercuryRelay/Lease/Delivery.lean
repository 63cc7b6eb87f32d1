/-
  What a lease delivers (session_lease.py, `_retain`, `attach`, `next_text`).

  The frames of a run are a log; the ring holds its window after the trim point,
  and a recovery attachment follows the stream of its preamble, its replay, the
  end of the replay, and what came live.

  * `Retained.run`: the ring after a run holds the frames that are not trimmed;
  * `Delivered.run`: what a consumer got and what waits for it are its stream.
-/
import MercuryRelay.Lease.Moves
import MercuryRelay.Lib.Log

set_option autoImplicit false

namespace MercuryRelay

open Python Log Lease

variable {l l' : Lease} {history : List Str}

/-! ## The ring -/

/-- A retained event as a numbered frame. -/
def RetainedEvent.numbered (e : RetainedEvent) : Str × ℕ := (e.text, e.leaseSeq)

/-- The ring holds the frames after the trim point. -/
structure Retained (l : Lease) (history : List Str) : Prop where
  lastSeq : l.lastSeq = history.length
  trimmed : l.trimmedThrough ≤ history.length
  ring : l.ring.map (·.numbered) = span history l.trimmedThrough history.length

theorem trimLoop_span {limits : LeaseLimits} {now : ℚ} {n : ℕ}
    {ring ring' : List RetainedEvent} {bytes bytes' : ℤ} {trimmed trimmed' : ℕ}
    {overflow overflow' : Bool} (ht : trimmed ≤ n)
    (h : ring.map (·.numbered) = span history trimmed n)
    (hx : trimLoop limits now ring bytes trimmed overflow = (ring', bytes', trimmed', overflow')) :
    trimmed ≤ trimmed' ∧ trimmed' ≤ n ∧ ring'.map (·.numbered) = span history trimmed' n := by
  induction ring generalizing bytes trimmed overflow with
  | nil =>
    cases hx
    exact ⟨le_rfl, ht, h⟩
  | cons e ring ih =>
    unfold trimLoop at hx
    split at hx
    · obtain ⟨hs, hlt, hrest⟩ := span_cons h.symm
      obtain ⟨h1, h2, h3⟩ := ih (by rw [hs]; exact hlt) (by rw [hs]; exact hrest) hx
      exact ⟨by omega, h2, h3⟩
    · cases hx
      exact ⟨le_rfl, ht, h⟩

namespace Retained

theorem congr (h : Retained l history) (hring : l'.ring = l.ring) (hlast : l'.lastSeq = l.lastSeq)
    (htrim : l'.trimmedThrough = l.trimmedThrough) : Retained l' history where
  lastSeq := hlast.trans h.lastSeq
  trimmed := htrim.le.trans h.trimmed
  ring := by rw [hring, htrim]; exact h.ring

/-- `_trim` keeps the ring a window of the log. -/
theorem trim (h : Retained l history) (now : ℚ) : Retained (l.trim now).1 history := by
  rcases hx : trimLoop l.limits now l.ring l.ringBytes l.trimmedThrough false with
    ⟨ring, bytes, trimmed, overflow⟩
  obtain ⟨-, h2, h3⟩ := trimLoop_span h.trimmed h.ring hx
  unfold Lease.trim
  rw [hx]
  exact ⟨h.lastSeq, h2, h3⟩

/-- One more frame, in a lease whose counter counts it. -/
theorem ringed {m : Lease} (h : Retained l history) (hm : SameLog l.stamp m) {text : Str}
    {size : ℕ} {now : ℚ} :
    Retained (m.ringed ⟨l.lastSeq + 1, text, size, now⟩) (history ++ [text]) := by
  refine Retained.trim ⟨?_, ?_, ?_⟩ _
  · simp [hm.lastSeq, stamp, h.lastSeq]
  · simp [hm.trimmedThrough, stamp, h.trimmed.trans (Nat.le_succ _)]
  · have hs := span_push (x := text) h.trimmed
    simp only [hm.ring, hm.trimmedThrough, stamp, List.map_append, h.ring, List.length_append,
      List.length_singleton, hs]
    simp [RetainedEvent.numbered, h.lastSeq]

/-- The replay of an attachment: the frames after its cursor that are there. -/
theorem replayAfter (h : Retained l history) (cursor : ℕ) :
    (l.replayAfter cursor).map (·.numbered) =
      span history (max cursor l.trimmedThrough) history.length := by
  rw [← span_filter le_rfl, ← h.ring, List.filter_map]
  unfold Lease.replayAfter
  congr 1
  refine List.filter_congr fun e _ => ?_
  simp [RetainedEvent.numbered]

end Retained

/-! ## The current attachment -/

/-- The current attachment is one that was opened and is not detached, and a
    released lease has none. -/
structure Placed (l : Lease) : Prop where
  current : ∀ a, l.attachment = some a → a < l.opened ∧ (l.heap a).detached = false
  released : l.released = true → l.attachment = none

namespace Placed

theorem congr (h : Placed l) (hatt : l'.attachment = l.attachment) (hop : l.opened ≤ l'.opened)
    (hrel : l'.released = l.released)
    (hheap : ∀ a, l.attachment = some a → (l'.heap a).detached = (l.heap a).detached) :
    Placed l' where
  current a ha := by
    rw [hatt] at ha
    exact ⟨(h.current a ha).1.trans_le hop, (hheap a ha).trans (h.current a ha).2⟩
  released hr := by
    rw [hatt]; exact h.released (hrel ▸ hr)

theorem detach (h : Placed l) (a : ℕ) (reason : DetachReason) : Placed (l.detach a reason) := by
  have hlog := detach_sameLog l a reason
  constructor
  · intro b hb
    rw [detach_attachment] at hb
    split at hb
    · cases hb
    · rename_i hne
      have hba : b ≠ a := fun he => hne (he ▸ hb)
      rw [hlog.opened, detach_heap_of_ne l a reason hba]
      exact h.current b hb
  · intro hr
    rw [detach_attachment, h.released (hlog.released ▸ hr)]
    split <;> rfl

theorem deliver (h : Placed l) (a : ℕ) (item : LiveText) : Placed (l.deliver a item) := by
  unfold Lease.deliver
  split
  · exact h.detach a _
  · refine h.congr rfl le_rfl rfl fun b _ => ?_
    by_cases hb : b = a
    · subst hb; rw [modifyAttachment_heap_self]
    · rw [modifyAttachment_heap_of_ne l a _ hb]

theorem quiet (h : Placed l) (hd : l'.delivery = l.delivery) : Placed l' :=
  h.congr (congrArg Delivery.attachment hd) (congrArg Delivery.opened hd).ge
    (congrArg Delivery.released hd) fun a _ =>
      congrArg LeaseAttachment.detached (congrFun (congrArg Delivery.heap hd) a)

theorem answered {P : AnswerCause → Json → ℕ → Prop} (hl : Answered P l l') (h : Placed l) :
    Placed l' := by
  induction hl with
  | quiet hd => exact h.quiet (congrArg Upkeep.delivery hd)
  | answer => exact h.deliver _ _
  | trans _ _ ih ih' => exact ih' (ih h)

theorem release (h : Placed l) (reason : String) : Placed (l.release reason) := by
  by_cases hr : l.released = true
  · unfold Lease.release
    rw [if_pos hr]
    exact h
  · have hn := release_attachment (by simpa using hr) reason
    exact ⟨fun a ha => (Option.some_ne_none a (ha.symm.trans hn)).elim, fun _ => hn⟩

theorem appendEvent (h : Placed l) (event : RetainedEvent) : Placed (l.appendEvent event) := by
  have hring : Placed (l.ringed event) := h.congr rfl le_rfl rfl fun _ _ => rfl
  rcases appendEvent_spec l event with ⟨-, hd⟩ | ⟨a, -, hd⟩
  · exact hring.quiet hd
  · rw [hd]; exact hring.deliver _ _

theorem step (h : Placed l) {label : LeaseLabel} (hm : Moves l label l') : Placed l' := by
  cases hm with
  | answered _ hl => exact h.answered hl
  | detached => exact h.detach _ _
  | released => exact h.release _
  | finished hr => exact h.congr rfl le_rfl rfl fun _ _ => rfl
  | retained hl =>
    have hs : Placed l.stamp := h.congr rfl le_rfl rfl fun _ _ => rfl
    exact (hs.answered hl).appendEvent _
  | failed hl =>
    have hs : Placed l.stamp := h.congr rfl le_rfl rfl fun _ _ => rfl
    exact (hs.answered hl).release _
  | @took a item att _ hdet _ =>
    refine h.congr rfl le_rfl rfl fun b _ => ?_
    by_cases hb : b = a
    · subst hb; rw [modifyAttachment_heap_self, hdet]
    · rw [modifyAttachment_heap_of_ne l a _ hb]
  | @attached env now request m snapshot href hsnap =>
    have hd := takeSnapshot_delivery (l.trim now).1 env request.recovery
    rw [hsnap] at hd
    constructor
    · rintro a ⟨⟩
      exact ⟨Nat.lt_succ_self _, by rw [publish_heap_new]; rfl⟩
    · intro hr
      have hrel : m.released = l.released := congrArg Delivery.released hd
      exact absurd (hrel.symm.trans hr) (by simp [(attachRefused_none href).1])
  | started => exact h.quiet (start_delivery l)
  | elapsed => exact h.quiet rfl
  | @resumed t =>
    have hs : Placed { l with expiry := l.expiry.finish t } := h.quiet rfl
    rcases resumeExpiry_spec l t with he | he
    · rw [he]; exact hs
    · rw [he]; exact hs.release _

end Placed

/-! ## Streams -/

/-- The text that carries a numbered frame. -/
def wrapped (leaseId : Str) (replay : Bool) (x : Str × ℕ) : Str :=
  frameText leaseId ⟨x.2, x.1, 0, 0⟩ replay

def replayedFrame (leaseId : Str) (x : Str × ℕ) : Received :=
  .replayed x.2 (wrapped leaseId true x)

def liveFrameOf (leaseId : Str) (x : Str × ℕ) : LiveText := ⟨wrapped leaseId false x, .frame x.2⟩

def LiveText.isFrame (item : LiveText) : Bool :=
  match item.origin with
  | .frame _ => true
  | .answer _ _ => false

/-- What came live after frame `m` up to frame `n`: these frames, and among them
    the texts of responses. -/
structure IsLive (leaseId : Str) (history : List Str) (m n : ℕ) (live : List LiveText) : Prop where
  frames : live.filter (·.isFrame) = (span history m n).map (liveFrameOf leaseId)
  answers : ∀ item ∈ live, item.isFrame = false →
    ∃ cause response, item = ⟨write compactUnicode response, .answer cause response⟩

/-- The stream of an attachment, up to what comes live. -/
def streamHead (leaseId : Str) (history : List Str) (preamble : Str) (m n : ℕ) : List Received :=
  .preamble preamble :: (span history m n).map (replayedFrame leaseId) ++
    [.replayComplete (replayCompleteText leaseId n)]

theorem pending_markDetached (leaseId : Str) (att : LeaseAttachment) (reason : DetachReason) :
    (att.markDetached reason).pending leaseId = att.pending leaseId ∨
      (att.markDetached reason).pending leaseId = [] := by
  unfold LeaseAttachment.markDetached
  dsimp only
  split
  · right
    split <;> rfl
  · left
    split <;> rfl

theorem pending_push (leaseId : Str) (att : LeaseAttachment) (item : LiveText) (bytes : ℤ) :
    { att with live := att.live ++ [item], liveBytes := bytes }.pending leaseId =
      att.pending leaseId ++ [.live item] := by
  simp [LeaseAttachment.pending]

/-- A recovery attachment, opened after frame `start`, whose consumer got `got`. -/
structure Delivered (l : Lease) (a : ℕ) (head : List Received) (start : ℕ) (history : List Str)
    (got : List Received) : Prop where
  opened : a < l.opened
  recovery : (l.heap a).recovery = true
  follows : ∃ n live, start ≤ n ∧ n ≤ history.length ∧
    (l.attachment = some a → n = history.length) ∧ IsLive l.leaseId history start n live ∧
    Follows (head ++ live.map .live) got ((l.heap a).pending l.leaseId) (l.attachment = some a)

namespace Delivered

variable {a : ℕ} {head : List Received} {start : ℕ} {got : List Received}

/-- The attachment does not change, and may lose its place. -/
theorem same (h : Delivered l a head start history got) (hid : l'.leaseId = l.leaseId)
    (hop : l.opened ≤ l'.opened) (hheap : l'.heap a = l.heap a)
    (hcur : l'.attachment = some a → l.attachment = some a) :
    Delivered l' a head start history got := by
  obtain ⟨n, live, h1, h2, h3, h4, h5⟩ := h.follows
  refine ⟨h.opened.trans_le hop, by rw [hheap]; exact h.recovery, n, live, h1, h2,
    fun hc => h3 (hcur hc), by rw [hid]; exact h4, ?_⟩
  rw [hheap, hid]
  exact h5.weaken hcur

/-- The attachment is marked as detached, and is not the current one any more. -/
theorem lose (h : Delivered l a head start history got) (hid : l'.leaseId = l.leaseId)
    (hop : l.opened ≤ l'.opened) {reason : DetachReason}
    (hheap : l'.heap a = (l.heap a).markDetached reason) (hcur : l'.attachment ≠ some a) :
    Delivered l' a head start history got := by
  obtain ⟨n, live, h1, h2, -, h4, h5⟩ := h.follows
  refine ⟨h.opened.trans_le hop, ?_, n, live, h1, h2, fun hc => absurd hc hcur,
    by rw [hid]; exact h4, ?_⟩
  · rw [hheap, markDetached_recovery]; exact h.recovery
  · rw [hheap, hid]
    rcases pending_markDetached l.leaseId (l.heap a) reason with hp | hp
    · rw [hp]; exact h5.weaken fun hc => absurd hc hcur
    · rw [hp]; exact h5.drop hcur

/-- Frames come that the attachment does not get. -/
theorem later (h : Delivered l a head start history got) (hcur : l.attachment ≠ some a)
    (more : List Str) : Delivered l a head start (history ++ more) got := by
  obtain ⟨n, live, h1, h2, -, h4, h5⟩ := h.follows
  refine ⟨h.opened, h.recovery, n, live, h1, h2.trans (by simp), fun hc => absurd hc hcur, ?_, h5⟩
  exact ⟨by rw [h4.frames, span_append h2], h4.answers⟩

theorem detach (h : Delivered l a head start history got) (b : ℕ) (reason : DetachReason) :
    Delivered (l.detach b reason) a head start history got := by
  have hlog := detach_sameLog l b reason
  by_cases hb : a = b
  · subst hb
    refine h.lose hlog.leaseId hlog.opened.ge (detach_heap_self l a reason) ?_
    rw [detach_attachment]
    split
    · simp
    · assumption
  · refine h.same hlog.leaseId hlog.opened.ge (detach_heap_of_ne l b reason hb) ?_
    rw [detach_attachment]
    split
    · simp
    · exact id

/-- The current attachment gets an item, or has no room and is detached. -/
theorem deliver (h : Delivered l a head start history got) {b : ℕ} {item : LiveText}
    (hcur : l.attachment = some b) {more : List Str}
    (hitem : b = a → ∀ live, IsLive l.leaseId history start history.length live →
      IsLive l.leaseId (history ++ more) start (history ++ more).length (live ++ [item])) :
    Delivered (l.deliver b item) a head start (history ++ more) got := by
  have hlog := deliver_sameLog l b item
  unfold Lease.deliver at hlog ⊢
  split
  · refine (h.detach b _).later ?_ more
    rw [detach_attachment, if_pos hcur]
    simp
  · by_cases hb : b = a
    · subst hb
      obtain ⟨n, live, h1, h2, h3, h4, h5⟩ := h.follows
      obtain rfl := h3 hcur
      refine ⟨h.opened, ?_, (history ++ more).length, live ++ [item], h1.trans (by simp), le_rfl,
        fun _ => rfl, hitem rfl live h4, ?_⟩
      · rw [modifyAttachment_heap_self]; exact h.recovery
      · rw [modifyAttachment_heap_self, pending_push, List.map_append, ← List.append_assoc]
        exact h5.push hcur _
    · refine Delivered.later ?_ (by simp [hcur, hb]) more
      exact h.same rfl le_rfl (modifyAttachment_heap_of_ne l b _ (Ne.symm hb)) id

theorem quiet (h : Delivered l a head start history got) (hd : l'.delivery = l.delivery) :
    Delivered l' a head start history got :=
  h.same (congrArg Delivery.leaseId hd) (congrArg Delivery.opened hd).ge
    (congrFun (congrArg Delivery.heap hd) a) fun hc => (congrArg Delivery.attachment hd).symm.trans hc

theorem answered {P : AnswerCause → Json → ℕ → Prop} (hl : Answered P l l')
    (h : Delivered l a head start history got) : Delivered l' a head start history got := by
  induction hl with
  | quiet hd => exact h.quiet (congrArg Upkeep.delivery hd)
  | answer hcur _ =>
    have hnil : history = history ++ [] := by simp
    rw [hnil]
    refine h.deliver hcur fun _ live hlive => ?_
    rw [← hnil]
    refine ⟨?_, ?_⟩
    · rw [List.filter_append, hlive.frames]
      simp [LiveText.isFrame]
    · intro item hi hf
      rcases List.mem_append.1 hi with hi | hi
      · exact hlive.answers item hi hf
      · exact ⟨_, _, List.mem_singleton.1 hi⟩
  | trans _ _ ih ih' => exact ih' (ih h)

/-- The consumer takes the first item that waits. -/
theorem take (h : Delivered l a head start history got) {item : Received}
    (hid : l'.leaseId = l.leaseId) (hop : l.opened ≤ l'.opened)
    (hrec : (l'.heap a).recovery = (l.heap a).recovery)
    (hpend : (l.heap a).pending l.leaseId = item :: (l'.heap a).pending l.leaseId)
    (hcur : l'.attachment = l.attachment) : Delivered l' a head start history (got ++ [item]) := by
  obtain ⟨n, live, h1, h2, h3, h4, h5⟩ := h.follows
  refine ⟨h.opened.trans_le hop, hrec.trans h.recovery, n, live, h1, h2, by rw [hcur]; exact h3,
    by rw [hid]; exact h4, ?_⟩
  rw [hpend] at h5
  rw [hid, hcur]
  exact h5.take

theorem release (h : Delivered l a head start history got) (reason : String) :
    Delivered (l.release reason) a head start history got := by
  unfold Lease.release
  split
  · exact h
  · dsimp only
    split
    · exact h.same rfl le_rfl rfl id
    · rename_i b _
      by_cases hb : a = b
      · subst hb
        exact h.lose rfl le_rfl (if_pos rfl) (by simp)
      · exact h.same rfl le_rfl (if_neg hb) (by simp)

/-- A new attachment takes the place of the current one. -/
theorem publish (h : Delivered l a head start history got) (att : LeaseAttachment) :
    Delivered (l.publish att) a head start history got := by
  have hne : a ≠ l.opened := h.opened.ne
  have hcur : (l.publish att).attachment ≠ some a := fun hc => hne (Option.some.inj hc).symm
  have hheap : (l.publish att).heap a = l.replaceAttachment.heap a := if_neg hne
  by_cases ha : l.attachment = some a
  · have hself : (l.publish att).heap a = (l.heap a).markDetached .attachmentReplaced := by
      rw [hheap, replaceAttachment, ha]
      exact modifyAttachment_heap_self _ _ _
    exact h.lose rfl (Nat.le_succ _) hself hcur
  · refine h.same rfl (Nat.le_succ _) ?_ fun hc => absurd hc hcur
    rw [hheap, replaceAttachment]
    split
    · rfl
    · rename_i b hb
      exact modifyAttachment_heap_of_ne _ _ _ fun he => ha (he ▸ hb)

/-- A frame comes. -/
theorem appendEvent (h : Delivered l a head start history got) {text : Str} {size : ℕ} {now : ℚ} :
    Delivered (l.appendEvent ⟨history.length + 1, text, size, now⟩) a head start
      (history ++ [text]) got := by
  have hring : Delivered (l.ringed ⟨history.length + 1, text, size, now⟩) a head start history got :=
    h.same rfl le_rfl rfl id
  rcases appendEvent_spec l ⟨history.length + 1, text, size, now⟩ with ⟨hn, hd⟩ | ⟨b, hb, hd⟩
  · have hnone : (l.ringed ⟨history.length + 1, text, size, now⟩).attachment ≠ some a := by
      rw [show (l.ringed ⟨history.length + 1, text, size, now⟩).attachment = none from hn]
      simp
    exact (hring.later hnone [text]).quiet hd
  · rw [hd]
    refine hring.deliver hb fun hba live hlive => ?_
    subst hba
    have hframe : liveFrame (l.ringed ⟨history.length + 1, text, size, now⟩) b
        ⟨history.length + 1, text, size, now⟩ =
        liveFrameOf l.leaseId (text, history.length + 1) := by
      unfold liveFrame
      rw [if_pos hring.recovery]
      rfl
    have hstart : start ≤ history.length := by
      obtain ⟨n, -, h1, h2, -⟩ := h.follows
      exact h1.trans h2
    refine ⟨?_, ?_⟩
    · rw [hframe, List.filter_append, hlive.frames, List.length_append, List.length_singleton,
        span_push hstart, List.map_append]
      rfl
    · intro item hi hf
      rcases List.mem_append.1 hi with hi | hi
      · exact hlive.answers item hi hf
      · rw [List.mem_singleton.1 hi, hframe] at hf
        cases hf

end Delivered

/-! ## Steps -/

theorem framesOf_silent {label : LeaseLabel} (h : Silent label) : framesOf [label] = [] := by
  obtain ⟨e, out⟩ := label
  cases e <;> first | rfl | exact h.elim

theorem receivedBy_silent {label : LeaseLabel} (h : Silent label) (a : ℕ) :
    receivedBy a [label] = [] := by
  obtain ⟨e, out⟩ := label
  cases e with
  | next b =>
    cases out with
    | received => exact h.elim
    | _ => rfl
  | _ => rfl

/-- While the lease is not released, its ring is a window of the frames so far. -/
theorem Retained.step (h : Retained l history) {label : LeaseLabel} (hm : Moves l label l')
    (hr : l'.released = false) : Retained l' (history ++ framesOf [label]) := by
  cases hm with
  | answered hs hl =>
    have hd := hl.sameLog
    rw [framesOf_silent hs, List.append_nil]
    exact h.congr hd.ring hd.lastSeq hd.trimmedThrough
  | @detached a reason =>
    have hd := detach_sameLog l a reason
    simpa [framesOf] using h.congr hd.ring hd.lastSeq hd.trimmedThrough
  | released => exact absurd hr (by simp [release_released])
  | finished hl => exact absurd (hl.symm.trans hr) (by simp)
  | @retained env now text m size hl =>
    have hd := appendEvent_sameLog m ⟨l.lastSeq + 1, text, size, now⟩
    exact (h.ringed hl.sameLog).congr hd.ring hd.lastSeq hd.trimmedThrough
  | failed => exact absurd hr (by simp [release_released])
  | @took a item att _ _ _ =>
    have hd := modifyAttachment_sameLog l a fun _ => att
    simpa [framesOf] using h.congr hd.ring hd.lastSeq hd.trimmedThrough
  | @attached env now request m snapshot _ hsnap =>
    have hd := delivery_sameLog (takeSnapshot_delivery (l.trim now).1 env request.recovery)
    rw [hsnap] at hd
    have ht := (h.trim now).congr hd.ring hd.lastSeq hd.trimmedThrough
    have hp : Retained (m.publish (m.newAttachment request snapshot)) history :=
      ht.congr rfl rfl rfl
    simpa [framesOf] using hp
  | started =>
    have hd := delivery_sameLog (start_delivery l)
    simpa [framesOf] using h.congr hd.ring hd.lastSeq hd.trimmedThrough
  | @elapsed t =>
    have he : Retained (l.elapse t) history := h.congr rfl rfl rfl
    simpa [framesOf] using he
  | @resumed t =>
    rcases resumeExpiry_spec l t with he | he
    · rw [he]
      have hf : Retained { l with expiry := l.expiry.finish t } history := h.congr rfl rfl rfl
      simpa [framesOf] using hf
    · rw [he, release_released] at hr
      cases hr

theorem release_lastSeq (l : Lease) (reason : String) : (l.release reason).lastSeq = l.lastSeq := by
  unfold Lease.release
  split
  · rfl
  · dsimp only
    split <;> rfl

/-- The counter counts the frames, also those that ended the lease. -/
theorem lastSeq_step (h : l.lastSeq = history.length) {label : LeaseLabel} (hm : Moves l label l') :
    l'.lastSeq = (history ++ framesOf [label]).length := by
  cases hm with
  | answered hs hl => rw [hl.sameLog.lastSeq, h, framesOf_silent hs, List.append_nil]
  | detached => simpa [framesOf, (detach_sameLog _ _ _).lastSeq] using h
  | released => simpa [framesOf, release_lastSeq] using h
  | finished => simpa [framesOf, finishRelease] using h
  | @retained env now text m size hl =>
    simp [framesOf, (appendEvent_sameLog _ _).lastSeq, hl.sameLog.lastSeq, stamp, h]
  | failed hl => simp [framesOf, release_lastSeq, hl.sameLog.lastSeq, stamp, h]
  | took => simpa [framesOf, modifyAttachment] using h
  | @attached env now request m snapshot _ hsnap =>
    have hd := delivery_sameLog (takeSnapshot_delivery (l.trim now).1 env request.recovery)
    rw [hsnap] at hd
    have hm : m.lastSeq = l.lastSeq := hd.lastSeq
    simpa [framesOf, Lease.publish, cancelExpiry, hm] using h
  | started => simpa [framesOf, (delivery_sameLog (start_delivery l)).lastSeq] using h
  | elapsed => simpa [framesOf, elapse] using h
  | @resumed t =>
    rcases resumeExpiry_spec l t with he | he
    · simpa [framesOf, he] using h
    · simpa [framesOf, he, release_lastSeq] using h

/-- What an attachment delivers goes on with the frames, and with what its
    consumer takes. -/
theorem Delivered.step {a : ℕ} {head : List Received} {start : ℕ} {got : List Received}
    (h : Delivered l a head start history got) (hp : Placed l) (hlast : l.lastSeq = history.length)
    {label : LeaseLabel} (hm : Moves l label l') :
    Delivered l' a head start (history ++ framesOf [label]) (got ++ receivedBy a [label]) := by
  have hstamp : Delivered l.stamp a head start history got := h.same rfl le_rfl rfl id
  cases hm with
  | answered hs hl =>
    rw [framesOf_silent hs, receivedBy_silent hs, List.append_nil, List.append_nil]
    exact h.answered hl
  | detached => simpa [framesOf, receivedBy] using h.detach _ _
  | released => simpa [framesOf, receivedBy] using h.release _
  | @finished closed _ =>
    have hf : Delivered (l.finishRelease closed) a head start history got := h.same rfl le_rfl rfl id
    simpa [framesOf, receivedBy] using hf
  | @retained env now text m size hl =>
    rw [hlast]
    simpa [framesOf, receivedBy] using (hstamp.answered hl).appendEvent
  | @failed env now text m fault hl =>
    have hr := (hstamp.answered hl).release "controller_failed"
    have hps : Placed l.stamp := hp.congr rfl le_rfl rfl fun _ _ => rfl
    have hpm : Placed (m.release "controller_failed") := (hps.answered hl).release _
    have hnone := hpm.released (release_released _ _)
    simpa [framesOf, receivedBy] using hr.later (by rw [hnone]; simp) [text]
  | @took b item att hrec hdet hpend =>
    by_cases hb : b = a
    · subst hb
      have ht : Delivered (l.modifyAttachment b fun _ => att) b head start history (got ++ [item]) :=
        h.take rfl le_rfl (by rw [modifyAttachment_heap_self, hrec])
          (by rw [modifyAttachment_heap_self]; exact hpend) rfl
      simpa [framesOf, receivedBy] using ht
    · have ht : Delivered (l.modifyAttachment b fun _ => att) a head start history got :=
        h.same rfl le_rfl (modifyAttachment_heap_of_ne l b _ (Ne.symm hb)) id
      simpa [framesOf, receivedBy, hb] using ht
  | @attached env now request m snapshot _ hsnap =>
    have hd := takeSnapshot_delivery (l.trim now).1 env request.recovery
    rw [hsnap] at hd
    have htrim : Delivered (l.trim now).1 a head start history got := h.same rfl le_rfl rfl id
    simpa [framesOf, receivedBy] using (htrim.quiet hd).publish _
  | started => simpa [framesOf, receivedBy] using h.quiet (start_delivery l)
  | @elapsed t =>
    have he : Delivered (l.elapse t) a head start history got := h.quiet rfl
    simpa [framesOf, receivedBy] using he
  | @resumed t =>
    have hf : Delivered { l with expiry := l.expiry.finish t } a head start history got := h.quiet rfl
    rcases resumeExpiry_spec l t with he | he
    · rw [he]
      simpa [framesOf, receivedBy] using hf
    · rw [he]
      simpa [framesOf, receivedBy] using hf.release _

/-- Where the stream of a recovery attachment starts. -/
theorem delivered_attached (h : Retained l history) {env : Surroundings} {now : ℚ}
    {request : AttachRequest} {m : Lease} {snapshot : List (Str × Json)}
    (hc : 0 ≤ request.cursor) (hrec : request.recovery = true)
    (hsnap : (l.trim now).1.takeSnapshot env request.recovery = (m, snapshot)) :
    Delivered (m.publish (m.newAttachment request snapshot)) l.opened
      (streamHead l.leaseId history (m.attachedText request snapshot)
        (max request.cursor.toNat m.trimmedThrough) history.length) history.length history [] := by
  have hd := takeSnapshot_delivery (l.trim now).1 env request.recovery
  rw [hsnap] at hd
  have hlog := delivery_sameLog hd
  have hid : m.leaseId = l.leaseId := hlog.leaseId
  have hop : m.opened = l.opened := hlog.opened
  have hm : Retained m history := (h.trim now).congr hlog.ring hlog.lastSeq hlog.trimmedThrough
  have hheap : (m.publish (m.newAttachment request snapshot)).heap l.opened =
      m.newAttachment request snapshot := by
    rw [← hop]; exact publish_heap_new m _
  have hpend : (m.newAttachment request snapshot).pending l.leaseId =
      streamHead l.leaseId history (m.attachedText request snapshot)
        (max request.cursor.toNat m.trimmedThrough) history.length := by
    have hreplay := hm.replayAfter request.cursor.toNat
    rw [Int.toNat_of_nonneg hc] at hreplay
    unfold streamHead
    rw [← hreplay, List.map_map]
    simp only [LeaseAttachment.pending, newAttachment, hrec, hid, hm.lastSeq, if_true,
      List.map_nil, List.append_nil]
    rfl
  refine ⟨hop ▸ Nat.lt_succ_self _, by rw [hheap]; exact hrec, history.length, [], le_rfl, le_rfl,
    fun _ => rfl, ⟨by rw [span_self]; rfl, by simp⟩, ?_⟩
  rw [hheap, show (m.publish (m.newAttachment request snapshot)).leaseId = l.leaseId from hid, hpend]
  exact ⟨by simp, fun _ => by simp⟩

/-! ## Runs -/

theorem Placed.run {trace : List LeaseLabel} (hrun : Run l trace l') (h : Placed l) : Placed l' :=
  hrun.invariant (fun _ _ _ hp hs => hp.step (step_moves hs)) h

/-- A release is for good. -/
theorem released_step {label : LeaseLabel} (hm : Moves l label l') (h : l.released = true) :
    l'.released = true := by
  cases hm with
  | answered _ hl => exact hl.sameLog.released.trans h
  | detached => exact (detach_sameLog _ _ _).released.trans h
  | released => exact release_released _ _
  | finished => exact h
  | retained hl =>
    exact (appendEvent_sameLog _ _).released.trans (hl.sameLog.released.trans h)
  | failed => exact release_released _ _
  | took => exact h
  | attached href => exact absurd ((attachRefused_none href).1.symm.trans h) (by simp)
  | started => exact (delivery_sameLog (start_delivery l)).released.trans h
  | elapsed => exact h
  | @resumed t =>
    rcases resumeExpiry_spec l t with he | he
    · rw [he]; exact h
    · rw [he]; exact release_released _ _

theorem not_released_of_run {trace : List LeaseLabel} (hrun : Run l trace l')
    (h : l'.released = false) : l.released = false := by
  by_contra hl
  have := hrun.invariant (I := fun l => l.released = true)
    (fun _ _ _ hr hs => released_step (step_moves hs) hr) (by simpa using hl)
  simp [this] at h

theorem Retained.run {trace : List LeaseLabel} (hrun : Run l trace l') (h : Retained l history)
    (hr : l'.released = false) : Retained l' (history ++ framesOf trace) := by
  induction hrun generalizing history with
  | nil => simpa [framesOf] using h
  | @cons l label m trace l' hs hrest ih =>
    have hm := h.step (step_moves hs) (not_released_of_run hrest hr)
    have := ih hm hr
    rwa [List.append_assoc, ← framesOf_append] at this

/-- What an attachment delivers over a run. -/
theorem Delivered.run {a : ℕ} {head : List Received} {start : ℕ} {got : List Received}
    {trace : List LeaseLabel} (hrun : Run l trace l') (h : Delivered l a head start history got)
    (hp : Placed l) (hlast : l.lastSeq = history.length) :
    Delivered l' a head start (history ++ framesOf trace) (got ++ receivedBy a trace) := by
  induction hrun generalizing history got with
  | nil => simpa [framesOf, receivedBy] using h
  | @cons l label m trace l' hs hrest ih =>
    have hm := step_moves hs
    have := ih (h.step hp hlast hm) (hp.step hm) (lastSeq_step hlast hm)
    rwa [List.append_assoc, ← framesOf_append, List.append_assoc, ← receivedBy_append] at this

theorem Lease.Fresh.retained (h : l.Fresh) : Retained l [] :=
  ⟨h.lastSeq, by simp [h.trimmedThrough], by simp [h.ring, h.trimmedThrough, span_self]⟩

theorem Lease.Fresh.placed (h : l.Fresh) : Placed l :=
  ⟨fun _ ha => (Option.some_ne_none _ (ha.symm.trans h.attachment)).elim, fun _ => h.attachment⟩

end MercuryRelay
