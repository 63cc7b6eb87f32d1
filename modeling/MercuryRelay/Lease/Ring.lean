/-
  The retention ring (session_lease.py, `_retain`, `_trim`, `attach`).

  * `ring_retained`: the ring holds the frames after the trim point within its
    limits, and an attachment is told of a gap if and only if there is one.
-/
import Mathlib.Algebra.Order.Ring.Rat
import Mathlib.Tactic.Linarith
import MercuryRelay.Lease.Delivery

set_option autoImplicit false

namespace MercuryRelay

open Python Log Lease

/-- The octets of the events of a ring. -/
def ringSize (ring : List RetainedEvent) : ℤ := ((ring.map (·.size)).sum : ℕ)

/-- A limit on the number of events or on their octets is passed. -/
def Lease.OverCapacity (l : Lease) : Prop :=
  l.limits.maxEvents < l.ring.length ∨ (l.limits.maxEventBytes : ℤ) < l.ringBytes

/-- The lease as `_retain` trims it. -/
def Lease.pushed (l : Lease) (event : RetainedEvent) : Lease :=
  { l with ring := l.ring ++ [event], ringBytes := l.ringBytes + event.size }

/-- When the clock was read for an event. -/
def reading : LeaseLabel → Option ℚ
  | (.frame _ now _, .done) => some now
  | (.attach _ now _, .attached _ _) => some now
  | _ => none

def readings (trace : List LeaseLabel) : List ℚ := trace.filterMap reading

/-- A recovery attachment is opened. -/
def EnablesRecovery : LeaseLabel → Prop
  | (.attach _ _ request, .attached _ _) => request.recovery = true
  | _ => False

/-! ## Trimming -/

theorem ringSize_cons (e : RetainedEvent) (ring : List RetainedEvent) :
    ringSize (e :: ring) = e.size + ringSize ring := by
  simp [ringSize]

theorem ringSize_concat (ring : List RetainedEvent) (e : RetainedEvent) :
    ringSize (ring ++ [e]) = ringSize ring + e.size := by
  simp [ringSize]

/-- What is left of a ring after a trim at `now`. -/
structure Trimmed (limits : LeaseLimits) (now : ℚ) (ring ring' : List RetainedEvent) : Prop where
  suffix : ring' <:+ ring
  events : ring'.length ≤ limits.maxEvents
  bytes : ringSize ring' ≤ limits.maxEventBytes
  head : ∀ e ∈ ring'.head?, now - e.storedAt ≤ limits.maxEventAgeSeconds

/-- The loop keeps the sum, ends within the limits, and reports overflow if and
    only if a capacity was exceeded when it began. -/
theorem trimLoop_spec {limits : LeaseLimits} {now : ℚ} {ring ring' : List RetainedEvent}
    {bytes bytes' : ℤ} {trimmed trimmed' : ℕ} {overflow overflow' : Bool} (hb : bytes = ringSize ring)
    (hx : trimLoop limits now ring bytes trimmed overflow = (ring', bytes', trimmed', overflow')) :
    Trimmed limits now ring ring' ∧ bytes' = ringSize ring' ∧
      (overflow' = true ↔ overflow = true ∨ limits.maxEvents < ring.length ∨
        (limits.maxEventBytes : ℤ) < bytes) := by
  induction ring generalizing bytes trimmed overflow with
  | nil =>
    cases hx
    refine ⟨⟨List.suffix_rfl, Nat.zero_le _, ?_, by simp⟩, hb, ?_⟩
    · simp [ringSize]
    · have hpos := limits.maxEventBytes_pos
      have hno : ¬ (limits.maxEventBytes : ℤ) < bytes' := by
        rw [hb]
        simp [ringSize]
      simp [hno]
  | cons e ring ih =>
    rw [ringSize_cons] at hb
    unfold trimLoop at hx
    split at hx
    · obtain ⟨ht, hb', ho⟩ := ih (by omega) hx
      refine ⟨⟨ht.suffix.trans (List.suffix_cons _ _), ht.events, ht.bytes, ht.head⟩, hb', ?_⟩
      rw [ho, List.length_cons]
      simp only [Bool.or_eq_true, decide_eq_true_eq, or_assoc]
      -- what remains is no larger, so that a capacity it exceeds was exceeded before
      refine or_congr_right ?_
      omega
    · rename_i hc
      simp only [not_or, not_lt] at hc
      cases hx
      refine ⟨⟨List.suffix_rfl, hc.1, ?_, ?_⟩, ?_, ?_⟩
      · rw [ringSize_cons]
        omega
      · rintro x ⟨⟩
        exact hc.2.2
      · rw [ringSize_cons]
        omega
      · rw [List.length_cons]
        refine ⟨.inl, fun h => h.resolve_right ?_⟩
        omega

variable {l l' : Lease}

theorem trim_spec (hb : l.ringBytes = ringSize l.ring) (now : ℚ) :
    Trimmed l.limits now l.ring (l.trim now).1.ring ∧
      (l.trim now).1.ringBytes = ringSize (l.trim now).1.ring ∧
      ((l.trim now).2 = true ↔ l.OverCapacity) := by
  rcases hx : trimLoop l.limits now l.ring l.ringBytes l.trimmedThrough false with
    ⟨ring, bytes, trimmed, overflow⟩
  obtain ⟨h1, h2, h3⟩ := trimLoop_spec hb hx
  unfold Lease.trim
  rw [hx]
  exact ⟨h1, h2, by simpa [OverCapacity] using h3⟩

theorem pushed_bytes (hb : l.ringBytes = ringSize l.ring) (event : RetainedEvent) :
    (l.pushed event).ringBytes = ringSize (l.pushed event).ring := by
  simp [pushed, ringSize_concat, hb]

theorem ringed_spec (hb : l.ringBytes = ringSize l.ring) (event : RetainedEvent) :
    Trimmed l.limits event.storedAt (l.ring ++ [event]) (l.ringed event).ring ∧
      (l.ringed event).ringBytes = ringSize (l.ringed event).ring := by
  obtain ⟨h1, h2, -⟩ := trim_spec (pushed_bytes hb event) event.storedAt
  exact ⟨h1, h2⟩

/-! ## Steps -/

/-- The ring is as it was, and what is decided about it. -/
structure SameRing (l l' : Lease) : Prop where
  limits : l'.limits = l.limits
  ring : l'.ring = l.ring
  ringBytes : l'.ringBytes = l.ringBytes
  trimmedThrough : l'.trimmedThrough = l.trimmedThrough
  recoveryEnabled : l'.recoveryEnabled = l.recoveryEnabled
  capReleaseScheduled : l'.capReleaseScheduled = l.capReleaseScheduled

namespace SameRing

theorem refl (l : Lease) : SameRing l l := ⟨rfl, rfl, rfl, rfl, rfl, rfl⟩

theorem trans {l'' : Lease} (h : SameRing l l') (h' : SameRing l' l'') : SameRing l l'' :=
  ⟨h'.limits.trans h.limits, h'.ring.trans h.ring, h'.ringBytes.trans h.ringBytes,
    h'.trimmedThrough.trans h.trimmedThrough, h'.recoveryEnabled.trans h.recoveryEnabled,
    h'.capReleaseScheduled.trans h.capReleaseScheduled⟩

theorem upkeep (h : l'.upkeep = l.upkeep) : SameRing l l' :=
  ⟨congrArg (·.delivery.limits) h, congrArg (·.delivery.ring) h, congrArg (·.ringBytes) h,
    congrArg (·.delivery.trimmedThrough) h, congrArg (·.recoveryEnabled) h, congrArg (·.capReleaseScheduled) h⟩

theorem detach (l : Lease) (a : ℕ) (reason : DetachReason) : SameRing l (l.detach a reason) := by
  unfold Lease.detach
  split <;> exact ⟨rfl, rfl, rfl, rfl, rfl, rfl⟩

theorem deliver (l : Lease) (a : ℕ) (item : LiveText) : SameRing l (l.deliver a item) := by
  unfold Lease.deliver
  split
  · exact detach l a _
  · exact ⟨rfl, rfl, rfl, rfl, rfl, rfl⟩

theorem answered {P : AnswerCause → Json → ℕ → Prop} (h : Answered P l l') : SameRing l l' := by
  induction h with
  | quiet h => exact upkeep h
  | answer => exact deliver _ _ _
  | trans _ _ ih ih' => exact ih.trans ih'

theorem release (l : Lease) (reason : String) : SameRing l (l.release reason) := by
  unfold Lease.release
  split
  · exact refl l
  · dsimp only
    split <;> exact ⟨rfl, rfl, rfl, rfl, rfl, rfl⟩

theorem start (l : Lease) : SameRing l l.start := by
  unfold Lease.start
  split <;> exact ⟨rfl, rfl, rfl, rfl, rfl, rfl⟩

theorem resumeExpiry (l : Lease) (t : ℕ) : SameRing l (l.resumeExpiry t) := by
  have hf : SameRing l { l with expiry := l.expiry.finish t } := ⟨rfl, rfl, rfl, rfl, rfl, rfl⟩
  rcases resumeExpiry_spec l t with h | h
  · rw [h]
    exact hf
  · rw [h]
    exact hf.trans (release _ _)

/-- An event is trimmed as it was. -/
theorem pushed (h : SameRing l l') (event : RetainedEvent) :
    ((l'.pushed event).trim event.storedAt).2 = ((l.pushed event).trim event.storedAt).2 ∧
      (l'.ringed event).ring = (l.ringed event).ring ∧
      (l'.ringed event).ringBytes = (l.ringed event).ringBytes := by
  simp only [ringed, Lease.pushed, trim, h.limits, h.ring, h.ringBytes, h.trimmedThrough, and_self]

end SameRing

/-- Without an attachment there are no answers. -/
theorem Lease.Answered.upkeep_of_none {P : AnswerCause → Json → ℕ → Prop} (h : Answered P l l')
    (hn : l.attachment = none) : l'.upkeep = l.upkeep := by
  induction h with
  | quiet h => exact h
  | answer ha => cases hn.symm.trans ha
  | trans _ _ ih ih' =>
    have h1 := ih hn
    exact (ih' ((congrArg (·.delivery.attachment) h1).trans hn)).trans h1

theorem appendEvent_eq (l : Lease) (event : RetainedEvent) : l.appendEvent event =
    if ((l.pushed event).trim event.storedAt).2 = true ∧ l.attachment = none ∧
        ¬ l.recoveryEnabled = true then
      { l.ringed event with capReleaseScheduled := true }
    else
      match l.attachment with
      | none => l.ringed event
      | some a => (l.ringed event).deliver a ((l.ringed event).liveFrame a event) := rfl

/-- What is appended is trimmed, and a loss of capacity releases a lease that has
    no attachment and never enabled recovery. -/
theorem appendEvent_ring (l : Lease) (event : RetainedEvent) :
    (l.appendEvent event).ring = (l.ringed event).ring ∧
      (l.appendEvent event).ringBytes = (l.ringed event).ringBytes ∧
      (l.appendEvent event).recoveryEnabled = l.recoveryEnabled ∧
      ((l.appendEvent event).capReleaseScheduled = true ↔ l.capReleaseScheduled = true ∨
        ((l.pushed event).trim event.storedAt).2 = true ∧ l.attachment = none ∧
          ¬ l.recoveryEnabled = true) := by
  rw [appendEvent_eq]
  split
  · rename_i hc
    exact ⟨rfl, rfl, rfl, iff_of_true rfl (.inr hc)⟩
  · rename_i hc
    have hiff : (l.ringed event).capReleaseScheduled = true ↔ l.capReleaseScheduled = true ∨
        ((l.pushed event).trim event.storedAt).2 = true ∧ l.attachment = none ∧
          ¬ l.recoveryEnabled = true := ⟨.inl, fun h => h.resolve_right hc⟩
    split
    · exact ⟨rfl, rfl, rfl, hiff⟩
    · rename_i a _
      have hd := SameRing.deliver (l.ringed event) a ((l.ringed event).liveFrame a event)
      exact ⟨hd.ring, hd.ringBytes, hd.recoveryEnabled, by rw [hd.capReleaseScheduled]; exact hiff⟩

/-- The event a frame becomes. -/
def Lease.eventOf (l : Lease) (now : ℚ) (text : Str) : RetainedEvent :=
  ⟨l.lastSeq + 1, text, byteSize text, now⟩

/-- What a step can do to the ring. -/
inductive RingMove (l : Lease) : LeaseLabel → Lease → Prop
  | kept {label l'} : reading label = none → ¬ EnablesRecovery label → SameRing l l' →
      RingMove l label l'
  | pushed {env now text l'} : l'.limits = l.limits →
      l'.ring = (l.ringed (l.eventOf now text)).ring →
      l'.ringBytes = (l.ringed (l.eventOf now text)).ringBytes →
      l'.recoveryEnabled = l.recoveryEnabled →
      (l.attachment = none → (l'.capReleaseScheduled = true ↔ l.capReleaseScheduled = true ∨
        ((l.pushed (l.eventOf now text)).trim now).2 = true ∧ ¬ l.recoveryEnabled = true)) →
      RingMove l (.frame env now text, .done) l'
  | attached {env now request a gap l'} : l'.limits = l.limits → l'.ring = (l.trim now).1.ring →
      l'.ringBytes = (l.trim now).1.ringBytes →
      l'.recoveryEnabled = (l.recoveryEnabled || request.recovery) →
      RingMove l (.attach env now request, .attached a gap) l'
  | cleared {closed l'} : l.released = true → l'.ring = [] → l'.ringBytes = 0 →
      l'.recoveryEnabled = l.recoveryEnabled → RingMove l (.finishRelease closed, .done) l'

theorem silent_kept {label : LeaseLabel} (h : Silent label) (hne : ∀ env now text,
    label ≠ (.frame env now text, .done)) : reading label = none ∧ ¬ EnablesRecovery label := by
  obtain ⟨e, out⟩ := label
  cases e with
  | frame => exact h.elim
  | attach env now request =>
    cases out with
    | attached => exact h.elim
    | _ => exact ⟨rfl, id⟩
  | _ => exact ⟨rfl, id⟩

theorem step_ring {label : LeaseLabel} (hs : Step l label l') : RingMove l label l' := by
  cases step_moves hs with
  | answered hsilent hl =>
    obtain ⟨h1, h2⟩ := silent_kept hsilent fun env now text he => by rw [he] at hsilent; exact hsilent
    exact .kept h1 h2 (SameRing.answered hl)
  | detached => exact .kept rfl id (SameRing.detach _ _ _)
  | released => exact .kept rfl id (SameRing.release _ _)
  | finished hr => exact .cleared hr rfl rfl rfl
  | @retained env now text m size hl hsize =>
    subst hsize
    have hstamp : SameRing l l.stamp := ⟨rfl, rfl, rfl, rfl, rfl, rfl⟩
    have hm : SameRing l m := hstamp.trans (SameRing.answered hl)
    obtain ⟨p1, p2, p3⟩ := hm.pushed (l.eventOf now text)
    obtain ⟨h1, h2, h3, h4⟩ := appendEvent_ring m (l.eventOf now text)
    refine .pushed ((appendEvent_sameLog _ _).limits.trans hm.limits) (h1.trans p2) (h2.trans p3)
      (h3.trans hm.recoveryEnabled) fun hnone => ?_
    have hu : m.upkeep = l.stamp.upkeep := hl.upkeep_of_none hnone
    have hmnone : m.attachment = none :=
      (congrArg (fun u : Upkeep => u.delivery.attachment) hu).trans hnone
    rw [hm.capReleaseScheduled, hm.recoveryEnabled, p1] at h4
    refine h4.trans (or_congr_right ?_)
    exact ⟨fun h => ⟨h.1, h.2.2⟩, fun h => ⟨h.1, hmnone, h.2⟩⟩
  | failed hl =>
    have hstamp : SameRing l l.stamp := ⟨rfl, rfl, rfl, rfl, rfl, rfl⟩
    exact .kept rfl id ((hstamp.trans (SameRing.answered hl)).trans (SameRing.release _ _))
  | took => exact .kept rfl id ⟨rfl, rfl, rfl, rfl, rfl, rfl⟩
  | @attached env now request m snapshot _ hsnap =>
    have hu := takeSnapshot_upkeep (l.trim now).1 env request.recovery
    rw [hsnap] at hu
    have hm := SameRing.upkeep hu
    refine .attached hm.limits hm.ring hm.ringBytes ?_
    show (m.recoveryEnabled || request.recovery) = _
    rw [hm.recoveryEnabled]
    rfl
  | started => exact .kept rfl id (SameRing.start _)
  | elapsed => exact .kept rfl id ⟨rfl, rfl, rfl, rfl, rfl, rfl⟩
  | resumed => exact .kept rfl id (SameRing.resumeExpiry _ _)

/-! ## Runs -/

/-- The octets of the ring are counted, and its events were stored at readings
    of the clock, in order. -/
structure Stored (l : Lease) (times : List ℚ) : Prop where
  bytes : l.ringBytes = ringSize l.ring
  dates : (l.ring.map (·.storedAt)).Sublist times

theorem Stored.step {times : List ℚ} (h : Stored l times) {label : LeaseLabel} (hs : Step l label l') :
    Stored l' (times ++ readings [label]) := by
  cases step_ring hs with
  | kept hr _ hl =>
    have hnil : readings [label] = [] := by simp [readings, hr]
    rw [hnil, List.append_nil]
    exact ⟨by rw [hl.ringBytes, hl.ring]; exact h.bytes, by rw [hl.ring]; exact h.dates⟩
  | @pushed env now text _ _ h2 h3 =>
    obtain ⟨ht, hb⟩ := ringed_spec h.bytes (l.eventOf now text)
    refine ⟨by rw [h2, h3]; exact hb, ?_⟩
    rw [h2]
    refine (ht.suffix.sublist.map _).trans ?_
    rw [List.map_append]
    exact h.dates.append_right _
  | @attached env now request a gap _ _ h2 h3 =>
    obtain ⟨ht, hb, -⟩ := trim_spec h.bytes now
    refine ⟨by rw [h2, h3]; exact hb, ?_⟩
    rw [h2]
    exact ((ht.suffix.sublist.map _).trans h.dates).trans (List.sublist_append_left _ _)
  | cleared _ h2 h3 => exact ⟨by simp [h2, h3, ringSize], by simp [h2]⟩

theorem Stored.run {trace : List LeaseLabel} (hrun : Run l trace l') {times : List ℚ}
    (h : Stored l times) : Stored l' (times ++ readings trace) := by
  induction hrun generalizing times with
  | nil => simpa [readings] using h
  | @cons l label m trace l' hs _ ih =>
    have := ih (h.step hs)
    rwa [List.append_assoc, show readings [label] ++ readings trace = readings (label :: trace) from
      (List.filterMap_append (f := reading) (l := [label])).symm] at this

/-- Recovery is enabled by a recovery attachment only. -/
theorem recovery_run {trace : List LeaseLabel} (hrun : Run l trace l')
    (h : l.recoveryEnabled = false) (htrace : ∀ label ∈ trace, ¬ EnablesRecovery label) :
    l'.recoveryEnabled = false := by
  refine hrun.invariant_mem (I := fun l => l.recoveryEnabled = false) ?_ h
  intro l label hmem l' hl hs
  cases step_ring hs with
  | kept _ _ hsame => exact hsame.recoveryEnabled.trans hl
  | pushed _ _ _ hrec => exact hrec.trans hl
  | @attached env now request a gap _ _ _ _ hrec =>
    have hno : ¬ request.recovery = true := htrace _ hmem
    rw [hrec, hl]
    simpa using hno
  | cleared _ _ _ hrec => exact hrec.trans hl

theorem span_numbers {history : List Str} {m n : ℕ} (hn : n ≤ history.length) :
    (span history m n).map (·.2) = List.range' (m + 1) (n - m) := by
  have hall : (history.zipIdx 1).map Prod.snd = List.range' 1 history.length := by simp
  unfold span
  rw [List.map_drop, List.map_take, hall]
  apply List.ext_getElem
  · simp
    omega
  · intro i h1 h2
    simp
    omega

/-- The events of a ring are dated in order, so that the first one is the oldest. -/
theorem ages {ring : List RetainedEvent} {limit now : ℚ} (hd : (ring.map (·.storedAt)).Pairwise (· ≤ ·))
    (hhead : ∀ e ∈ ring.head?, now - e.storedAt ≤ limit) : ∀ e ∈ ring, now - e.storedAt ≤ limit := by
  intro e he
  cases ring with
  | nil => cases he
  | cons first ring =>
    have hfirst := hhead first rfl
    rcases List.mem_cons.1 he with rfl | he
    · exact hfirst
    · have hle : first.storedAt ≤ e.storedAt :=
        (List.pairwise_cons.1 hd).1 _ (List.mem_map_of_mem he)
      linarith

variable {l₀ : Lease} {trace : List LeaseLabel}

/-- A gap is a frame after the cursor that the replay lacks. -/
theorem gap_iff {history : List Str} (h : Retained l history) {cursor : ℤ} (hc : 0 ≤ cursor) :
    l.replayGap cursor = true ↔
      ∃ s : ℕ, cursor < s ∧ s ≤ l.lastSeq ∧ ∀ e ∈ l.replayAfter cursor, e.leaseSeq ≠ s := by
  have hreplay := h.replayAfter cursor.toNat
  rw [Int.toNat_of_nonneg hc] at hreplay
  have hseqs : (l.replayAfter cursor).map (·.leaseSeq) =
      List.range' (max cursor.toNat l.trimmedThrough + 1)
        (l.lastSeq - max cursor.toNat l.trimmedThrough) := by
    have := congrArg (List.map Prod.snd) hreplay
    rw [List.map_map, span_numbers le_rfl, ← h.lastSeq] at this
    exact this
  have hmem : ∀ s : ℕ, (∀ e ∈ l.replayAfter cursor, e.leaseSeq ≠ s) ↔
      s ∉ (l.replayAfter cursor).map (·.leaseSeq) := by
    intro s
    simp
  have htrim := h.lastSeq ▸ h.trimmed
  unfold replayGap
  rw [decide_eq_true_eq]
  constructor
  · intro hlt
    refine ⟨cursor.toNat + 1, by omega, by omega, (hmem _).2 ?_⟩
    rw [hseqs, List.mem_range'_1]
    omega
  · rintro ⟨s, h1, h2, h3⟩
    rw [hmem, hseqs, List.mem_range'_1] at h3
    omega

/-- **The retention ring.**  In every state of a lease that is not released, the
    ring holds the frames after the trim point, its octets are counted, and
    `_trim` reports overflow if and only if a capacity was exceeded when it
    began.  When a frame was retained, the ring is within its limits, and the
    lease is released if it has no attachment, never enabled recovery and the
    frame exceeded a capacity.  An attachment is told of a gap if and only if
    its replay lacks a frame after its cursor. -/
theorem ring_retained (hfresh : l₀.Fresh) (hrun : Run l₀ trace l) (hreleased : l.released = false)
    (hclock : (readings trace).Pairwise (· ≤ ·)) :
    (l.trimmedThrough ≤ l.lastSeq ∧ l.ring.map (·.leaseSeq) =
      List.range' (l.trimmedThrough + 1) (l.lastSeq - l.trimmedThrough)) ∧
    l.ringBytes = ringSize l.ring ∧
    (∀ now, (l.trim now).2 = true ↔ l.OverCapacity) ∧
    (∀ event now, ((l.pushed event).trim now).2 = true ↔ (l.pushed event).OverCapacity) ∧
    (∀ env now text l', (∀ t ∈ readings trace, t ≤ now) → Step l (.frame env now text, .done) l' →
      l'.ring.length ≤ l'.limits.maxEvents ∧ l'.ringBytes ≤ l'.limits.maxEventBytes ∧
      (∀ e ∈ l'.ring, now - e.storedAt ≤ l'.limits.maxEventAgeSeconds) ∧
      (l.attachment = none → (∀ label ∈ trace, ¬ EnablesRecovery label) →
        (l'.capReleaseScheduled = true ↔ l.capReleaseScheduled = true ∨
          (l.pushed (l.eventOf now text)).OverCapacity))) ∧
    (∀ env now request a gap l', Step l (.attach env now request, .attached a gap) l' →
      (gap = true ↔ ∃ s : ℕ, request.cursor < s ∧ s ≤ l'.lastSeq ∧
        ∀ e ∈ (l'.heap a).replay, e.leaseSeq ≠ s)) := by
  have hret : Retained l (framesOf trace) := hfresh.retained.run hrun hreleased
  have hstored : Stored l (readings trace) := by
    have hinit : Stored l₀ [] := ⟨by simp [hfresh.ring, hfresh.ringBytes, ringSize], by simp [hfresh.ring]⟩
    simpa using hinit.run hrun
  refine ⟨⟨hret.lastSeq ▸ hret.trimmed, ?_⟩, hstored.bytes, fun now => (trim_spec hstored.bytes now).2.2,
    fun event now => (trim_spec (pushed_bytes hstored.bytes event) now).2.2,
    fun env now text l' hnow hs => ?_, fun env now request a gap l' hs => ?_⟩
  · have := congrArg (List.map Prod.snd) hret.ring
    rw [List.map_map, span_numbers le_rfl, ← hret.lastSeq] at this
    exact this
  · have hstored' := hstored.step hs
    cases step_ring hs with
    | kept hr => cases hr
    | pushed h1 h2 h3 _ h5 =>
      obtain ⟨ht, hb⟩ := ringed_spec hstored.bytes (l.eventOf now text)
      rw [← h2, ← h1] at ht
      rw [← h2, ← h3] at hb
      refine ⟨ht.events, hb ▸ ht.bytes, ages ?_ ht.head, fun hnone hrec => ?_⟩
      · refine List.Pairwise.sublist hstored'.dates ?_
        rw [List.pairwise_append]
        refine ⟨hclock, by simp [readings, reading], fun t hmem t' hnew => ?_⟩
        obtain rfl : t' = now := by simpa [readings, reading] using hnew
        exact hnow t hmem
      · have hoff := recovery_run hrun hfresh.recoveryEnabled hrec
        rw [h5 hnone, (trim_spec (pushed_bytes hstored.bytes _) _).2.2, hoff]
        simp
  · cases step_moves hs with
    | answered hsilent => exact hsilent.elim
    | @attached _ _ _ m snapshot href hsnap =>
      have hd := delivery_sameLog (takeSnapshot_delivery (l.trim now).1 env request.recovery)
      rw [hsnap] at hd
      have hm : Retained m (framesOf trace) :=
        (hret.trim now).congr hd.ring hd.lastSeq hd.trimmedThrough
      have hop : m.opened = l.opened := hd.opened
      rw [gap_iff hm (attachRefused_none href).2.1, ← hop, publish_heap_new]
      rfl

/-- Two frames for a lease that retains one. -/
def overflowing : List LeaseEvent :=
  [.frame (.standing 0 fun _ => true) 0 (lit "a"), .frame (.standing 0 fun _ => true) 1 (lit "b")]

theorem overflowing_executes : (execute { limits := { maxEvents := 1 } } overflowing).isSome := by
  decide

theorem ring_retained_overflowing : ∃ trace l, Run { limits := { maxEvents := 1 } } trace l ∧
    l.trimmedThrough = 1 ∧ l.lastSeq = 2 ∧ l.ring.map (·.leaseSeq) = [2] ∧
    l.capReleaseScheduled = true := by
  have hrun := run_of_execute (Option.some_get overflowing_executes).symm
  have h := ring_retained
    ⟨rfl, rfl, rfl, rfl, rfl, rfl, rfl, rfl, rfl, rfl, rfl, rfl, rfl, rfl⟩ hrun (by decide +kernel)
    (by decide +kernel)
  exact ⟨_, _, hrun, by decide +kernel, by decide +kernel, h.1.2.trans (by decide +kernel),
    by decide +kernel⟩

end MercuryRelay
