/-
  How often a submission is forwarded.

  Once it is, its record stays until a response settles it; a full table may
  then drop it, and only then is the submission forwarded again.

  * `pending_step`: what a step can do to a record in flight;
  * `forwards_recycled`: what happens between two forwards of one submission.
-/
import MercuryRelay.Lease.Delivery
import MercuryRelay.Lease.Ledger

set_option autoImplicit false

namespace MercuryRelay

open Python

/-- The event sends the submission `sid` to the controller, under a request
    identifier. -/
def Forwards (depths : JsonDepths) (sid : Str) (requestId : Json) (label : LeaseLabel) : Prop :=
  ∃ env a text, label = (.submit env a text, .submitted true) ∧
    parseSubmission (loadsStrict depths text) = .ok (some (sid, requestId))

namespace Lease

/-- The submission `sid` is in flight under a request identifier. -/
def InFlight (l : Lease) (sid : Str) (requestId : Json) : Prop :=
  ∃ record, l.submissions.get sid = some record ∧ record.outcome = none ∧
    record.requestId = requestId

/-- The event is a frame with the outcome of the submission `sid`. -/
def RecordsOutcome (l : Lease) (sid : Str) (requestId : Json) (label : LeaseLabel) (l' : Lease) :
    Prop :=
  ∃ env now text out record outcome, label = (.frame env now text, out) ∧
    l.settles text = some (sid, record, outcome) ∧ record.requestId = requestId ∧
    l'.submissions.get sid = some (record.settle outcome)

/-- The record of `sid`, which has its outcome, is dropped from a full table. -/
def DropsRecord (l : Lease) (sid : Str) (l' : Lease) : Prop :=
  l.limits.maxTrackedSubmissions ≤ l.submissions.length ∧
    (∃ record, l.submissions.get sid = some record ∧ record.outcome.isSome) ∧
    l'.submissions.get sid = none

/-- In a run the outcome of the submission `sid` is recorded, and its record is
    dropped from a full table later. -/
def Recycled (l : Lease) (sid : Str) (requestId : Json) (trace : List LeaseLabel) (l' : Lease) :
    Prop :=
  ∃ t₁ recording t₂ dropping t₃ m m' n n',
    trace = t₁ ++ recording :: (t₂ ++ dropping :: t₃) ∧ Run l t₁ m ∧
    Step m recording m' ∧ m.RecordsOutcome sid requestId recording m' ∧ Run m' t₂ n ∧
    Step n dropping n' ∧ n.DropsRecord sid n' ∧ Run n' t₃ l'

variable {l l' m : Lease} {sid : Str} {requestId : Json} {record : SubmissionRecord}
  {label : LeaseLabel}

theorem Evicts.get_some {d : Dict Str SubmissionRecord} (h : Evicts l d)
    (hget : l.submissions.get sid = some record) :
    Dict.get d sid = some record ∨
      Dict.get d sid = none ∧ l.limits.maxTrackedSubmissions ≤ l.submissions.length ∧
        record.outcome.isSome := by
  cases h with
  | room => exact .inl hget
  | @evicted key old hfull hold hsome =>
    rw [Dict.get_remove]
    split
    · rename_i hkey
      subst hkey
      rw [hget] at hold
      cases hold
      exact .inr ⟨rfl, hfull, hsome⟩
    · exact .inl hget

theorem Evicts.get_pending {d : Dict Str SubmissionRecord} (h : Evicts l d)
    (hget : l.submissions.get sid = some record) (hnone : record.outcome = none) :
    Dict.get d sid = some record := by
  rcases h.get_some hget with hd | ⟨-, -, hsome⟩
  · exact hd
  · rw [hnone] at hsome
    cases hsome

theorem await_outcome (record : SubmissionRecord) (waiter : Waiter) :
    (record.await waiter).outcome = record.outcome := by
  unfold SubmissionRecord.await
  split <;> rfl

theorem await_requestId (record : SubmissionRecord) (waiter : Waiter) :
    (record.await waiter).requestId = record.requestId := by
  unfold SubmissionRecord.await
  split <;> rfl

/-- **What a step can do to a record in flight**: a response settles it, and
    nothing else touches it. -/
theorem pending_step (hk : l.submissions.Keyed) (hs : Step l label l') (hrel : l.released = false)
    (h : l.InFlight sid requestId) :
    l'.InFlight sid requestId ∨ l.RecordsOutcome sid requestId label l' := by
  obtain ⟨record, hget, hnone, hid⟩ := h
  cases step_records hk hs with
  | kept hsub => exact .inl ⟨record, by rw [hsub]; exact hget, hnone, hid⟩
  | @submitted env a text sid' requestId' _ fault ho hf =>
    have hne : sid' ≠ sid := by
      intro he
      have hnew := ho.new
      rw [he, hget] at hnew
      cases hnew
    left
    cases hf with
    | forwarded hd hsub =>
      exact ⟨record, by rw [hsub, Dict.get_set_of_ne hne]; exact hd.get_pending hget hnone, hnone, hid⟩
    | refused hd hsub => exact ⟨record, by rw [hsub]; exact hd.get_pending hget hnone, hnone, hid⟩
    | rejected hd hsub =>
      exact ⟨record, by rw [hsub, Dict.get_set_of_ne hne]; exact hd.get_pending hget hnone, hnone, hid⟩
    | exhausted => exact ⟨record, hget, hnone, hid⟩
  | @waiting env a text sid' requestId' record' _ _ _ hget' hnone' hsub =>
    left
    by_cases he : sid' = sid
    · subst he
      rw [hget] at hget'
      cases hget'
      refine ⟨record.await (requestId', a), by rw [hsub, Dict.get_set_self], ?_, ?_⟩
      · rw [await_outcome]; exact hnone
      · rw [await_requestId]; exact hid
    · exact ⟨record, by rw [hsub, Dict.get_set_of_ne he]; exact hget, hnone, hid⟩
  | @settled env now text sid' record' outcome out _ hset hsub =>
    by_cases he : sid' = sid
    · subst he
      have hget' := (settles_some hk hset).1
      rw [hget] at hget'
      cases hget'
      exact .inr ⟨env, now, text, out, record, outcome, rfl, hset, hid,
        by rw [hsub, Dict.get_set_self]⟩
    · exact .inl ⟨record, by rw [hsub, Dict.get_set_of_ne he]; exact hget, hnone, hid⟩
  | cleared hrel' => rw [hrel] at hrel'; cases hrel'

/-- A record that is gone had its outcome, and the table was full. -/
theorem dropped_step (hk : l.submissions.Keyed) (hs : Step l label l') (hrel : l.released = false)
    (h : (l.submissions.get sid).isSome) (hgone : ¬ (l'.submissions.get sid).isSome) :
    l.DropsRecord sid l' := by
  obtain ⟨record, hget⟩ := Option.isSome_iff_exists.1 h
  have hnone : l'.submissions.get sid = none := by simpa using hgone
  have hdrop : ∀ {d : Dict Str SubmissionRecord}, Evicts l d → Dict.get d sid = none →
      l.DropsRecord sid l' := by
    intro d hd hd'
    rcases hd.get_some hget with hsome | ⟨-, hfull, hsome⟩
    · rw [hd'] at hsome
      cases hsome
    · exact ⟨hfull, ⟨record, hget, hsome⟩, hnone⟩
  have hset : ∀ {d : Dict Str SubmissionRecord} {sid' record'}, l'.submissions = d.set sid' record' →
      Dict.get d sid = none := by
    intro d sid' record' hsub
    rw [hsub, Dict.get_set] at hnone
    split at hnone
    · cases hnone
    · exact hnone
  cases step_records hk hs with
  | kept hsub => rw [hsub, hget] at hnone; cases hnone
  | submitted _ hf =>
    cases hf with
    | forwarded hd hsub => exact hdrop hd (hset hsub)
    | refused hd hsub => exact hdrop hd (hsub ▸ hnone)
    | rejected hd hsub => exact hdrop hd (hset hsub)
    | exhausted => rw [hget] at hnone; cases hnone
  | waiting _ _ _ _ hsub => have := hset hsub; rw [hget] at this; cases this
  | settled _ hsub => have := hset hsub; rw [hget] at this; cases this
  | cleared hrel' => rw [hrel] at hrel'; cases hrel'

/-- A submission that is forwarded had no record, and is in flight then. -/
theorem forwards_step (hk : l.submissions.Keyed) (hs : Step l label l')
    (h : Forwards l.depths sid requestId label) :
    l.released = false ∧ l.submissions.get sid = none ∧ l'.InFlight sid requestId := by
  obtain ⟨env, a, text, hlabel, hp⟩ := h
  cases step_records hk hs with
  | kept _ hun =>
    obtain ⟨hfwd, -⟩ := hun.submitted _ _ _ _ _ _ hlabel hp
    cases hfwd
  | @submitted env' a' text' sid' requestId' _ fault ho hf =>
    simp only [Prod.mk.injEq, LeaseEvent.submit.injEq] at hlabel
    obtain ⟨⟨rfl, rfl, rfl⟩, hout⟩ := hlabel
    obtain ⟨rfl, rfl⟩ : sid' = sid ∧ requestId' = requestId := by
      simpa using ho.tracked.symm.trans hp
    cases hf with
    | forwarded _ hsub =>
      exact ⟨ho.released, ho.new, { requestId := requestId' }, by rw [hsub, Dict.get_set_self], rfl, rfl⟩
    | refused => cases hout
    | rejected => cases hout
    | exhausted => cases hout
  | waiting => simp at hlabel
  | settled => simp at hlabel
  | cleared => simp at hlabel

/-- **What happens between two forwards of one submission**: the outcome of the
    first is recorded, and then its record is dropped from a full table. -/
theorem forwards_recycled {first second : LeaseLabel} {between : List LeaseLabel} {p p' q q' : Lease}
    {requestId' : Json} (hk : p.submissions.Keyed) (h1 : Step p first p')
    (hf1 : Forwards p.depths sid requestId first) (hrun : Run p' between q) (h2 : Step q second q')
    (hf2 : Forwards q.depths sid requestId' second) : p'.Recycled sid requestId between q := by
  obtain ⟨-, -, hflight⟩ := forwards_step hk h1 hf1
  have hk' := (step_records hk h1).keyed hk
  obtain ⟨hrel, hnone, -⟩ := forwards_step (keyed_run hrun hk') h2 hf2
  have hsome : (p'.submissions.get sid).isSome := by
    obtain ⟨record, hget, -⟩ := hflight
    simp [hget]
  -- the record is gone at the second forward, so some step drops it
  obtain ⟨as, dropping, t₃, n, n', rfl, hrun₁, hn, hdrop, hn', hrun₃⟩ :=
    hrun.lost (P := fun m => (m.submissions.get sid).isSome) hsome (by simp [hnone])
  have hrn : n.released = false := not_released_of_run (.cons hdrop hrun₃) hrel
  have hkn := keyed_run hrun₁ hk'
  have hdrops := dropped_step hkn hdrop hrn hn hn'
  -- it has its outcome there, so some step before recorded it
  have hsettled : ¬ n.InFlight sid requestId := by
    rintro ⟨record, hget, ho, -⟩
    obtain ⟨-, ⟨record', hget', hsome'⟩, -⟩ := hdrops
    rw [hget] at hget'
    cases hget'
    simp [ho] at hsome'
  obtain ⟨t₁, recording, t₂, m, m', rfl, hrun₀, hm, hrec, hm', hrun₂⟩ :=
    hrun₁.lost (P := fun m => m.InFlight sid requestId) hflight hsettled
  have hrm : m.released = false := not_released_of_run (.cons hrec hrun₂) hrn
  rcases pending_step (keyed_run hrun₀ hk') hrec hrm hm with hin | hout
  · exact absurd hin hm'
  · exact ⟨t₁, recording, t₂, dropping, t₃, m, m', n, n', by simp, hrun₀, hrec, hout, hrun₂, hdrop,
      hdrops, hrun₃⟩

end Lease

end MercuryRelay
