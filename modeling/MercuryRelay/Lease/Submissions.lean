/-
  Submissions that were refused (session_lease.py, `submit_text`).

  A record is made before the text is forwarded, and removed when the websocket
  refuses the text with an error of its own; what its validator or the encoder
  raises leaves the record behind.

  * `refused_forgotten_iff`: when a submission that was refused is forgotten.
-/
import MercuryRelay.Lease.Ledger

set_option autoImplicit false

namespace MercuryRelay

open Python Lease

/-- The event submits a text for the submission `sid`. -/
def Submits (depths : JsonDepths) (sid : Str) (label : LeaseLabel) : Prop :=
  ∃ env a text requestId, label.1 = .submit env a text ∧
    parseSubmission (loadsStrict depths text) = .ok (some (sid, requestId))

/-- The submission `sid` is unknown for as long as no text is submitted for it,
    and a text that is then submitted for it goes to the controller, if the
    websocket takes it and the table is not full of submissions in flight. -/
def Forgotten (sid : Str) (l : Lease) : Prop :=
  ∀ trace l', Run l trace l' → (∀ label ∈ trace, ¬ Submits l.depths sid label) →
    l'.submissions.get sid = none ∧
    ∀ env a retry requestId, l'.released = false → l'.attachment = some a →
      parseSubmission (loadsStrict l'.depths retry) = .ok (some (sid, requestId)) →
      (l'.websocket.feedText l'.depths env.profileAuthorizer retry).1 = .ok () →
      ¬ l'.Exhausted →
      (l'.submitText env a retry).2 = none ∧ l'.sent (l'.submitText env a retry).1 retry = true

variable {l l' : Lease} {sid : Str}

theorem Lease.Evicts.get {d : Dict Str SubmissionRecord} (h : Evicts l d) (s : Str) :
    Dict.get d s = l.submissions.get s ∨ Dict.get d s = none := by
  cases h with
  | room => exact .inl rfl
  | @evicted key _ _ _ _ =>
    rw [Dict.get_remove]
    split
    · exact .inr rfl
    · exact .inl rfl

/-- An unknown submission becomes known only when a text is submitted for it. -/
theorem unknown_step (hk : l.submissions.Keyed) {label : LeaseLabel} (h : Step l label l')
    (hn : l.submissions.get sid = none) (hlabel : ¬ Submits l.depths sid label) :
    l'.submissions.get sid = none := by
  cases step_records hk h with
  | kept hs => rw [hs]; exact hn
  | @submitted env a text sid' requestId _ fault ho hf =>
    have hne : sid' ≠ sid := fun he => hlabel ⟨env, a, text, requestId, rfl, he ▸ ho.tracked⟩
    cases hf with
    | forwarded hd hs => rw [hs, Dict.get_set_of_ne hne]; exact hd.get_none hn
    | refused hd hs => rw [hs]; exact hd.get_none hn
    | rejected hd hs => rw [hs, Dict.get_set_of_ne hne]; exact hd.get_none hn
    | exhausted => exact hn
  | waiting _ _ hget _ hs =>
    rw [hs, Dict.get_set_of_ne (fun he => by rw [he, hn] at hget; cases hget)]
    exact hn
  | settled hset hs =>
    have hget := (settles_some hk hset).1
    rw [hs, Dict.get_set_of_ne (fun he => by rw [he, hn] at hget; cases hget)]
    exact hn
  | cleared _ hs => rw [hs]; rfl

theorem unknown_run {trace : List LeaseLabel} (hrun : Run l trace l') (hk : l.submissions.Keyed)
    (hn : l.submissions.get sid = none) (htrace : ∀ label ∈ trace, ¬ Submits l.depths sid label) :
    l'.submissions.get sid = none := by
  induction hrun with
  | nil => exact hn
  | @cons l label m trace l' hs _ ih =>
    have hdepths := (step_moves hs).constants.depths
    refine ih ((step_records hk hs).keyed hk)
      (unknown_step hk hs hn (htrace label List.mem_cons_self)) fun label hl => ?_
    rw [hdepths]
    exact htrace label (List.mem_cons_of_mem _ hl)

/-- A new submission that the websocket takes, and that the table has room for,
    goes to the controller. -/
theorem newSubmission_forwarded {env : Surroundings} {text : Str} {requestId : Json}
    (hfeed : (l.websocket.feedText l.depths env.profileAuthorizer text).1 = .ok ())
    (hroom : ¬ l.Exhausted) :
    (l.newSubmission env text sid requestId).2 = none ∧
      l.sent (l.newSubmission env text sid requestId).1 text = true := by
  have hfwd : ∀ d, ((l.withSubmissions d).forwardSubmission env text sid requestId).2 = none ∧
      l.sent ((l.withSubmissions d).forwardSubmission env text sid requestId).1 text = true := by
    intro d
    rcases hx : l.websocket.feedText l.depths env.profileAuthorizer text with ⟨r, ws⟩
    rw [hx] at hfeed
    obtain rfl : r = .ok () := hfeed
    have hin := (VirtualWebSocket.feedText_ok hx).1
    unfold forwardSubmission
    dsimp only [withSubmissions]
    rw [hx]
    exact ⟨rfl, decide_eq_true hin⟩
  unfold newSubmission
  split
  · rename_i hfull
    split
    · exact hfwd _
    · rename_i he
      exact absurd ⟨hfull, fun item hi => by simpa using evictFirst_none he item hi⟩ hroom
  · exact hfwd l.submissions

theorem forgotten_iff (hk : l.submissions.Keyed) :
    Forgotten sid l ↔ l.submissions.get sid = none := by
  constructor
  · intro h
    exact (h [] l .nil (by simp)).1
  · intro hn trace l' hrun htrace
    have hn' := unknown_run hrun hk hn htrace
    refine ⟨hn', fun env a retry requestId hrel hcur hparse hfeed hroom => ?_⟩
    rw [submitText_tracked hparse, if_neg (by simp [hrel]), if_neg (by simp [hcur]), hn']
    exact newSubmission_forwarded hfeed hroom

/-- **When a refused submission is forgotten.**  If `submit_text` raises on a text
    that starts a submission, then nothing remains of it and a retry goes to the
    controller, if and only if the table was full of submissions in flight or
    the websocket did not reject the text: it was closed, the frame too large,
    or the queue full. -/
theorem refused_forgotten_iff {env : Surroundings} {a : ℕ} {text : Str} {requestId : Json}
    {fault : LeaseFault} (hk : l.submissions.Keyed) (hopens : l.Opens a text sid requestId)
    (hraised : (l.submitText env a text).2 = some fault) :
    Forgotten sid (l.submitText env a text).1 ↔
      l.Exhausted ∨ l.websocket.rejects l.depths env.profileAuthorizer text = false := by
  have heq : l.submitText env a text = l.newSubmission env text sid requestId := by
    rw [submitText_tracked hopens.tracked, if_neg (by simp [hopens.released]),
      if_neg (by simp [hopens.current]), hopens.new]
  rcases hx : l.newSubmission env text sid requestId with ⟨l', f⟩
  rw [heq, hx] at hraised ⊢
  obtain rfl : f = some fault := hraised
  have hf := newSubmission_spec hk hopens.new hx
  cases hf with
  | refused hd hs hrej =>
    have hk' : l'.submissions.Keyed := by rw [hs]; exact hd.keyed hk
    rw [forgotten_iff hk', hs]
    exact iff_of_true (hd.get_none hopens.new) (.inr hrej)
  | rejected hd hs hrej =>
    have hk' : l'.submissions.Keyed := by rw [hs]; exact (hd.keyed hk).set _ _
    rw [forgotten_iff hk', hs, Dict.get_set_self]
    refine iff_of_false (by simp) ?_
    rintro (⟨hfull, hall⟩ | hno)
    · cases hd with
      | room hlt => omega
      | @evicted _ record _ hget hsome =>
        have hnone : record.outcome = none := hall _ (Dict.get_mem hget)
        rw [hnone] at hsome
        cases hsome
    · simp [hrej] at hno
  | exhausted he => exact iff_of_true ((forgotten_iff hk).2 hopens.new) (.inl he)

/-! ## A submission that the policy rejects -/

/-- The text of a `prompt.submit` request. -/
def promptSubmit (requestId : Json) (params : List (Str × Json)) : Str :=
  write compactUnicode (.obj
    [(lit "jsonrpc", .str (lit "2.0")), (lit "id", requestId),
     (lit "method", .str (lit "prompt.submit")), (lit "params", .obj params)])

/-- A lease with an attachment and a method policy. -/
def gatedLease : Lease :=
  { websocket := { inboundValidator := some { profile := lit "main" } }
    opened := 1
    attachment := some 0 }

/-- A submission that claims an identity, which the policy rejects. -/
def privilegedSubmit : Str :=
  promptSubmit (.int 1) [(lit "submission_id", .str (lit "s")), (lit "auth_identity", .str (lit "x"))]

/-- The same submission without the claim. -/
def correctedSubmit : Str := promptSubmit (.int 2) [(lit "submission_id", .str (lit "s"))]

/-- The rejected submission leaves its record, and the corrected one is taken for
    a duplicate of it: it raises nothing, and the controller gets nothing. -/
theorem rejected_submission_remains :
    gatedLease.Opens 0 privilegedSubmit (lit "s") (.int 1) ∧
    (gatedLease.submitText (.standing 0 fun _ => true) 0 privilegedSubmit).2 =
      some (.feed (.policy .privilegedIdentity)) ∧
    ¬ Forgotten (lit "s") (gatedLease.submitText (.standing 0 fun _ => true) 0 privilegedSubmit).1 ∧
    let l := (gatedLease.submitText (.standing 0 fun _ => true) 0 privilegedSubmit).1
    (l.submitText (.standing 0 fun _ => true) 0 correctedSubmit).2 = none ∧
      l.sent (l.submitText (.standing 0 fun _ => true) 0 correctedSubmit).1 correctedSubmit = false := by
  refine ⟨⟨rfl, rfl, by decide +kernel, rfl⟩, by decide +kernel, fun h => ?_, by decide +kernel⟩
  have hget := (h [] _ .nil (by simp)).1
  have hsome : ((gatedLease.submitText (.standing 0 fun _ => true) 0 privilegedSubmit).1.submissions.get
      (lit "s")).isSome := by decide +kernel
  rw [hget] at hsome
  cases hsome

/-- The same lease, whose websocket is closed. -/
def closedLease : Lease := gatedLease.withWebsocket { closed := true }

theorem refused_forgotten_iff_closed :
    Forgotten (lit "s") (closedLease.submitText (.standing 0 fun _ => true) 0 privilegedSubmit).1 := by
  have hopens : closedLease.Opens 0 privilegedSubmit (lit "s") (.int 1) :=
    ⟨rfl, rfl, by decide +kernel, rfl⟩
  have hraised : (closedLease.submitText (.standing 0 fun _ => true) 0 privilegedSubmit).2 =
      some (.feed .closed) := by decide +kernel
  exact (refused_forgotten_iff Dict.keyed_nil hopens hraised).2 (.inr rfl)

end MercuryRelay
