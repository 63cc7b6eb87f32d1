/-
  What a duplicate of a submission is answered with: the outcome is parsed,
  stored, written again under the identifier of the duplicate, and parsed by
  the device.

  * `duplicate_faithful`: the answer is accepted, encodes, and carries both
    values as they were read iff both can be transcribed.
-/
import MercuryRelay.Lease.Outcomes
import MercuryRelay.Lease.Mutations
import MercuryRelay.Python.JsonStrict

set_option autoImplicit false

namespace MercuryRelay

open Python Lease

/-- The `result` or the `error` itself. -/
def Outcome.value : Outcome → Json
  | .result v | .error v => v

/-- `value.get("id")` of a request that was read. -/
def ReadId (depths : JsonDepths) (text : Str) (requestId : Json) : Prop :=
  ∃ ms, loadsStrict depths text = some (.obj ms) ∧
    (Json.lookup ms (lit "id")).getD .null = requestId

/-- The value is written as strict JSON within a response, and encodes. -/
def Transcribable (depths : JsonDepths) (v : Json) : Prop :=
  v.finite = true ∧ v.encodable = true ∧ v.depth < depths.write

/-- What was read, as far as it can be read again. -/
def ReadValue (depths : JsonDepths) (v : Json) : Prop :=
  (v.encodable = true → v.Plain) ∧ v.depth < depths.read

namespace Lease

/-- A response to this attachment is not dropped. -/
def Takes (l : Lease) (a : ℕ) : Prop :=
  l.released = false ∧ l.attachment = some a ∧ (l.heap a).detached = false

/-- What `_deliver_outcome` queues for a waiter is accepted by `loads_strict`,
    encodes, and has the identifier and the value it was made of. -/
def DeliversFaithfully (l : Lease) (cause : AnswerCause) (outcome : Outcome) (waiter : Waiter) : Prop :=
  ∃ text, dumps l.depths compactUnicode (response waiter.1 (outcomeMember outcome)) = some text ∧
    l.deliverOutcome cause outcome waiter =
      (l.deliver waiter.2 ⟨text, .answer cause (response waiter.1 (outcomeMember outcome))⟩, none) ∧
    (utf8 text).isSome ∧ ∃ ms, loadsStrict l.depths text = some (.obj ms) ∧
      Json.lookup ms (lit "id") = some waiter.1 ∧
      Json.lookup ms (outcomeMember outcome).1 = some (outcomeMember outcome).2

end Lease

section Responses

variable {l m : Lease} {depths : JsonDepths} {text dup sid : Str} {requestId : Json}
  {record : SubmissionRecord} {outcome : Outcome} {cause : AnswerCause} {a : ℕ}

@[simp] theorem outcomeMember_value (outcome : Outcome) : (outcomeMember outcome).2 = outcome.value := by
  cases outcome <;> rfl

theorem outcomeMember_name (outcome : Outcome) :
    (outcomeMember outcome).1 = lit "result" ∨ (outcomeMember outcome).1 = lit "error" := by
  cases outcome
  · exact .inl rfl
  · exact .inr rfl

theorem outcomeOf_lookup {ms : List (Str × Json)} (h : outcomeOf ms = some outcome) :
    Json.lookup ms (outcomeMember outcome).1 = some outcome.value := by
  unfold outcomeOf at h
  split at h
  · rename_i hresult
    cases h
    exact hresult
  · rename_i hnone herror
    cases h
    exact herror
  · cases h

theorem ReadId.readValue (h : ReadId depths dup requestId) : ReadValue depths requestId := by
  obtain ⟨ms, hload, rfl⟩ := h
  cases hk : Json.lookup ms (lit "id") with
  | some v => exact loadsStrict_lookup hload hk
  | none =>
    have hdepth := loadsStrict_depth hload
    rw [Json.depth] at hdepth
    refine ⟨fun _ => trivial, ?_⟩
    simp only [Option.getD_none, Json.depth]
    omega

/-- The outcome of a response that completes a submission was read. -/
theorem settles_readValue (h : l.settles text = some (sid, record, outcome)) :
    ReadValue l.depths outcome.value := by
  unfold Lease.settles Lease.settlesValue at h
  split at h
  · cases h
  · split at h
    · rename_i ms hload
      split at h
      · cases h
      · split at h
        · rename_i hout
          cases h
          exact loadsStrict_lookup hload (outcomeOf_lookup hout)
        · cases h
    · cases h

theorem response_lookup_id (requestId : Json) (member : Str × Json) :
    Json.lookup [(lit "jsonrpc", .str (lit "2.0")), (lit "id", requestId), member] (lit "id") =
      some requestId := by
  have hne : ¬ lit "jsonrpc" = lit "id" := by decide
  simp [Json.lookup, hne]

theorem response_lookup_member (requestId : Json) (outcome : Outcome) :
    Json.lookup [(lit "jsonrpc", .str (lit "2.0")), (lit "id", requestId), outcomeMember outcome]
      (outcomeMember outcome).1 = some (outcomeMember outcome).2 := by
  have hresult : ¬ lit "jsonrpc" = lit "result" ∧ ¬ lit "id" = lit "result" := by decide
  have herror : ¬ lit "jsonrpc" = lit "error" ∧ ¬ lit "id" = lit "error" := by decide
  cases outcome with
  | result v => simp [Json.lookup, outcomeMember, hresult]
  | error v => simp [Json.lookup, outcomeMember, herror]

theorem response_finite (requestId : Json) (member : Str × Json) :
    (Lease.response requestId member).finite = true ↔
      requestId.finite = true ∧ member.2.finite = true := by
  simp [Lease.response, Json.finite, Json.finiteMembers]

/-- A response of plain values is plain. -/
theorem response_plain (hid : requestId.Plain) (hvalue : outcome.value.Plain) :
    (Lease.response requestId (outcomeMember outcome)).Plain := by
  have hnames : LegibleStr (lit "jsonrpc") ∧ LegibleStr (lit "id") ∧ LegibleStr (lit "2.0") ∧
      LegibleStr (lit "result") ∧ LegibleStr (lit "error") := by
    refine ⟨?_, ?_, ?_, ?_, ?_⟩ <;> exact LegibleStr.of_utf8 (by decide)
  obtain ⟨hjsonrpc, hname, hversion, hresult, herror⟩ := hnames
  cases outcome with
  | result v =>
    have hkeys : [lit "jsonrpc", lit "id", lit "result"].Nodup := by decide
    exact ⟨hkeys, hjsonrpc, hversion, hname, hid, hresult, hvalue, trivial⟩
  | error v =>
    have hkeys : [lit "jsonrpc", lit "id", lit "error"].Nodup := by decide
    exact ⟨hkeys, hjsonrpc, hversion, hname, hid, herror, hvalue, trivial⟩

/-- What an attachment that takes it is handed of a response. -/
theorem deliverOutcome_takes {waiter : Waiter} (h : m.Takes waiter.2) (htext : dumps m.depths
    compactUnicode (Lease.response waiter.1 (outcomeMember outcome)) = some text)
    (henc : (utf8 text).isSome) : m.deliverOutcome cause outcome waiter =
      (m.deliver waiter.2 ⟨text, .answer cause (Lease.response waiter.1 (outcomeMember outcome))⟩,
        none) := by
  obtain ⟨hrel, hcur, hdet⟩ := h
  unfold Lease.deliverOutcome Lease.deliverLocal
  rw [if_neg (by simp [hrel, hcur, hdet]), htext]
  exact if_pos henc

/-- **What a duplicate gets is strict JSON with the original values iff both the
    outcome and its identifier hold no infinity, encode, and are not nested
    deeper than the writer goes**, for every outcome a response that was read
    has completed a submission with, and every identifier that was read. -/
theorem duplicate_faithful (hset : l.settles text = some (sid, record, outcome))
    (hid : ReadId l.depths dup requestId) (hdepths : m.depths = l.depths) (htakes : m.Takes a) :
    m.DeliversFaithfully (.submission sid) outcome (requestId, a) ↔
      Transcribable m.depths outcome.value ∧ Transcribable m.depths requestId := by
  have hvalue : ReadValue m.depths outcome.value := hdepths ▸ settles_readValue hset
  have hread : ReadValue m.depths requestId := hdepths ▸ hid.readValue
  have hdepth := Lease.response_depth requestId (outcomeMember outcome)
  have hencodable := Lease.response_encodable requestId (outcomeMember outcome)
  have hfinite := response_finite requestId (outcomeMember outcome)
  have hname : (utf8 (outcomeMember outcome).1).isSome := by
    rcases outcomeMember_name outcome with h | h <;> rw [h] <;> decide
  rw [outcomeMember_value] at hdepth hencodable hfinite
  constructor
  · rintro ⟨written, hdumps, -, hutf8, ms, hload, -, -⟩
    have hanswer : Answerable m.depths (Lease.response requestId (outcomeMember outcome)) :=
      ⟨written, hdumps, hutf8⟩
    obtain ⟨hwrite, henc⟩ := answerable_iff.1 hanswer
    obtain ⟨hidenc, -, hvalueenc⟩ := hencodable.1 henc
    have hplain := response_plain (hread.1 hidenc) (hvalue.1 hvalueenc)
    have hwritten : write compactUnicode (Lease.response requestId (outcomeMember outcome)) = written := by
      unfold dumps at hdumps
      rw [if_pos hwrite] at hdumps
      exact Option.some.inj hdumps
    rw [← hwritten, loadsStrict_write_iff undone_compactUnicode hplain
      (by have := hvalue.2; have := hread.2; omega)] at hload
    obtain ⟨hidfin, hvaluefin⟩ := hfinite.1 hload.1
    exact ⟨⟨hvaluefin, hvalueenc, by omega⟩, hidfin, hidenc, by omega⟩
  · rintro ⟨⟨hvaluefin, hvalueenc, hvaluedepth⟩, hidfin, hidenc, hiddepth⟩
    have hanswer : Answerable m.depths (Lease.response requestId (outcomeMember outcome)) :=
      answerable_iff.2 ⟨by omega, hencodable.2 ⟨hidenc, hname, hvalueenc⟩⟩
    obtain ⟨written, hdumps, hutf8⟩ := hanswer
    have hplain := response_plain (hread.1 hidenc) (hvalue.1 hvalueenc)
    have hwritten : write compactUnicode (Lease.response requestId (outcomeMember outcome)) = written := by
      unfold dumps at hdumps
      rw [if_pos (by omega)] at hdumps
      exact Option.some.inj hdumps
    refine ⟨written, hdumps, deliverOutcome_takes htakes hdumps hutf8, hutf8, _, ?_,
      response_lookup_id requestId _, response_lookup_member requestId outcome⟩
    rw [← hwritten]
    exact (loadsStrict_write_iff undone_compactUnicode hplain
      (by have := hvalue.2; have := hread.2; omega)).2 ⟨hfinite.2 ⟨hidfin, hvaluefin⟩, rfl⟩

end Responses

/-! ## A result that overflows -/

/-- A submission, and the same again under another identifier. -/
def submitTwice : List LeaseEvent :=
  [.attach (.standing 0 fun _ => true) 0 {}, submitOn 1 [(lit "submission_id", .str (lit "s"))],
   submitOn 2 [(lit "submission_id", .str (lit "s"))]]

/-- The second of them. -/
def submitAgain : Str := promptSubmit (.int 2) [(lit "submission_id", .str (lit "s"))]

/-- A response to the first with this literal as its result. -/
def literalFrame (literal : String) : Str :=
  lit "\x7b\"jsonrpc\":\"2.0\",\"id\":1,\"result\":" ++ lit literal ++ lit "\x7d"

theorem submitTwice_executes : (execute {} submitTwice).isSome := by decide +kernel

/-- The lease that was asked twice. -/
def twiceAsked : Lease := ((execute {} submitTwice).get submitTwice_executes).1

/-- What the lease that was asked twice takes, and the records that responses with these literals complete. -/
theorem twiceAsked_checked : twiceAsked.Takes 0 ∧
    loadsStrict twiceAsked.depths submitAgain = some (.obj
      [(lit "jsonrpc", .str (lit "2.0")), (lit "id", .int 2), (lit "method", .str (lit "prompt.submit")),
       (lit "params", .obj [(lit "submission_id", .str (lit "s"))])]) ∧
    (twiceAsked.settles (literalFrame "true")).map (fun r => (r.1, r.2.2)) =
      some (lit "s", .result (.bool true)) ∧
    (twiceAsked.settles (literalFrame "1e999")).map (fun r => (r.1, r.2.2)) =
      some (lit "s", .result (.float (.inf false))) := by
  refine ⟨⟨?_, ?_, ?_⟩, ?_, ?_, ?_⟩ <;> decide +kernel

theorem twiceAsked_takes : twiceAsked.Takes 0 := twiceAsked_checked.1

theorem submitAgain_id : ReadId twiceAsked.depths submitAgain (.int 2) :=
  ⟨_, twiceAsked_checked.2.1, by decide⟩

/-- The record a response with this literal completes, and the outcome. -/
theorem literal_settles :
    (twiceAsked.settles (literalFrame "true")).map (fun r => (r.1, r.2.2)) =
        some (lit "s", .result (.bool true)) ∧
      (twiceAsked.settles (literalFrame "1e999")).map (fun r => (r.1, r.2.2)) =
        some (lit "s", .result (.float (.inf false))) :=
  twiceAsked_checked.2.2

theorem duplicate_faithful_true : ∃ record,
    twiceAsked.settles (literalFrame "true") = some (lit "s", record, .result (.bool true)) ∧
      twiceAsked.DeliversFaithfully (.submission (lit "s")) (.result (.bool true)) (.int 2, 0) := by
  obtain ⟨⟨sid, record, outcome⟩, hset, heq⟩ := Option.map_eq_some_iff.1 literal_settles.1
  cases heq
  refine ⟨record, hset, (duplicate_faithful hset submitAgain_id rfl twiceAsked_takes).2 ?_⟩
  refine ⟨⟨rfl, rfl, ?_⟩, rfl, rfl, ?_⟩ <;> decide +kernel

/-- The device gets a text that `loads_strict` refuses: the literal `1e999` is
    read as an infinity, and written as `Infinity`. -/
theorem duplicate_gets_infinity : ∃ record,
    Run {} ((execute {} submitTwice).get submitTwice_executes).2 twiceAsked ∧
      twiceAsked.settles (literalFrame "1e999") = some (lit "s", record, .result (.float (.inf false))) ∧
      ReadId twiceAsked.depths submitAgain (.int 2) ∧ twiceAsked.Takes 0 ∧
      ((twiceAsked.pump (.standing 0 fun _ => true) 0 (literalFrame "1e999")).1.heap 0).live.map (·.text) =
        [lit "\x7b\"jsonrpc\":\"2.0\",\"id\":2,\"result\":Infinity\x7d", literalFrame "1e999"] ∧
      loadsStrict twiceAsked.depths
        (lit "\x7b\"jsonrpc\":\"2.0\",\"id\":2,\"result\":Infinity\x7d") = none ∧
      ¬ twiceAsked.DeliversFaithfully (.submission (lit "s")) (.result (.float (.inf false))) (.int 2, 0) := by
  obtain ⟨⟨sid, record, outcome⟩, hset, heq⟩ := Option.map_eq_some_iff.1 literal_settles.2
  cases heq
  refine ⟨record, run_of_execute (Option.some_get _).symm, hset, submitAgain_id, twiceAsked_takes, ?_, ?_, ?_⟩
  · decide +kernel
  · decide +kernel
  · rintro ⟨text, hdumps, -, -, ms, hload, -, -⟩
    have hnone : (dumps twiceAsked.depths compactUnicode (response (.int 2)
        (outcomeMember (.result (.float (.inf false)))))).bind (loadsStrict twiceAsked.depths) = none := by
      decide +kernel
    rw [hdumps, Option.bind_some, hload] at hnone
    cases hnone

end MercuryRelay
