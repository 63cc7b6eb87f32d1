/-
  Results of reads, and the queues they are delivered to (session_reads.py,
  session_lease.py).

  A result is bounded by what one framed message holds; a queue by a quarter of
  that.

  * `result_delivered_iff`: which results reach an attachment with an empty queue;
  * `large_result_detaches`: one that is accepted, and detaches it.
-/
import MercuryRelay.Framing.Record
import MercuryRelay.Lease.Mutations
import MercuryRelay.Lease.Tenure
import MercuryRelay.Python.JsonWidth

set_option autoImplicit false

namespace MercuryRelay

open Python

/-- `MAX_RESULT_BYTES`. -/
def maxResultBytes : ℕ := Framing.maxLogicalMessageBytes - 4096

/-- What `_bounded_result` raises: a `SessionReadsError`, or what the encoder
    raises. -/
inductive ResultFault where
  | reads (reason : Str)
  | unicode
  deriving DecidableEq

/-- `_bounded_result`. -/
def boundedResult (depths : JsonDepths) (result : List (Str × Json)) :
    Except ResultFault (List (Str × Json)) :=
  if ¬ (Json.obj result).finite then .error (.reads (lit "read_failed"))
  else
    match dumps depths plainUnicode (.obj result) with
    | none => .error (.reads (lit "read_failed"))
    | some encoded =>
      match utf8 encoded with
      | none => .error .unicode
      | some bytes =>
        if maxResultBytes < bytes.length then .error (.reads (lit "response_too_large"))
        else .ok result

/-! ## Sizes -/

section Sizes

variable {depths : JsonDepths} {result result' : List (Str × Json)} {requestId value : Json}

theorem boundedResult_ok : boundedResult depths result = .ok result' ↔ result' = result ∧
    (Json.obj result).finite ∧ (Json.obj result).depth ≤ depths.write ∧
    ∃ bytes, utf8 (write plainUnicode (.obj result)) = some bytes ∧ bytes.length ≤ maxResultBytes := by
  unfold boundedResult dumps
  by_cases hfinite : (Json.obj result).finite
  · rw [if_neg (not_not.2 hfinite)]
    by_cases hdepth : (Json.obj result).depth ≤ depths.write
    · rw [if_pos hdepth]
      dsimp only
      cases hbytes : utf8 (write plainUnicode (.obj result)) with
      | none => simp
      | some bytes =>
        dsimp only
        by_cases hlen : maxResultBytes < bytes.length
        · rw [if_pos hlen]
          refine iff_of_false (by simp) ?_
          rintro ⟨-, -, -, bytes', hbytes', hlen'⟩
          cases hbytes'
          omega
        · rw [if_neg hlen]
          simp [hfinite, hdepth, Nat.le_of_not_lt hlen, eq_comm]
    · rw [if_neg hdepth]
      simp [hdepth]
  · rw [if_pos hfinite]
    simp [hfinite]

/-- The text of a response with a result. -/
def resultText (requestId : Json) (result : List (Str × Json)) : Str :=
  write compactUnicode (Lease.response requestId (Lease.outcomeMember (.result (.obj result))))

theorem width_resultText : width (resultText requestId result) =
    width (write compactUnicode requestId) + width (write compactUnicode (.obj result)) + 33 := by
  have hnames : width (writeString false (lit "jsonrpc") ++ lit ":" ++ writeString false (lit "2.0")) +
      width (lit "," ++ writeString false (lit "id") ++ lit ":") +
      width (lit "," ++ writeString false (lit "result") ++ lit ":") + width [123] + width [125] = 33 := by
    decide
  unfold resultText Lease.response Lease.outcomeMember
  rw [write]
  simp only [writeMembers, List.map_cons, List.map_nil, join, compactUnicode, Bool.false_eq_true, if_false]
  rw [width_append, width_cons]
  simp only [width_append] at hnames ⊢
  simp only [write]
  omega

/-- Valid identifiers are short. -/
theorem width_requestId (h : validLocalRequestId requestId = true) :
    width (write compactUnicode requestId) ≤ 770 := by
  unfold validLocalRequestId at h
  split at h
  · rename_i s
    split at h
    · rename_i bytes hbytes
      simp only [Bool.and_eq_true, decide_eq_true_eq] at h
      have hmax : bytes.length ≤ 128 := h.2
      have hsome := Option.isSome_of_eq_some hbytes
      have hlen := length_le_width hsome
      have hoctets := stringOctets_le s
      have hwidth := (fitsIn_writeString hsome).width
      rw [← utf8_width hbytes] at hlen
      simp only [write, compactUnicode]
      omega
    · cases h
  · rename_i n
    simp only [Bool.and_eq_true, decide_eq_true_eq] at h
    have hwidth := (fitsIn_ascii (intRepr_ascii n)).width
    have hdigits : (intRepr n).length ≤ 21 := by
      cases n with
      | ofNat n =>
        have hn : n < 10 ^ 20 := by
          have hlt := h.2
          rw [Int.ofNat_eq_natCast] at hlt
          omega
        exact Nat.le_trans (length_natDigits_le (by decide) hn) (by decide)
      | negSucc n =>
        have hn : n + 1 < 10 ^ 20 := by
          have hlt := h.1
          omega
        have hlen := @length_natDigits_le _ 20 (by decide) hn
        simp only [intRepr, List.length_cons]
        omega
    simp only [write]
    omega
  · cases h

/-- A result that was accepted is answered by a text that fits in a framed message. -/
theorem resultText_fits (hid : validLocalRequestId requestId = true)
    (h : boundedResult depths result = .ok result') :
    ∃ bytes, utf8 (resultText requestId result') = some bytes ∧
      bytes.length = width (write compactUnicode requestId) +
        width (write compactUnicode (.obj result')) + 33 ∧
      bytes.length ≤ Framing.maxLogicalMessageBytes := by
  obtain ⟨rfl, -, -, bytes, hbytes, hlen⟩ := boundedResult_ok.1 h
  obtain ⟨hencodable, hwidth⟩ := compact_le_plain hbytes
  have hidEncodable := (validLocalRequestId_spec hid).2
  have hidWidth := width_requestId hid
  have hname : (utf8 (lit "result")).isSome := by decide
  have hsome : (utf8 (resultText requestId result')).isSome := by
    rw [resultText, utf8_write]
    exact (Lease.response_encodable _ _).2 ⟨hidEncodable, hname, hencodable⟩
  obtain ⟨bs, hbs⟩ := Option.isSome_iff_exists.1 hsome
  have hbsLen : bs.length = _ := (utf8_width hbs).trans width_resultText
  have hslack : maxResultBytes + 4096 = Framing.maxLogicalMessageBytes := by decide
  exact ⟨bs, hbs, hbsLen, by omega⟩

end Sizes

/-! ## The queue -/

/-- The octets in the live queue are counted. -/
def LeaseAttachment.Counted (att : LeaseAttachment) : Prop :=
  att.liveBytes = (att.live.map fun item => (byteSize item.text : ℤ)).sum

theorem LeaseAttachment.Counted.markDetached {att : LeaseAttachment} (h : att.Counted)
    (reason : DetachReason) : (att.markDetached reason).Counted := by
  unfold LeaseAttachment.markDetached
  dsimp only
  by_cases hreason : reason = .leaseReleased ∨ reason = .attachmentReplaced
  · rw [if_pos hreason]
    split <;> rfl
  · rw [if_neg hreason]
    split <;> exact h

namespace Lease

/-- The octets in every live queue are counted. -/
def Counted (l : Lease) : Prop := ∀ a < l.opened, (l.heap a).Counted

section Counted

variable {l l' m : Lease} {a : ℕ} {P : AnswerCause → Json → ℕ → Prop}

theorem Counted.ofDelivery (h : l.Counted) (hd : l'.delivery = l.delivery) : l'.Counted := by
  have hheap : l'.heap = l.heap := congrArg Delivery.heap hd
  have hopened : l'.opened = l.opened := congrArg Delivery.opened hd
  intro a ha
  rw [hheap]
  exact h a (hopened ▸ ha)

theorem Counted.modifyAttachment (h : l.Counted) {f : LeaseAttachment → LeaseAttachment}
    (hf : (l.heap a).Counted → (f (l.heap a)).Counted) : (l.modifyAttachment a f).Counted := by
  intro b hb
  by_cases hba : b = a
  · rw [hba, modifyAttachment_heap_self]
    exact hf (hba ▸ h b hb)
  · rw [modifyAttachment_heap_of_ne _ _ _ hba]
    exact h b hb

theorem Counted.detach (h : l.Counted) (reason : DetachReason) : (l.detach a reason).Counted := by
  unfold Lease.detach
  split
  · exact Counted.modifyAttachment (l := scheduleExpiry { l with attachment := none }) h
      fun hatt => hatt.markDetached reason
  · exact h.modifyAttachment fun hatt => hatt.markDetached reason

theorem Counted.deliver (h : l.Counted) (item : LiveText) : (l.deliver a item).Counted := by
  unfold Lease.deliver
  split
  · exact h.detach _
  · refine h.modifyAttachment fun hatt => ?_
    show (l.heap a).liveBytes + byteSize item.text =
      (((l.heap a).live ++ [item]).map fun item => (byteSize item.text : ℤ)).sum
    rw [hatt]
    simp

theorem Counted.answered (h : l.Counted) (ha : Answered P l l') : l'.Counted := by
  induction ha with
  | quiet hq => exact h.ofDelivery (congrArg Upkeep.delivery hq)
  | answer => exact h.deliver _
  | trans _ _ ih ih' => exact ih' (ih h)

theorem Counted.release (h : l.Counted) (reason : String) : (l.release reason).Counted := by
  unfold Lease.release
  split
  · exact h
  · dsimp only
    split
    · exact h
    · rename_i b hb
      exact Counted.modifyAttachment
        (l := { l with released := true, releaseReason := some reason, attachment := none }) h
        fun hatt => hatt.markDetached _

theorem Counted.nextText (h : l.Counted) : (l.nextText a).1.Counted := by
  unfold Lease.nextText
  dsimp only
  split
  · exact h
  · split
    · exact h.modifyAttachment fun hatt => hatt
    · exact h.modifyAttachment fun hatt => hatt
    · exact h.modifyAttachment fun hatt => hatt
    · rename_i item live _ _ _ hlive
      refine h.modifyAttachment fun hatt => ?_
      unfold LeaseAttachment.Counted at hatt ⊢
      rw [hlive] at hatt
      simp [hatt]
    · split <;> exact h

theorem Counted.publish (h : l.Counted) {att : LeaseAttachment} (hatt : att.Counted) :
    (l.publish att).Counted := by
  have hreplaced : l.replaceAttachment.Counted ∧ l.replaceAttachment.opened = l.opened := by
    unfold replaceAttachment
    split
    · exact ⟨h, rfl⟩
    · exact ⟨h.modifyAttachment fun hatt => hatt.markDetached _, rfl⟩
  intro b hb
  by_cases hnew : b = l.opened
  · rw [hnew, publish_heap_new]
    exact hatt
  · have hold : (l.publish att).heap b = l.replaceAttachment.heap b := if_neg hnew
    rw [hold]
    refine hreplaced.1 b ?_
    have hlt : b < l.opened + 1 := hb
    rw [hreplaced.2]
    omega

theorem Counted.appendEvent (h : l.Counted) (event : RetainedEvent) : (l.appendEvent event).Counted := by
  have hringed : (l.ringed event).Counted := h
  rcases appendEvent_spec l event with ⟨-, hd⟩ | ⟨a, -, hd⟩
  · exact hringed.ofDelivery hd
  · rw [hd]
    exact hringed.deliver _

/-- **The octets stay counted.** -/
theorem Counted.step (h : l.Counted) {label : LeaseLabel} (hs : Step l label l') : l'.Counted := by
  cases step_moves hs with
  | answered _ ha => exact h.answered ha
  | detached => exact h.detach _
  | released => exact h.release _
  | finished => exact h
  | retained ha => exact (Counted.answered (l := l.stamp) h ha).appendEvent _
  | failed ha => exact (Counted.answered (l := l.stamp) h ha).release _
  | @took a item att =>
    have hnext : (l.nextText a).1.Counted := h.nextText
    obtain ⟨-, hx⟩ := hs
    simp only [perform] at hx
    split at hx
    all_goals
      rename_i hn
      rw [hn] at hnext
      cases hx
    exact hnext
  | @attached env now request m snapshot _ hsnap =>
    have hm : m.Counted := by
      have hd := takeSnapshot_delivery (l.trim now).1 env request.recovery
      rw [hsnap] at hd
      exact Counted.ofDelivery (l := (l.trim now).1) h hd
    exact hm.publish rfl
  | started => exact h.ofDelivery (start_delivery l)
  | elapsed => exact h
  | @resumed t =>
    rcases resumeExpiry_spec l t with hr | hr
    · rw [hr]
      exact h
    · rw [hr]
      exact Counted.release (l := { l with expiry := l.expiry.finish t }) h _

end Counted

/-! ## Deliveries -/

section Deliveries

variable {l₀ l l' : Lease} {trace : List LeaseLabel} {a : ℕ} {method : Str}
  {params result result' : List (Str × Json)} {requestId : Json} {depths : JsonDepths}

/-- The text is all that is queued for an attachment, which is still the current one. -/
structure Delivered (l : Lease) (a : ℕ) (text : Str) : Prop where
  live : (l.heap a).live.map (·.text) = [text]
  current : l.attachment = some a
  attached : (l.heap a).detached = false

/-- The current attachment, with nothing queued. -/
structure Drained (l : Lease) (a : ℕ) : Prop where
  limits : l.limits = {}
  released : l.released = false
  current : l.attachment = some a
  attached : (l.heap a).detached = false
  live : (l.heap a).live = []
  bytes : (l.heap a).liveBytes = 0

theorem drained (hfresh : l₀.Fresh) (hrun : Run l₀ trace l) (hlimits : l₀.limits = {})
    (hcurrent : l.attachment = some a) (hlive : (l.heap a).live = []) : l.Drained a := by
  have hvalid : l.tenure.Valid := hfresh.tenure_valid.changes (run_changes hrun)
  have hcounted : l.Counted := hrun.invariant (fun _ _ _ h hs => h.step hs) fun b hb => by
    rw [hfresh.opened] at hb
    exact absurd hb (Nat.not_lt_zero b)
  obtain ⟨hopened, hattached⟩ := (hvalid.current a).1 hcurrent
  have hreleased : l.released = false := by
    cases hr : l.released with
    | false => rfl
    | true => cases (hvalid.released hr).symm.trans hcurrent
  have hconstants : Constants l₀ l :=
    hrun.relates (fun _ => ⟨rfl, rfl, rfl⟩) (fun _ _ _ => Constants.trans) fun _ _ _ hs =>
      (step_moves hs).constants
  refine ⟨hconstants.limits.trans hlimits, hreleased, hcurrent, hattached, hlive, ?_⟩
  rw [hcounted a hopened, hlive]
  rfl

/-- What becomes of a text for an attachment with an empty queue. -/
theorem Drained.deliver (h : l.Drained a) (item : LiveText) :
    (l.deliver a item).Delivered a item.text ↔ byteSize item.text ≤ 4194304 := by
  have hevents : ¬ l.limits.maxEvents ≤ (l.heap a).live.length := by
    rw [h.limits, h.live]
    decide
  have hbytes : l.limits.maxEventBytes = 4194304 := by rw [h.limits]
  unfold Lease.deliver
  rw [hbytes, h.bytes]
  by_cases hfits : byteSize item.text ≤ 4194304
  · rw [if_neg (not_or.2 ⟨hevents, by omega⟩)]
    refine iff_of_true ⟨?_, h.current, ?_⟩ hfits
    · rw [modifyAttachment_heap_self]
      simp [h.live]
    · rw [modifyAttachment_heap_self]
      exact h.attached
  · rw [if_pos (.inr (by omega))]
    refine iff_of_false (fun hd => ?_) hfits
    have hcurrent := hd.current
    rw [detach_attachment, if_pos h.current] at hcurrent
    cases hcurrent

/-- **What becomes of an accepted result.** -/
theorem Drained.finishTask (h : l.Drained a) (hid : validLocalRequestId requestId = true)
    (hresult : boundedResult depths result = .ok result') :
    (l.finishTask (.read method params requestId a) (.result (.obj result'))).1.Delivered a
        (resultText requestId result') ↔
      (Json.obj result').depth < l.depths.write ∧
        width (write compactUnicode requestId) + width (write compactUnicode (.obj result')) + 33 ≤
          4194304 := by
  obtain ⟨bytes, hbytes, hlen, -⟩ := resultText_fits hid hresult
  have hsize : byteSize (resultText requestId result') = bytes.length := by
    rw [byteSize, hbytes]
    rfl
  have hdepth : (response requestId (outcomeMember (.result (.obj result')))).depth =
      (Json.obj result').depth + 1 := by
    rw [response_depth, (validLocalRequestId_spec hid).1, Nat.zero_max]
    rfl
  have hdrained : (l.withTasks (l.readTasks.erase (.read method params requestId a))).Drained a :=
    ⟨h.limits, h.released, h.current, h.attached, h.live, h.bytes⟩
  unfold Lease.finishTask deliverOutcome deliverLocal
  dsimp only [DispatcherReply.outcome]
  rw [if_neg (by simp [withTasks, h.released, h.current, h.attached]), dumps, hdepth]
  by_cases hwrite : (Json.obj result').depth < l.depths.write
  · rw [if_pos (by exact hwrite)]
    have hsome : (utf8 (resultText requestId result')).isSome := Option.isSome_of_eq_some hbytes
    rw [resultText] at hsome
    dsimp only
    rw [if_pos hsome]
    have hdeliver := hdrained.deliver
      ⟨resultText requestId result', .answer .read (response requestId (outcomeMember (.result (.obj result'))))⟩
    rw [hsize, hlen] at hdeliver
    exact hdeliver.trans (and_iff_right hwrite).symm
  · rw [if_neg (by exact hwrite)]
    refine iff_of_false (fun hd => ?_) fun hfits => hwrite hfits.1
    have hlive := hd.live
    have hempty : (l.heap a).live = [] := h.live
    simp [withTasks, hempty] at hlive

/-- **Which accepted results reach their attachment**, of which the queue is empty.  All of them
    fit in one framed message. -/
theorem result_delivered_iff (hfresh : l₀.Fresh) (hrun : Run l₀ trace l) (hlimits : l₀.limits = {})
    (hcurrent : l.attachment = some a) (hlive : (l.heap a).live = [])
    (hid : validLocalRequestId requestId = true)
    (hresult : boundedResult depths result = .ok result') :
    ((l.finishTask (.read method params requestId a) (.result (.obj result'))).1.Delivered a
        (resultText requestId result') ∧
      ∃ bytes, utf8 (resultText requestId result') = some bytes ∧
        bytes.length ≤ Framing.maxLogicalMessageBytes) ↔
      (Json.obj result').depth < l.depths.write ∧
        width (write compactUnicode requestId) + width (write compactUnicode (.obj result')) + 33 ≤
          4194304 := by
  obtain ⟨bytes, hbytes, -, hmax⟩ := resultText_fits hid hresult
  rw [and_iff_left ⟨bytes, hbytes, hmax⟩]
  exact (drained hfresh hrun hlimits hcurrent hlive).finishTask hid hresult

/-- A device attaches. -/
def attachOnce : List LeaseEvent := [.attach (.standing 0 fun _ => true) 0 {}]

theorem attachOnce_executes : (execute {} attachOnce).isSome := by decide

/-- The lease to which a device is attached. -/
def attachedLease : Lease := ((execute {} attachOnce).get attachOnce_executes).1

theorem attachedLease_run : ∃ trace, Run {} trace attachedLease :=
  ⟨_, run_of_execute (Option.some_get attachOnce_executes).symm⟩

theorem fresh_default : ({} : Lease).Fresh :=
  ⟨rfl, rfl, rfl, rfl, rfl, rfl, rfl, rfl, rfl, rfl, rfl, rfl, rfl, rfl⟩

theorem result_delivered_status :
    (attachedLease.finishTask (.read (lit "relay.status") [] (.int 1) 0)
      (.result (.obj [(lit "ok", .bool true)]))).1.Delivered 0
        (resultText (.int 1) [(lit "ok", .bool true)]) := by
  obtain ⟨trace, hrun⟩ := attachedLease_run
  have hresult : boundedResult ⟨900, 900⟩ [(lit "ok", .bool true)] = .ok [(lit "ok", .bool true)] := by
    decide
  exact ((result_delivered_iff fresh_default hrun rfl
    (by decide) (by decide) (by decide) hresult).2 (by decide)).1

/-- A result with a text of some letters. -/
def letters (n : ℕ) : List (Str × Json) := [(lit "text", .str (List.replicate n 97))]

theorem writeString_letters (n : ℕ) :
    writeString false (List.replicate n 97) = 34 :: List.replicate n 97 ++ [34] := by
  have hflat : (List.replicate n 97).flatMap (writeChar false) = List.replicate n 97 := by
    induction n with
    | zero => rfl
    | succ n ih =>
      rw [List.replicate_succ, List.flatMap_cons, ih]
      rfl
  rw [writeString, hflat]

theorem width_letters (n : ℕ) : width (List.replicate n 97) = n := by
  induction n with
  | zero => rfl
  | succ n ih =>
    rw [List.replicate_succ, width_cons, ih]
    exact Nat.add_comm 1 n

theorem write_letters {style : DumpStyle} (hascii : style.ensureAscii = false)
    (hsort : style.sortKeys = false) (n : ℕ) : write style (.obj (letters n)) =
      123 :: (writeString false (lit "text") ++ style.keySeparator ++
        (34 :: List.replicate n 97 ++ [34])) ++ [125] := by
  simp only [letters, write, writeMembers, hascii, hsort, List.map_cons, List.map_nil, join,
    writeString_letters, Bool.false_eq_true, if_false]

theorem width_write_letters (n : ℕ) : width (write compactUnicode (.obj (letters n))) = n + 11 ∧
    width (write plainUnicode (.obj (letters n))) = n + 12 := by
  have hname : width (writeString false (lit "text")) = 6 := by decide
  have hcompact : width compactUnicode.keySeparator = 1 := by decide
  have hplain : width plainUnicode.keySeparator = 2 := by decide
  have hquote : width [34] = 1 ∧ width [123] = 1 ∧ width [125] = 1 := by decide
  constructor
  · rw [write_letters rfl rfl, width_append, width_cons, width_append, width_append, width_append,
      width_cons 34, width_letters]
    omega
  · rw [write_letters rfl rfl, width_append, width_cons, width_append, width_append, width_append,
      width_cons 34, width_letters]
    omega

/-- A text that is accepted as a result, and is more than the queue holds. -/
theorem letters_detach {n : ℕ} (hlong : 4194304 < n) (hshort : n + 12 ≤ maxResultBytes) :
    boundedResult ⟨900, 900⟩ (letters n) = .ok (letters n) ∧
      ¬ (attachedLease.finishTask (.read (lit "relay.status") [] (.int 1) 0)
        (.result (.obj (letters n)))).1.Delivered 0 (resultText (.int 1) (letters n)) := by
  have hresult : boundedResult ⟨900, 900⟩ (letters n) = .ok (letters n) := by
    have hascii : Ascii (write plainUnicode (.obj (letters n))) := by
      have hname : Ascii (writeString false (lit "text") ++ plainUnicode.keySeparator) := by
        decide
      have hletters : Ascii (34 :: List.replicate n 97 ++ [34]) :=
        (Ascii.cons (by decide) (Ascii.replicate (by decide))).append (by decide)
      rw [write_letters rfl rfl]
      exact (Ascii.cons (by decide) (hname.append hletters)).append (by decide)
    obtain ⟨bytes, hbytes⟩ := Option.isSome_iff_exists.1 hascii.utf8
    refine boundedResult_ok.2 ⟨rfl, rfl, by simp [letters, Json.depth, Json.depthMembers], bytes, hbytes, ?_⟩
    rw [utf8_width hbytes, (width_write_letters n).2]
    exact hshort
  refine ⟨hresult, fun hd => ?_⟩
  obtain ⟨trace, hrun⟩ := attachedLease_run
  have hdrained : attachedLease.Drained 0 :=
    drained fresh_default hrun rfl (by decide) (by decide)
  have hfits := ((hdrained.finishTask (by decide) hresult).1 hd).2
  rw [(width_write_letters n).1] at hfits
  omega

/-- **A result that is accepted**, and does not reach the attachment that asked for it. -/
theorem large_result_detaches :
    boundedResult ⟨900, 900⟩ (letters 4194305) = .ok (letters 4194305) ∧
      ¬ (attachedLease.finishTask (.read (lit "relay.status") [] (.int 1) 0)
        (.result (.obj (letters 4194305)))).1.Delivered 0 (resultText (.int 1) (letters 4194305)) := by
  have hmax : maxResultBytes = 16773120 := by decide
  exact letters_detach (by omega) (by omega)

end Deliveries

end Lease

end MercuryRelay
