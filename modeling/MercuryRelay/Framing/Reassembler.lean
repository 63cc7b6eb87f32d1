/-
  Messages in fragments (framing.py, `encode_message`, `Reassembler`).

  * `encodeMessage_ok`: the records of a message;
  * `push_bytes`: what a record does to a reassembler;
  * `messages_round_trip`: messages that were encoded are returned;
  * `reassembly_sound`: what is returned was encoded, whatever is pushed.
-/
import Mathlib.Algebra.Order.Floor.Div
import Mathlib.GroupTheory.GroupAction.Ring
import MercuryRelay.Framing.Record

set_option autoImplicit false

namespace MercuryRelay

open Python

namespace Framing

/-- The octets `index * MAX_PAYLOAD_BYTES` to `(index + 1) * MAX_PAYLOAD_BYTES`. -/
def slice (payload : Bytes) (index : ℕ) : Bytes :=
  (payload.drop (index * maxPayloadBytes)).take maxPayloadBytes

/-- The fragment `index` of a message, of which `payload` is the beginning. -/
def fragment (channelId messageId : Bytes) (kind flags count logicalLength : ℤ) (payload : Bytes)
    (index : ℕ) : Frame where
  channelId := channelId
  messageId := messageId
  kind := kind
  flags := flags
  fragmentIndex := index
  fragmentCount := count
  logicalLength := logicalLength
  payload := slice payload index

/-- `encode_message`. -/
def encodeMessage (channelId messageId payload : Bytes) (kind flags : ℤ) :
    Except FramingFault (List Bytes) :=
  match viewSized channelId "channel_id" channelIdSize with
  | .error fault => .error fault
  | .ok channel =>
    match viewSized messageId "message_id" messageIdSize with
    | .error fault => .error fault
    | .ok message =>
      match validateKindFlags kind flags with
      | .error fault => .error fault
      | .ok () =>
        if maxLogicalMessageBytes < payload.length then
          .error (.value "logical length exceeds v1 limit")
        else
          match fragmentCount payload.length with
          | .error fault => .error fault
          | .ok count =>
            (List.range count.toNat).mapM fun index =>
              record (fragment channel message kind flags count payload.length payload index)

/-- `Reassembler`. -/
structure Reassembler where
  channelId : Option Bytes := none
  expectedKind : ℤ := kindHermesBytes
  expectedFlags : ℤ := flagsNone
  activeChannelId : Option Bytes := none
  messageId : Option Bytes := none
  fragmentCount : ℤ := 0
  logicalLength : ℤ := 0
  nextIndex : ℤ := 0
  receivedLength : ℤ := 0
  parts : List Bytes := []

namespace Reassembler

/-- `reset`. -/
def reset (r : Reassembler) : Reassembler where
  channelId := r.channelId
  expectedKind := r.expectedKind
  expectedFlags := r.expectedFlags

/-- `__init__`. -/
def create (channelId : Option Bytes) (kind flags : ℤ) : Except FramingFault Reassembler :=
  match channelId with
  | none =>
    match validateKindFlags kind flags with
    | .error fault => .error fault
    | .ok () => .ok { channelId := none, expectedKind := kind, expectedFlags := flags }
  | some channel =>
    match viewSized channel "channel_id" channelIdSize with
    | .error fault => .error fault
    | .ok channel =>
      match validateKindFlags kind flags with
      | .error fault => .error fault
      | .ok () => .ok { channelId := some channel, expectedKind := kind, expectedFlags := flags }

/-- `in_progress`. -/
def inProgress (r : Reassembler) : Bool := r.messageId.isSome

/-- The frame begins a message, or goes on with the one in progress. -/
def begin (r : Reassembler) (f : Frame) : Except FramingFault Reassembler :=
  if r.messageId.isNone then
    if f.fragmentIndex ≠ 0 then .error (.reassembly "order requires fragment zero first")
    else .ok { r with activeChannelId := some f.channelId, messageId := some f.messageId,
                      fragmentCount := f.fragmentCount, logicalLength := f.logicalLength }
  else if some f.channelId ≠ r.activeChannelId ∨ some f.messageId ≠ r.messageId ∨
      f.fragmentCount ≠ r.fragmentCount ∨ f.logicalLength ≠ r.logicalLength then
    .error (.reassembly "metadata channel, message, or length mismatch")
  else .ok r

/-- The next fragment arrives; the message, if it was the last one. -/
def extend (r : Reassembler) (f : Frame) : Except FramingFault (Option Bytes × Reassembler) :=
  if f.fragmentIndex ≠ r.nextIndex then .error (.reassembly "order is not contiguous")
  else if r.logicalLength < r.receivedLength + f.payload.length then
    .error (.reassembly "received length exceeds logical length")
  else
    let r := { r with parts := r.parts ++ [f.payload]
                      receivedLength := r.receivedLength + f.payload.length
                      nextIndex := r.nextIndex + 1 }
    if r.nextIndex ≠ r.fragmentCount then .ok (none, r)
    else if r.receivedLength ≠ r.logicalLength then
      .error (.reassembly "received length is incomplete")
    else .ok (some r.parts.flatten, r.reset)

/-- The frame of a record arrives. -/
def accept (r : Reassembler) (f : Frame) : Except FramingFault (Option Bytes × Reassembler) :=
  if f.kind ≠ r.expectedKind ∨ f.flags ≠ r.expectedFlags then
    .error (.reassembly "metadata kind or flags mismatch")
  else if r.channelId.any (f.channelId ≠ ·) then .error (.reassembly "metadata channel mismatch")
  else
    match r.begin f with
    | .error fault => .error fault
    | .ok r => r.extend f

/-- `push`. -/
def push (r : Reassembler) (record : Bytes) : Except FramingFault (Option Bytes) × Reassembler :=
  match decodeRecord record with
  | .error fault => (.error fault, r.reset)
  | .ok f =>
    match r.accept f with
    | .error fault => (.error fault, r.reset)
    | .ok (message, r) => (.ok message, r)

/-- What pushing one record after the other returns. -/
def pushAll : Reassembler → List Bytes → List (Except FramingFault (Option Bytes)) × Reassembler
  | r, [] => ([], r)
  | r, record :: records =>
    let (out, r) := r.push record
    let (outs, r) := r.pushAll records
    (out :: outs, r)

end Reassembler

/-! ## Encoding -/

section Encoding

variable {channelId messageId payload : Bytes} {f : Frame} {n : ℕ}

/-- The octets of a record. -/
def Frame.bytes (f : Frame) : Bytes := f.header.pack ++ f.payload

/-- The number of fragments of a message. -/
def fragments (length : ℕ) : ℕ := max 1 ((length + 65468) / 65469)

theorem maxPayloadBytes_eq : maxPayloadBytes = 65469 := rfl

theorem fragments_eq : fragments n = max 1 (n ⌈/⌉ 65469) := by
  rw [fragments, Nat.ceilDiv_eq_add_pred_div, Nat.add_sub_assoc (by decide)]

/-- Every fragment begins within the message, or at its end. -/
theorem mul_le_of_lt_fragments {k : ℕ} (hk : k < fragments n) : k * maxPayloadBytes ≤ n := by
  rw [maxPayloadBytes_eq]
  rw [fragments] at hk
  omega

/-- The fragments hold the message. -/
theorem le_fragments_mul : n ≤ fragments n * maxPayloadBytes := by
  rw [maxPayloadBytes_eq, fragments]
  omega

theorem fragmentCount_fragments (h : n ≤ maxLogicalMessageBytes) :
    fragmentCount n = .ok (fragments n : ℤ) := by
  rw [fragmentCount_ok]
  simp only [maxLogicalMessageBytes, fragments] at h ⊢
  omega

/-- The fragments of a whole message. -/
def whole (channelId messageId payload : Bytes) (index : ℕ) : Frame :=
  fragment channelId messageId kindHermesBytes flagsNone (fragments payload.length) payload.length payload
    index

theorem slice_length : (slice payload n).length = min maxPayloadBytes (payload.length - n * maxPayloadBytes) := by
  simp [slice]

theorem whole_canonical (hc : channelId.length = channelIdSize) (hm : messageId.length = messageIdSize)
    (hp : payload.length ≤ maxLogicalMessageBytes) {index : ℕ} (hi : index < fragments payload.length) :
    Canonical (whole channelId messageId payload index) := by
  have hindex : index * maxPayloadBytes ≤ payload.length := mul_le_of_lt_fragments hi
  refine ⟨hc, hm, rfl, rfl, fragmentCount_fragments hp, ⟨Int.natCast_nonneg _, ?_⟩, ?_⟩
  · show (index : ℤ) < (fragments payload.length : ℤ)
    exact_mod_cast hi
  · simp only [whole, fragment, slice_length]
    push_cast [hindex]
    rfl

theorem mapM_ok {α β ε : Type} {g : α → Except ε β} {h : α → β} {xs : List α}
    (hg : ∀ x ∈ xs, g x = .ok (h x)) : xs.mapM g = .ok (xs.map h) := by
  induction xs with
  | nil => rfl
  | cons x xs ih =>
    rw [List.mapM_cons, hg x List.mem_cons_self, ih fun y hy => hg y (List.mem_cons_of_mem x hy)]
    rfl

/-- **The records of a message.** -/
theorem encodeMessage_ok (hc : channelId.length = channelIdSize) (hm : messageId.length = messageIdSize)
    (hp : payload.length ≤ maxLogicalMessageBytes) :
    encodeMessage channelId messageId payload kindHermesBytes flagsNone = .ok
      ((List.range (fragments payload.length)).map fun i =>
        (whole channelId messageId payload i).bytes) := by
  unfold encodeMessage
  rw [viewSized_ok.2 ⟨hc, rfl⟩, viewSized_ok.2 ⟨hm, rfl⟩, validateKindFlags_ok.2 ⟨rfl, rfl⟩]
  dsimp only
  rw [if_neg (by omega), fragmentCount_fragments hp]
  dsimp only
  rw [Int.toNat_natCast]
  refine mapM_ok fun i hi => ?_
  have hcanon := whole_canonical hc hm hp (List.mem_range.1 hi)
  exact (record_ok _).2 ⟨hcanon.count, hcanon.payloadLength, rfl⟩

end Encoding

/-! ## Pushing -/

namespace Reassembler

section Push

variable {r s : Reassembler} {f g : Frame} {parts : List Bytes} {channelId : Option Bytes}

/-- An idle reassembler, as `__init__` makes it. -/
structure Ready (r : Reassembler) : Prop where
  reset : r.reset = r
  kind : r.expectedKind = kindHermesBytes
  flags : r.expectedFlags = flagsNone

theorem create_ready {kind flags : ℤ} (h : create channelId kind flags = .ok r) :
    r.Ready ∧ r.channelId = channelId := by
  unfold create at h
  split at h
  · split at h
    · cases h
    · rename_i hmeta
      obtain ⟨rfl, rfl⟩ := validateKindFlags_ok.1 hmeta
      cases h
      exact ⟨⟨rfl, rfl, rfl⟩, rfl⟩
  · split at h
    · cases h
    · rename_i hview
      obtain ⟨-, rfl⟩ := viewSized_ok.1 hview
      split at h
      · cases h
      · rename_i hmeta
        obtain ⟨rfl, rfl⟩ := validateKindFlags_ok.1 hmeta
        cases h
        exact ⟨⟨rfl, rfl, rfl⟩, rfl⟩

/-- The state within a message of which `parts` arrived; `f` is a fragment of it. -/
def midway (r : Reassembler) (f : Frame) (parts : List Bytes) : Reassembler :=
  { r with
    activeChannelId := some f.channelId
    messageId := some f.messageId
    fragmentCount := f.fragmentCount
    logicalLength := f.logicalLength
    nextIndex := parts.length
    receivedLength := parts.flatten.length
    parts := parts }

/-- The fragments so far of the message of `f`: all are of full size, and more are to
    come. -/
structure Partway (r : Reassembler) (f : Frame) (parts : List Bytes) (s : Reassembler) : Prop where
  state : s = if parts = [] then r else r.midway f parts
  full : parts.flatten.length = parts.length * maxPayloadBytes

/-- The frame goes on where the parts end. -/
structure Follows (r : Reassembler) (parts : List Bytes) (f : Frame) : Prop where
  canonical : Canonical f
  channel : ∀ c ∈ r.channelId, f.channelId = c
  index : f.fragmentIndex = parts.length

/-- The frame has a place in its message. -/
theorem Follows.lengths (h : Follows r parts f) (hfull : parts.flatten.length = parts.length * maxPayloadBytes) :
    (parts.length + 1 < f.fragmentCount → f.payload.length = maxPayloadBytes) ∧
    (parts.length + 1 = f.fragmentCount →
      (parts.flatten.length + f.payload.length : ℤ) = f.logicalLength) ∧
    (parts.flatten.length + f.payload.length : ℤ) ≤ f.logicalLength := by
  obtain ⟨h0, h1, hcount⟩ := fragmentCount_ok.1 h.canonical.count
  have hpayload := h.canonical.payload
  have hindex := h.canonical.index.2
  rw [h.index] at hpayload hindex
  simp only [maxPayloadBytes, maxNoisePlaintextBytes, frameHeaderSize, maxLogicalMessageBytes] at *
  omega

theorem Ready.fields (hr : r.Ready) : r.messageId = none ∧ r.nextIndex = 0 ∧ r.receivedLength = 0 ∧
    r.parts = [] := by
  rw [← hr.reset]
  exact ⟨rfl, rfl, rfl, rfl⟩

/-- An idle reassembler begins a message, as if it were midway already. -/
theorem begin_ready (hr : r.Ready) (h : f.fragmentIndex = 0) : r.begin f = .ok (r.midway f []) := by
  obtain ⟨h1, h2, h3, h4⟩ := hr.fields
  unfold begin midway
  rw [if_pos (by simp [h1]), if_neg (by simp [h])]
  simp [h2, h3, h4]

theorem begin_midway : (r.midway f parts).begin f = .ok (r.midway f parts) := by
  unfold begin
  rw [if_neg (by simp [midway]), if_neg (by simp [midway])]

theorem Partway.begin (hs : Partway r f parts s) (hr : r.Ready) (hindex : f.fragmentIndex = parts.length) :
    s.begin f = .ok (r.midway f parts) := by
  rw [hs.state]
  by_cases hparts : parts = []
  · rw [if_pos hparts]
    subst hparts
    exact begin_ready hr (by simpa using hindex)
  · rw [if_neg hparts]
    exact begin_midway

theorem extend_midway (hr : r.Ready) (hf : Follows r parts f)
    (hfull : parts.flatten.length = parts.length * maxPayloadBytes) :
    (r.midway f parts).extend f = .ok (if (parts.length : ℤ) + 1 = f.fragmentCount
      then (some (parts ++ [f.payload]).flatten, r)
      else (none, r.midway f (parts ++ [f.payload]))) := by
  obtain ⟨-, hlast, hle⟩ := hf.lengths hfull
  have hreset : ∀ x y z (w : List Bytes), ({ r.midway f parts with
      parts := w, receivedLength := x, nextIndex := y, logicalLength := z } : Reassembler).reset = r :=
    fun _ _ _ _ => hr.reset
  unfold extend
  rw [if_neg (by simp [midway, hf.index]), if_neg (by simp only [midway]; omega)]
  dsimp only
  by_cases hcount : (parts.length : ℤ) + 1 = f.fragmentCount
  · rw [if_neg (by simpa [midway] using hcount), if_neg (by simpa [midway] using hlast hcount),
      if_pos hcount]
    exact congrArg (fun x => Except.ok (some _, x)) hr.reset
  · rw [if_pos (by simpa [midway] using hcount), if_neg hcount]
    simp [midway]

/-- **What a record does that goes on where the parts end.** -/
theorem push_bytes (hr : r.Ready) (hs : Partway r f parts s) (hf : Follows r parts f) :
    s.push f.bytes = if (parts.length : ℤ) + 1 = f.fragmentCount
      then (.ok (some (parts ++ [f.payload]).flatten), r)
      else (.ok none, r.midway f (parts ++ [f.payload])) := by
  have hdecode : decodeRecord f.bytes = .ok f := decodeRecord_ok.2 ⟨hf.canonical, rfl⟩
  have hfields : s.expectedKind = r.expectedKind ∧ s.expectedFlags = r.expectedFlags ∧
      s.channelId = r.channelId := by
    rw [hs.state]
    split <;> exact ⟨rfl, rfl, rfl⟩
  have haccept : s.accept f = (r.midway f parts).extend f := by
    unfold accept
    rw [hfields.1, hfields.2.1, hfields.2.2, hr.kind, hr.flags,
      if_neg (by simp [hf.canonical.kind, hf.canonical.flags]), if_neg ?_, hs.begin hr hf.index]
    simp only [Option.any_eq_true, decide_eq_true_eq, not_exists, not_and, not_not]
    exact hf.channel
  unfold push
  rw [hdecode]
  dsimp only
  rw [haccept, extend_midway hr hf hs.full]
  by_cases hcount : (parts.length : ℤ) + 1 = f.fragmentCount
  · rw [if_pos hcount, if_pos hcount]
  · rw [if_neg hcount, if_neg hcount]

end Push

/-! ## Messages -/

section Messages

variable {r s : Reassembler} {channel id message : Bytes}

theorem pushAll_append {xs ys : List Bytes} : s.pushAll (xs ++ ys) =
    ((s.pushAll xs).1 ++ ((s.pushAll xs).2.pushAll ys).1, ((s.pushAll xs).2.pushAll ys).2) := by
  induction xs generalizing s with
  | nil => rfl
  | cons x xs ih =>
    simp only [List.cons_append, pushAll, ih]

/-- The first payloads of a message. -/
def slices (message : Bytes) (k : ℕ) : List Bytes := (List.range k).map (slice message)

theorem slices_flatten (k : ℕ) : (slices message k).flatten = message.take (k * maxPayloadBytes) := by
  induction k with
  | zero => simp [slices]
  | succ k ih =>
    have hsucc : slices message (k + 1) = slices message k ++ [slice message k] := by
      simp [slices, List.range_succ]
    rw [hsucc, List.flatten_append, ih, Nat.succ_mul, List.take_add]
    simp [slice]

/-- The records of a message from the fragment `k` on. -/
def recordsFrom (channel id message : Bytes) (k j : ℕ) : List Bytes :=
  (List.range' k j).map fun i => (whole channel id message i).bytes

/-- The record of the fragment `k` of a message. -/
theorem push_whole (hr : r.Ready) (hch : ∀ c ∈ r.channelId, channel = c)
    (hc : channel.length = channelIdSize) (hid : id.length = messageIdSize)
    (hm : message.length ≤ maxLogicalMessageBytes) {k : ℕ} (hk : k < fragments message.length)
    (hs : s = if k = 0 then r else r.midway (whole channel id message 0) (slices message k)) :
    s.push (whole channel id message k).bytes = if k + 1 = fragments message.length
      then (.ok (some message), r)
      else (.ok none, r.midway (whole channel id message 0) (slices message (k + 1))) := by
  have hlen : (slices message k).length = k := by simp [slices]
  have hfull : k * maxPayloadBytes ≤ message.length := mul_le_of_lt_fragments hk
  have hpartway : Partway r (whole channel id message k) (slices message k) s := by
    refine ⟨?_, ?_⟩
    · have hnil : slices message k = [] ↔ k = 0 := by rw [← List.length_eq_zero_iff, hlen]
      rw [hs]
      by_cases hzero : k = 0
      · rw [if_pos hzero, if_pos (hnil.2 hzero)]
      · rw [if_neg hzero, if_neg (mt hnil.1 hzero)]
        rfl
    · rw [slices_flatten, hlen, List.length_take, Nat.min_eq_left hfull]
  have hfollows : Follows r (slices message k) (whole channel id message k) :=
    ⟨whole_canonical hc hid hm hk, hch, by rw [hlen]; rfl⟩
  have hnext : slices message k ++ [(whole channel id message k).payload] = slices message (k + 1) := by
    simp [slices, List.range_succ, whole, fragment]
  rw [push_bytes hr hpartway hfollows, hnext, hlen]
  have hcount : ((k : ℤ) + 1 = (whole channel id message k).fragmentCount) ↔
      k + 1 = fragments message.length := by
    show ((k : ℤ) + 1 = (fragments message.length : ℤ)) ↔ _
    omega
  by_cases hlast : k + 1 = fragments message.length
  · rw [if_pos (hcount.2 hlast), if_pos hlast, slices_flatten, List.take_of_length_le]
    rw [hlast]
    exact le_fragments_mul
  · rw [if_neg (mt hcount.1 hlast), if_neg hlast]
    rfl

/-- The rest of the records of a message. -/
theorem pushAll_whole (hr : r.Ready) (hch : ∀ c ∈ r.channelId, channel = c)
    (hc : channel.length = channelIdSize) (hid : id.length = messageIdSize)
    (hm : message.length ≤ maxLogicalMessageBytes) (j : ℕ) {k : ℕ}
    (hk : k + j + 1 = fragments message.length)
    (hs : s = if k = 0 then r else r.midway (whole channel id message 0) (slices message k)) :
    s.pushAll (recordsFrom channel id message k (j + 1)) =
      (List.replicate j (.ok none) ++ [.ok (some message)], r) := by
  induction j generalizing k s with
  | zero =>
    have hpush := push_whole hr hch hc hid hm (by omega) hs
    rw [if_pos (by omega)] at hpush
    simp [recordsFrom, pushAll, hpush]
  | succ j ih =>
    have hpush := push_whole hr hch hc hid hm (by omega) hs
    rw [if_neg (by omega)] at hpush
    have hrest := ih (s := r.midway (whole channel id message 0) (slices message (k + 1))) (k := k + 1)
      (by omega) (by simp)
    have hrecords : recordsFrom channel id message k (j + 1 + 1) =
        (whole channel id message k).bytes :: recordsFrom channel id message (k + 1) (j + 1) := by
      rw [recordsFrom, List.range'_succ]
      rfl
    rw [hrecords, pushAll, hpush]
    dsimp only
    rw [hrest]
    rfl

end Messages

/-! ## Any records -/

section Records

variable {r s : Reassembler} {f g : Frame} {got : Bytes} {k : ℕ} {records : List Bytes}
  {record : Bytes}

/-- The frames belong to one message. -/
structure Kin (f g : Frame) : Prop where
  channelId : f.channelId = g.channelId
  messageId : f.messageId = g.messageId
  count : f.fragmentCount = g.fragmentCount
  length : f.logicalLength = g.logicalLength

theorem midway_kin (h : Kin f g) (parts : List Bytes) : r.midway f parts = r.midway g parts := by
  simp only [midway, h.channelId, h.messageId, h.count, h.length]

/-- The state after `k` fragments of the message of `g`, of which `got` is the beginning. -/
def after (r : Reassembler) (g : Frame) (got : Bytes) (k : ℕ) : Reassembler :=
  if k = 0 then r else r.midway g (slices got k)

theorem slices_length : (slices got k).length = k := by
  simp [slices]

theorem slices_eq_nil : slices got k = [] ↔ k = 0 := by
  rw [← List.length_eq_zero_iff, slices_length]

/-- The two branches of `push` that compare the received length. -/
def lengthFaults : List FramingFault :=
  [.reassembly "received length exceeds logical length", .reassembly "received length is incomplete"]

/-- The fault is that of the check or one after it. -/
theorem faults_of_check {α : Type} {p : Prop} [Decidable p] {fault₁ fault : FramingFault}
    {x : Except FramingFault α} (h : (if p then .error fault₁ else x) = .error fault)
    (h₁ : fault₁ ∉ lengthFaults) (hx : x = .error fault → fault ∉ lengthFaults) :
    fault ∉ lengthFaults := by
  by_cases hp : p
  · rw [if_pos hp] at h
    cases h
    exact h₁
  · rw [if_neg hp] at h
    exact hx h

theorem decodeRecord_fault {fault : FramingFault} (h : decodeRecord record = .error fault) :
    fault ∉ lengthFaults := by
  have hdecode : ∀ text, FramingFault.decode text ∉ lengthFaults := by
    intro text
    simp [lengthFaults]
  unfold decodeRecord at h
  refine faults_of_check h (hdecode _) fun h => ?_
  refine faults_of_check h (hdecode _) fun h => ?_
  refine faults_of_check h (hdecode _) fun h => ?_
  refine faults_of_check h (hdecode _) fun h => ?_
  refine faults_of_check h (hdecode _) fun h => ?_
  refine faults_of_check h (hdecode _) fun h => ?_
  refine faults_of_check h (hdecode _) fun h => ?_
  refine faults_of_check h (hdecode _) fun h => ?_
  refine faults_of_check h (hdecode _) fun h => ?_
  split at h
  · refine faults_of_check h (hdecode _) fun h => ?_
    refine faults_of_check h (hdecode _) fun h => ?_
    refine faults_of_check h (hdecode _) fun h => ?_
    cases h
  · rw [← Except.error.inj h]
    exact hdecode _

/-- The frame goes on with what is in progress, or begins a message. -/
structure Fits (r : Reassembler) (g : Frame) (k : ℕ) (f : Frame) : Prop where
  channel : ∀ c ∈ r.channelId, f.channelId = c
  kin : k = 0 ∨ Kin f g
  index : f.fragmentIndex = k

/-- A frame that does not fit is refused before its length is looked at. -/
theorem accept_refused (hr : r.Ready) (hf : Canonical f) (h : ¬ Fits r g k f) :
    ∃ fault, (r.after g got k).accept f = .error fault ∧ fault ∉ lengthFaults := by
  have hfields : (r.after g got k).expectedKind = kindHermesBytes ∧
      (r.after g got k).expectedFlags = flagsNone ∧ (r.after g got k).channelId = r.channelId := by
    rw [after]
    split <;> exact ⟨hr.kind, hr.flags, rfl⟩
  have hany : r.channelId.any (f.channelId ≠ ·) = true ↔ ¬ ∀ c ∈ r.channelId, f.channelId = c := by
    simp only [Option.any_eq_true, decide_eq_true_eq, not_forall, Option.mem_def, ne_eq, exists_prop]
  unfold accept
  rw [hfields.1, hfields.2.1, hfields.2.2, if_neg (by simp [hf.kind, hf.flags])]
  by_cases hchannel : ∀ c ∈ r.channelId, f.channelId = c
  · rw [if_neg (mt hany.1 (not_not.2 hchannel))]
    by_cases hzero : k = 0
    · obtain ⟨h1, -⟩ := hr.fields
      have hindex : f.fragmentIndex ≠ 0 := fun hindex =>
        h ⟨hchannel, .inl hzero, by rw [hindex, hzero]; rfl⟩
      rw [after, if_pos hzero, begin, if_pos (by simp [h1]), if_pos hindex]
      exact ⟨_, rfl, by simp [lengthFaults]⟩
    · rw [after, if_neg hzero]
      by_cases hkin : Kin f g
      · have hindex : f.fragmentIndex ≠ k := fun hindex => h ⟨hchannel, .inr hkin, hindex⟩
        rw [← midway_kin hkin, begin_midway]
        dsimp only
        rw [extend, if_pos (by simpa [midway, slices_length] using hindex)]
        exact ⟨_, rfl, by simp [lengthFaults]⟩
      · rw [begin, if_neg (by simp [midway]), if_pos ?_]
        · exact ⟨_, rfl, by simp [lengthFaults]⟩
        · by_contra hsame
          simp only [midway, ne_eq, Option.some.injEq, not_or, not_not] at hsame
          obtain ⟨h1, h2, h3, h4⟩ := hsame
          exact hkin ⟨h1, h2, h3, h4⟩
  · rw [if_pos (hany.2 hchannel)]
    exact ⟨_, rfl, by simp [lengthFaults]⟩

/-- The records of the first fragments of the message of `g`. -/
def recordsOf (g : Frame) (got : Bytes) (k : ℕ) : List Bytes :=
  (List.range k).map fun i =>
    (fragment g.channelId g.messageId kindHermesBytes flagsNone g.fragmentCount g.logicalLength got i).bytes

/-- A fragment of full size does not change with what comes after it. -/
theorem slice_append {p : Bytes} {i : ℕ} (hfull : got.length = k * maxPayloadBytes) (hi : i < k) :
    slice (got ++ p) i = slice got i := by
  have hle : i * maxPayloadBytes + maxPayloadBytes ≤ got.length := by
    rw [hfull, ← Nat.succ_mul]
    exact Nat.mul_le_mul_right _ hi
  rw [slice, slice, List.drop_append_of_le_length (by omega), List.take_append_of_le_length]
  rw [List.length_drop]
  omega

theorem slice_last {p : Bytes} (hfull : got.length = k * maxPayloadBytes) (hp : p.length ≤ maxPayloadBytes) :
    slice (got ++ p) k = p := by
  rw [slice, ← hfull, List.drop_left, List.take_of_length_le hp]

theorem slices_append {p : Bytes} (hfull : got.length = k * maxPayloadBytes)
    (hp : p.length ≤ maxPayloadBytes) : slices (got ++ p) (k + 1) = slices got k ++ [p] := by
  rw [slices, List.range_succ, List.map_append, List.map_singleton, slice_last hfull hp]
  congr 1
  exact List.map_congr_left fun i hi => slice_append hfull (List.mem_range.1 hi)

/-- The records, with the one of the next fragment. -/
theorem recordsOf_append (hfull : got.length = k * maxPayloadBytes) (hf : Canonical f)
    (hkin : Kin f g) (hindex : f.fragmentIndex = k) :
    recordsOf g (got ++ f.payload) (k + 1) = recordsOf g got k ++ [f.bytes] := by
  have hp : f.payload.length ≤ maxPayloadBytes := hf.bounds.2.2.2.2
  have hlast : fragment g.channelId g.messageId kindHermesBytes flagsNone g.fragmentCount
      g.logicalLength (got ++ f.payload) k = f := by
    rw [fragment, slice_last hfull hp, ← hkin.channelId, ← hkin.messageId, ← hkin.count, ← hkin.length,
      ← hf.kind, ← hf.flags, ← hindex]
  rw [recordsOf, List.range_succ, List.map_append, List.map_singleton, hlast]
  congr 1
  refine List.map_congr_left fun i hi => ?_
  rw [fragment, fragment, slice_append hfull (List.mem_range.1 hi)]

/-- The last `k` records are those of the fragments that arrived of the message of `g`. -/
structure Underway (r : Reassembler) (records : List Bytes) (g : Frame) (got : Bytes) (k : ℕ) : Prop where
  full : got.length = k * maxPayloadBytes
  channel : k ≠ 0 → ∀ c ∈ r.channelId, g.channelId = c
  sent : ∃ older, records = older ++ recordsOf g got k

/-- The last records are those of a message. -/
structure Sent (r : Reassembler) (records : List Bytes) (channelId messageId message : Bytes) : Prop where
  channel : ∀ c ∈ r.channelId, channelId = c
  records : ∃ older new, records = older ++ new ∧
    encodeMessage channelId messageId message kindHermesBytes flagsNone = .ok new

/-- What may come of a record. -/
inductive Outcome (r : Reassembler) (records : List Bytes) :
    Except FramingFault (Option Bytes) → Reassembler → Prop where
  | refused (fault : FramingFault) (h : fault ∉ lengthFaults) : Outcome r records (.error fault) r
  | more (g : Frame) (got : Bytes) (k : ℕ) (h : Underway r records g got k) (hk : k ≠ 0) :
    Outcome r records (.ok none) (r.after g got k)
  | done (channelId messageId message : Bytes) (h : Sent r records channelId messageId message) :
    Outcome r records (.ok (some message)) r

/-- The message is whole. -/
theorem encodeMessage_recordsOf (hf : Canonical f) (hgot : (got.length : ℤ) = f.logicalLength)
    (hk : (k : ℤ) = f.fragmentCount) :
    encodeMessage f.channelId f.messageId got kindHermesBytes flagsNone = .ok (recordsOf f got k) := by
  obtain ⟨-, -, -, hmax, -⟩ := hf.bounds
  have hlen : got.length ≤ maxLogicalMessageBytes := by omega
  have hcount : (fragments got.length : ℤ) = f.fragmentCount := by
    have hcount := fragmentCount_fragments hlen
    rw [hgot, hf.count] at hcount
    exact (Except.ok.inj hcount).symm
  have hk' : k = fragments got.length := by omega
  rw [encodeMessage_ok hf.channelId hf.messageId hlen, recordsOf, ← hk']
  refine congrArg Except.ok (List.map_congr_left fun i _ => ?_)
  rw [whole, hcount, hgot]

/-- **What pushing a record does**, whatever the record. -/
theorem push_outcome (hr : r.Ready) (h : Underway r records g got k) (record : Bytes) :
    Outcome r (records ++ [record]) ((r.after g got k).push record).1 ((r.after g got k).push record).2 := by
  have hreset : (r.after g got k).reset = r := by
    rw [after]
    split <;> exact hr.reset
  cases hdecode : decodeRecord record with
  | error fault =>
    have hpush : (r.after g got k).push record = (.error fault, r) := by
      rw [push, hdecode]
      simp only [hreset]
    rw [hpush]
    exact .refused fault (decodeRecord_fault hdecode)
  | ok f =>
    obtain ⟨hf, hbytes⟩ := decodeRecord_ok.1 hdecode
    by_cases hfits : Fits r g k f
    · have hlen : (slices got k).flatten = got := by
        rw [slices_flatten, ← h.full, List.take_length]
      have hfull : (slices got k).flatten.length = (slices got k).length * maxPayloadBytes := by
        rw [hlen, slices_length, h.full]
      have hpartway : Partway r f (slices got k) (r.after g got k) := by
        refine ⟨?_, hfull⟩
        rw [after]
        rcases hfits.kin with rfl | hkin
        · rw [if_pos rfl, if_pos (slices_eq_nil.2 rfl)]
        · rw [midway_kin hkin]
          simp only [slices_eq_nil]
      have hfollows : Follows r (slices got k) f :=
        ⟨hf, hfits.channel, by rw [slices_length]; exact hfits.index⟩
      obtain ⟨hmore, hlast, hle⟩ := hfollows.lengths hfull
      rw [slices_length, hlen] at hlast
      rw [slices_length] at hmore
      have hp : f.payload.length ≤ maxPayloadBytes := hf.bounds.2.2.2.2
      have hsent : ∃ older, records ++ [record] = older ++ recordsOf f (got ++ f.payload) (k + 1) := by
        obtain ⟨older, holder⟩ := h.sent
        have hrecords : recordsOf f got k = recordsOf g got k := by
          rcases hfits.kin with rfl | hkin
          · rfl
          · simp only [recordsOf, hkin.channelId, hkin.messageId, hkin.count, hkin.length]
        refine ⟨older, ?_⟩
        rw [recordsOf_append h.full hf ⟨rfl, rfl, rfl, rfl⟩ hfits.index, hrecords, holder, hbytes,
          List.append_assoc]
        rfl
      have hrecord : record = f.bytes := hbytes
      rw [hrecord, push_bytes hr hpartway hfollows, slices_length, ← slices_append h.full hp, ← hrecord]
      by_cases hcount : (k : ℤ) + 1 = f.fragmentCount
      · rw [if_pos hcount]
        have hwhole : (slices (got ++ f.payload) (k + 1)).flatten = got ++ f.payload := by
          rw [slices_append h.full hp, List.flatten_append, hlen]
          simp
        rw [hwhole]
        refine .done f.channelId f.messageId _ ⟨hfits.channel, ?_⟩
        obtain ⟨older, holder⟩ := hsent
        refine ⟨older, _, holder, encodeMessage_recordsOf hf ?_ ?_⟩
        · rw [List.length_append]
          push_cast
          exact hlast hcount
        · push_cast
          exact hcount
      · rw [if_neg hcount]
        have hindex := hf.index.2
        rw [hfits.index] at hindex
        have hnext : r.midway f (slices (got ++ f.payload) (k + 1)) = r.after f (got ++ f.payload) (k + 1) := by
          rw [after, if_neg (Nat.succ_ne_zero k)]
        rw [hnext]
        refine .more f _ (k + 1) ⟨?_, fun _ => hfits.channel, hsent⟩ (Nat.succ_ne_zero k)
        rw [List.length_append, h.full, hmore (by omega), Nat.succ_mul]
    · obtain ⟨fault, hfault, hnot⟩ := @accept_refused _ _ _ got _ hr hf hfits
      have hpush : (r.after g got k).push record = (.error fault, r) := by
        rw [push, hdecode]
        simp only [hfault, hreset]
      rw [hpush]
      exact .refused fault hnot

/-- Any records leave a reassembler idle, or underway. -/
theorem pushAll_underway (hr : r.Ready) (records : List Bytes) :
    ∃ g got k, Underway r records g got k ∧ (r.pushAll records).2 = r.after g got k := by
  have hidle : ∀ records : List Bytes, ∃ g got k, Underway r records g got k ∧ r = r.after g got k := by
    intro records
    exact ⟨⟨[], [], 0, 0, 0, 0, 0, []⟩, [], 0, ⟨by simp, fun h => absurd rfl h, records, by simp [recordsOf]⟩, rfl⟩
  induction records using List.reverseRecOn with
  | nil => exact hidle []
  | append_singleton records record ih =>
    obtain ⟨g, got, k, hunderway, hstate⟩ := ih
    have hout := push_outcome hr hunderway record
    have hlast : (r.pushAll (records ++ [record])).2 = ((r.after g got k).push record).2 := by
      rw [pushAll_append, hstate]
      rfl
    rw [hlast]
    generalize (r.after g got k).push record = step at hout
    obtain ⟨out, s⟩ := step
    cases hout with
    | refused fault h => exact hidle _
    | more g' got' k' h hk => exact ⟨g', got', k', h, rfl⟩
    | done channelId messageId message h => exact hidle _

/-- What is not in progress is idle. -/
theorem Underway.idle (h : (r.after g got k).inProgress = false) : r.after g got k = r := by
  rw [after] at h ⊢
  by_cases hk : k = 0
  · rw [if_pos hk]
  · rw [if_neg hk] at h
    simp [inProgress, midway] at h

end Records

section Results

variable {channelId : Option Bytes} {channel : Bytes} {r : Reassembler} {messages : List (Bytes × Bytes)}

/-- The records of messages with their ids. -/
def encodeAll (channel : Bytes) (messages : List (Bytes × Bytes)) : Except FramingFault (List (List Bytes)) :=
  messages.mapM fun m => encodeMessage channel m.1 m.2 kindHermesBytes flagsNone

theorem bytes_length {f : Frame} (h : Canonical f) : f.bytes.length ≤ maxNoisePlaintextBytes := by
  have hp : f.payload.length ≤ maxPayloadBytes := h.bounds.2.2.2.2
  rw [Frame.bytes, List.length_append, pack_length h.fits]
  simp only [maxNoisePlaintextBytes, maxPayloadBytes, frameHeaderSize] at hp ⊢
  omega

/-- All records of a message. -/
theorem pushAll_message {id message : Bytes} (hr : r.Ready) (hch : ∀ c ∈ r.channelId, channel = c)
    (hc : channel.length = channelIdSize) (hid : id.length = messageIdSize)
    (hm : message.length ≤ maxLogicalMessageBytes) :
    r.pushAll (recordsFrom channel id message 0 (fragments message.length)) =
      (List.replicate (fragments message.length - 1) (.ok none) ++ [.ok (some message)], r) := by
  have hpos : 1 ≤ fragments message.length := Nat.le_max_left _ _
  have hwhole := pushAll_whole hr hch hc hid hm (fragments message.length - 1) (k := 0) (by omega) rfl
  rwa [Nat.sub_add_cancel hpos] at hwhole

/-- The records of every message, and what comes of them. -/
theorem pushAll_messages (hr : r.Ready) (hch : ∀ c ∈ r.channelId, channel = c)
    (hc : channel.length = channelIdSize)
    (hm : ∀ m ∈ messages, m.1.length = messageIdSize ∧ m.2.length ≤ maxLogicalMessageBytes) :
    r.pushAll (messages.map fun m => recordsFrom channel m.1 m.2 0 (fragments m.2.length)).flatten =
      (messages.flatMap fun m =>
        List.replicate (fragments m.2.length - 1) (.ok none) ++ [.ok (some m.2)], r) := by
  induction messages with
  | nil => rfl
  | cons m messages ih =>
    obtain ⟨hid, hlen⟩ := hm m List.mem_cons_self
    rw [List.map_cons, List.flatten_cons, pushAll_append, pushAll_message hr hch hc hid hlen]
    dsimp only
    rw [ih fun m' hm' => hm m' (List.mem_cons_of_mem m hm'), List.flatMap_cons]

/-- **Messages that were encoded are returned**, each with its last record, whatever was pushed
    before into the reassembler that is now idle. -/
theorem messages_round_trip (hr : create channelId kindHermesBytes flagsNone = .ok r)
    (hchannel : ∀ c ∈ channelId, channel = c) (hc : channel.length = channelIdSize)
    (before : List Bytes) (hidle : (r.pushAll before).2.inProgress = false)
    (hm : ∀ m ∈ messages, m.1.length = messageIdSize ∧ m.2.length ≤ maxLogicalMessageBytes) :
    ∃ records, encodeAll channel messages = .ok records ∧
      ((r.pushAll before).2.pushAll records.flatten).1 = (messages.flatMap fun m =>
        List.replicate (max 1 (m.2.length ⌈/⌉ 65469) - 1) (.ok none) ++ [.ok (some m.2)]) ∧
      (∀ n, ((r.pushAll before).2.pushAll (records.take n).flatten).2.inProgress = false) ∧
      (records.map List.length = messages.map fun m => max 1 (m.2.length ⌈/⌉ 65469)) ∧
      ∀ record ∈ records.flatten, record.length ≤ 65519 := by
  obtain ⟨hready, hfixed⟩ := create_ready hr
  obtain ⟨g, got, k, hunderway, hstate⟩ := pushAll_underway hready before
  rw [hstate] at hidle ⊢
  rw [Underway.idle hidle]
  have hch : ∀ c ∈ r.channelId, channel = c := by
    rw [hfixed]
    exact hchannel
  simp only [← fragments_eq]
  refine ⟨messages.map fun m => recordsFrom channel m.1 m.2 0 (fragments m.2.length), ?_, ?_, ?_, ?_, ?_⟩
  · refine mapM_ok fun m hmem => ?_
    obtain ⟨hid, hlen⟩ := hm m hmem
    rw [encodeMessage_ok hc hid hlen, recordsFrom, List.range_eq_range']
  · rw [pushAll_messages hready hch hc hm]
  · intro n
    rw [← List.map_take, pushAll_messages hready hch hc fun m hmem => hm m (List.mem_of_mem_take hmem)]
    obtain ⟨h1, -⟩ := hready.fields
    show r.messageId.isSome = false
    rw [h1]
    rfl
  · rw [List.map_map]
    refine List.map_congr_left fun m _ => ?_
    rw [Function.comp_apply, recordsFrom, List.length_map, List.length_range']
  · intro record hrecord
    obtain ⟨records, hrecords, hrecord⟩ := List.mem_flatten.1 hrecord
    obtain ⟨m, hmem, rfl⟩ := List.mem_map.1 hrecords
    obtain ⟨i, hi, rfl⟩ := List.mem_map.1 hrecord
    obtain ⟨hid, hlen⟩ := hm m hmem
    rw [List.mem_range'_1] at hi
    exact bytes_length (whole_canonical hc hid hlen (by omega))

/-- Two messages, the first of them empty. -/
theorem messages_round_trip_two : ∃ records,
    encodeAll (List.replicate 16 7) [(List.replicate 16 0, []), (List.replicate 16 1, [104, 105])] =
      .ok records ∧
    (({} : Reassembler).pushAll records.flatten).1 = [.ok (some []), .ok (some [104, 105])] := by
  obtain ⟨records, henc, hout, -⟩ := @messages_round_trip none (List.replicate 16 7) {}
    [(List.replicate 16 0, []), (List.replicate 16 1, [104, 105])] rfl (by simp) rfl [] rfl (by decide)
  exact ⟨records, henc, hout⟩

/-- **What is returned was encoded**, and what is refused leaves nothing behind. -/
theorem reassembly_sound {kind flags : ℤ} (hr : create channelId kind flags = .ok r)
    (records : List Bytes) (record : Bytes) :
    (∀ message, ((r.pushAll records).2.push record).1 = .ok (some message) →
      ∃ channel id older new, records ++ [record] = older ++ new ∧
        encodeMessage channel id message kindHermesBytes flagsNone = .ok new ∧
        ∀ c ∈ channelId, channel = c) ∧
    ∀ fault, ((r.pushAll records).2.push record).1 = .error fault →
      ((r.pushAll records).2.push record).2 = r ∧
      fault ≠ .reassembly "received length exceeds logical length" ∧
      fault ≠ .reassembly "received length is incomplete" := by
  obtain ⟨hready, hfixed⟩ := create_ready hr
  obtain ⟨g, got, k, hunderway, hstate⟩ := pushAll_underway hready records
  rw [hstate]
  have hout := push_outcome hready hunderway record
  generalize (r.after g got k).push record = step at hout
  obtain ⟨out, s⟩ := step
  constructor
  · intro message hmessage
    cases hout with
    | refused fault h => cases hmessage
    | more g' got' k' h hk => cases hmessage
    | done channel id message' h =>
      cases hmessage
      obtain ⟨older, new, hrecords, hencode⟩ := h.records
      exact ⟨channel, id, older, new, hrecords, hencode, by rw [← hfixed]; exact h.channel⟩
  · intro fault hfault
    cases hout with
    | refused fault' h =>
      cases hfault
      simp only [lengthFaults, List.mem_cons, List.not_mem_nil, or_false, not_or] at h
      exact ⟨rfl, h⟩
    | more g' got' k' h hk => cases hfault
    | done channel id message h => cases hfault

/-- A message after a record that was cut off. -/
theorem reassembly_sound_hello : ∃ channel id older new,
    [[77, 82, 1], helloRecord] = older ++ new ∧
      encodeMessage channel id [104, 105] kindHermesBytes flagsNone = .ok new ∧
      ∀ c ∈ some (List.replicate 16 7), channel = c := by
  refine (@reassembly_sound (some (List.replicate 16 7)) { channelId := some (List.replicate 16 7) } 1 0
    rfl [[77, 82, 1]] helloRecord).1 [104, 105] ?_
  decide

end Results

end Reassembler

end Framing

end MercuryRelay
