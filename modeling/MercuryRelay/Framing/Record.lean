/-
  The records of the framing layer (framing.py).

  A record is a header of 50 octets and a payload.  The encoder and the decoder
  make the same checks, each in its own order.

  * `encodeRecord_ok`, `decodeRecord_ok`: what both accept;
  * `record_canonical`: decoding and encoding are inverse to each other.
-/
import MercuryRelay.Lib.BigEndian
import MercuryRelay.Python.Division

set_option autoImplicit false

namespace MercuryRelay

open Python

/-- What the framing layer raises: a `ValueError`, a `DecodeError` or a
    `ReassemblyError`. -/
inductive FramingFault where
  | value (text : String)
  | decode (text : String)
  | reassembly (text : String)
  deriving DecidableEq

namespace Framing

/-- `MAGIC`. -/
def magic : Bytes := [77, 82]
def protocolVersion : ℤ := 1
def kindHermesBytes : ℤ := 1
def flagsNone : ℤ := 0
def reservedNone : ℤ := 0
def channelIdSize : ℕ := 16
def messageIdSize : ℕ := 16
def maxNoisePlaintextBytes : ℕ := 65519
def maxLogicalMessageBytes : ℕ := 16 * 2 ^ 20
def frameHeaderSize : ℕ := 50
def maxPayloadBytes : ℕ := maxNoisePlaintextBytes - frameHeaderSize

/-- `math.ceil(length / MAX_PAYLOAD_BYTES)`; lengths are far from overflow. -/
def payloads (length : ℕ) : ℤ := (ceilQuotient length maxPayloadBytes).getD 0

def maxFragmentCount : ℤ := payloads maxLogicalMessageBytes

/-- `_HEADER`. -/
structure Header where
  magic : Bytes
  version : ℤ
  kind : ℤ
  flags : ℤ
  reserved : ℤ
  fragmentIndex : ℤ
  fragmentCount : ℤ
  logicalLength : ℤ
  payloadLength : ℤ
  channelId : Bytes
  messageId : Bytes

/-- An unsigned integer of `width` octets. -/
def packInt (width : ℕ) (n : ℤ) : Bytes := BigEndian.octets width n.toNat

/-- The fields of a header, as octets. -/
def Header.parts (h : Header) : List Bytes :=
  [h.magic, packInt 1 h.version, packInt 1 h.kind, packInt 1 h.flags, packInt 1 h.reserved,
    packInt 2 h.fragmentIndex, packInt 2 h.fragmentCount, packInt 4 h.logicalLength,
    packInt 4 h.payloadLength, h.channelId, h.messageId]

/-- `_HEADER.pack`. -/
def Header.pack (h : Header) : Bytes := h.parts.flatten

/-- The octets `start` to `start + width`. -/
def field (bs : Bytes) (start width : ℕ) : Bytes := (bs.drop start).take width

def fieldInt (bs : Bytes) (start width : ℕ) : ℤ := BigEndian.value (field bs start width)

/-- `_HEADER.unpack_from`. -/
def Header.unpack (bs : Bytes) : Header where
  magic := field bs 0 2
  version := fieldInt bs 2 1
  kind := fieldInt bs 3 1
  flags := fieldInt bs 4 1
  reserved := fieldInt bs 5 1
  fragmentIndex := fieldInt bs 6 2
  fragmentCount := fieldInt bs 8 2
  logicalLength := fieldInt bs 10 4
  payloadLength := fieldInt bs 14 4
  channelId := field bs 18 16
  messageId := field bs 34 16

structure Frame where
  channelId : Bytes
  messageId : Bytes
  kind : ℤ := kindHermesBytes
  flags : ℤ := flagsNone
  fragmentIndex : ℤ
  fragmentCount : ℤ
  logicalLength : ℤ
  payload : Bytes
  deriving DecidableEq

/-- `_view(value, field, size=size)`. -/
def viewSized (value : Bytes) (name : String) (size : ℕ) : Except FramingFault Bytes :=
  if value.length ≠ size then
    .error (.value (name ++ " must be exactly " ++ toString size ++ " bytes"))
  else .ok value

/-- `_validate_kind_flags`. -/
def validateKindFlags (kind flags : ℤ) : Except FramingFault Unit :=
  if kind ≠ kindHermesBytes then .error (.value "unknown kind")
  else if flags ≠ flagsNone then .error (.value "unknown flags")
  else .ok ()

/-- `_fragment_count`. -/
def fragmentCount (logicalLength : ℤ) : Except FramingFault ℤ :=
  if logicalLength < 0 ∨ maxLogicalMessageBytes < logicalLength then
    .error (.value "logical length exceeds v1 limit")
  else .ok (max 1 (payloads logicalLength.toNat))

/-- `_payload_length`. -/
def payloadLength (logicalLength fragmentIndex : ℤ) : Except FramingFault ℤ :=
  match fragmentCount logicalLength with
  | .error fault => .error fault
  | .ok count =>
    if ¬ (0 ≤ fragmentIndex ∧ fragmentIndex < count) then
      .error (.value "fragment index is outside the fragment count")
    else .ok (min maxPayloadBytes (logicalLength - fragmentIndex * maxPayloadBytes))

/-- The header of a frame. -/
def Frame.header (f : Frame) : Header where
  magic := magic
  version := protocolVersion
  kind := f.kind
  flags := f.flags
  reserved := reservedNone
  fragmentIndex := f.fragmentIndex
  fragmentCount := f.fragmentCount
  logicalLength := f.logicalLength
  payloadLength := f.payload.length
  channelId := f.channelId
  messageId := f.messageId

/-- `_record`. -/
def record (f : Frame) : Except FramingFault Bytes :=
  match payloadLength f.logicalLength f.fragmentIndex with
  | .error fault => .error fault
  | .ok expectedPayloadLength =>
    match fragmentCount f.logicalLength with
    | .error fault => .error fault
    | .ok count =>
      if f.fragmentCount ≠ count then .error (.value "fragment count is not canonical")
      else if (f.payload.length : ℤ) ≠ expectedPayloadLength then
        .error (.value "payload length is not canonical")
      else .ok (f.header.pack ++ f.payload)

/-- `encode_record`; its arguments are the fields of a frame. -/
def encodeRecord (f : Frame) : Except FramingFault Bytes :=
  match viewSized f.channelId "channel_id" channelIdSize with
  | .error fault => .error fault
  | .ok channel =>
    match viewSized f.messageId "message_id" messageIdSize with
    | .error fault => .error fault
    | .ok message =>
      match validateKindFlags f.kind f.flags with
      | .error fault => .error fault
      | .ok () =>
        if ¬ (0 ≤ f.fragmentIndex ∧ f.fragmentIndex < 2 ^ 16) then
          .error (.value "fragment_index is outside the unsigned 16-bit range")
        else if ¬ (0 ≤ f.fragmentCount ∧ f.fragmentCount < 2 ^ 16) then
          .error (.value "fragment_count is outside the unsigned 16-bit range")
        else if ¬ (0 ≤ f.logicalLength ∧ f.logicalLength ≤ maxLogicalMessageBytes) then
          .error (.value "logical length exceeds v1 limit")
        else if maxPayloadBytes < f.payload.length then
          .error (.value "payload exceeds one Noise plaintext record")
        else record { f with channelId := channel, messageId := message }

/-- `decode_record`. -/
def decodeRecord (bs : Bytes) : Except FramingFault Frame :=
  if bs.length < frameHeaderSize then .error (.decode "truncated record header")
  else if maxNoisePlaintextBytes < bs.length then
    .error (.decode "record exceeds Noise plaintext limit")
  else
    let h := Header.unpack bs
    if h.magic ≠ magic then .error (.decode "invalid magic")
    else if h.version ≠ protocolVersion then .error (.decode "unknown version")
    else if h.kind ≠ kindHermesBytes then .error (.decode "unknown kind")
    else if h.flags ≠ flagsNone then .error (.decode "unknown flags")
    else if h.reserved ≠ reservedNone then .error (.decode "reserved value is nonzero")
    else if h.fragmentCount = 0 ∨ maxFragmentCount < h.fragmentCount then
      .error (.decode "fragment count is outside the v1 range")
    else if maxLogicalMessageBytes < h.logicalLength then
      .error (.decode "logical length exceeds v1 limit")
    else
      match fragmentCount h.logicalLength, payloadLength h.logicalLength h.fragmentIndex with
      | .ok expectedCount, .ok expectedPayloadLength =>
        if h.fragmentCount ≠ expectedCount then .error (.decode "fragment count is not canonical")
        else if h.payloadLength ≠ expectedPayloadLength then
          .error (.decode "payload length is not canonical")
        else if (bs.length : ℤ) ≠ frameHeaderSize + h.payloadLength then
          .error (.decode "record length does not match payload length")
        else
          .ok { channelId := h.channelId, messageId := h.messageId, kind := h.kind, flags := h.flags,
                fragmentIndex := h.fragmentIndex, fragmentCount := h.fragmentCount,
                logicalLength := h.logicalLength, payload := bs.drop frameHeaderSize }
      | _, _ => .error (.decode "fragment index or length is not canonical")

/-! ## Headers -/

section Headers

variable {h : Header} {bs rest : Bytes}

/-- The widths of the fields. -/
def widths : List ℕ := [2, 1, 1, 1, 1, 2, 2, 4, 4, 16, 16]

theorem fields_eq : BigEndian.fields widths bs =
    [field bs 0 2, field bs 2 1, field bs 3 1, field bs 4 1, field bs 5 1, field bs 6 2, field bs 8 2,
      field bs 10 4, field bs 14 4, field bs 18 16, field bs 34 16] := by
  simp only [widths, BigEndian.fields, field, List.drop_drop, List.drop_zero]

/-- The fields have their widths, and the numbers fit in them. -/
structure Header.Fits (h : Header) : Prop where
  magic : h.magic.length = 2
  channelId : h.channelId.length = 16
  messageId : h.messageId.length = 16
  octet : ∀ n ∈ [h.version, h.kind, h.flags, h.reserved], 0 ≤ n ∧ n < 2 ^ 8
  short : ∀ n ∈ [h.fragmentIndex, h.fragmentCount], 0 ≤ n ∧ n < 2 ^ 16
  long : ∀ n ∈ [h.logicalLength, h.payloadLength], 0 ≤ n ∧ n < 2 ^ 32

theorem value_packInt {width : ℕ} {n : ℤ} (h0 : 0 ≤ n) (hn : n < 256 ^ width) :
    (BigEndian.value (packInt width n) : ℤ) = n := by
  have hlt : n.toNat < 256 ^ width := by
    have hcast : (n.toNat : ℤ) < ((256 ^ width : ℕ) : ℤ) := by
      rw [Int.toNat_of_nonneg h0]
      exact_mod_cast hn
    exact_mod_cast hcast
  rw [packInt, BigEndian.value_octets hlt, Int.toNat_of_nonneg h0]

theorem field_length {start width : ℕ} (hlen : start + width ≤ bs.length) :
    (field bs start width).length = width := by
  simp only [field, List.length_take, List.length_drop]
  omega

theorem packInt_fieldInt {start width : ℕ} (hlen : start + width ≤ bs.length) :
    packInt width (fieldInt bs start width) = field bs start width := by
  rw [packInt, fieldInt, Int.toNat_natCast]
  exact BigEndian.octets_value_of_length (field_length hlen)

/-- What is unpacked is packed again. -/
theorem pack_unpack (hlen : 50 ≤ bs.length) : (Header.unpack bs).pack = bs.take 50 := by
  have hparts : (Header.unpack bs).parts = BigEndian.fields widths bs := by
    rw [fields_eq]
    simp only [Header.parts, Header.unpack]
    repeat rw [packInt_fieldInt (by omega)]
  rw [Header.pack, hparts, BigEndian.flatten_fields]
  rfl

theorem unpack_pack (hfits : h.Fits) : Header.unpack (h.pack ++ rest) = h := by
  have hwidths : h.parts.map List.length = widths := by
    simp [Header.parts, packInt, widths, hfits.magic, hfits.channelId, hfits.messageId]
  have hfields : BigEndian.fields widths (h.pack ++ rest) = h.parts := by
    rw [← hwidths]
    exact BigEndian.fields_flatten h.parts rest
  rw [fields_eq] at hfields
  simp only [Header.parts, List.cons.injEq] at hfields
  obtain ⟨h1, h2, h3, h4, h5, h6, h7, h8, h9, h10, h11, -⟩ := hfields
  have hoctet : ∀ n ∈ [h.version, h.kind, h.flags, h.reserved],
      (BigEndian.value (packInt 1 n) : ℤ) = n := fun n hn =>
    value_packInt (hfits.octet n hn).1 (by have := (hfits.octet n hn).2; norm_num at this ⊢; omega)
  have hshort : ∀ n ∈ [h.fragmentIndex, h.fragmentCount],
      (BigEndian.value (packInt 2 n) : ℤ) = n := fun n hn =>
    value_packInt (hfits.short n hn).1 (by have := (hfits.short n hn).2; norm_num at this ⊢; omega)
  have hlong : ∀ n ∈ [h.logicalLength, h.payloadLength],
      (BigEndian.value (packInt 4 n) : ℤ) = n := fun n hn =>
    value_packInt (hfits.long n hn).1 (by have := (hfits.long n hn).2; norm_num at this ⊢; omega)
  simp only [Header.unpack, fieldInt, h1, h2, h3, h4, h5, h6, h7, h8, h9, h10, h11]
  rw [hoctet _ (by simp), hoctet _ (by simp), hoctet _ (by simp), hoctet _ (by simp),
    hshort _ (by simp), hshort _ (by simp), hlong _ (by simp), hlong _ (by simp)]

theorem pack_length (hfits : h.Fits) : h.pack.length = frameHeaderSize := by
  simp [Header.pack, Header.parts, packInt, frameHeaderSize, hfits.magic, hfits.channelId,
    hfits.messageId]

end Headers

/-! ## What is canonical -/

section Canonical

variable {f : Frame} {bs : Bytes} {n c i : ℤ}

theorem payloads_eq {n : ℕ} (h : n ≤ maxLogicalMessageBytes) :
    payloads n = ((n + 65468) / 65469 : ℕ) := by
  have hn : n < 2 ^ 30 := Nat.lt_of_le_of_lt h (by decide)
  have hmax : n + maxPayloadBytes - 1 = n + 65468 := Nat.add_sub_assoc (by decide) n
  rw [payloads, ceilQuotient_eq hn (by decide) (by decide), hmax]
  rfl

theorem maxFragmentCount_eq : maxFragmentCount = 257 := by
  rw [maxFragmentCount, payloads_eq (Nat.le_refl _)]
  rfl

theorem fragmentCount_ok : fragmentCount n = .ok c ↔
    0 ≤ n ∧ n ≤ maxLogicalMessageBytes ∧ c = max 1 ((n + 65468) / 65469) := by
  unfold fragmentCount
  split
  · rename_i h
    refine iff_of_false (by simp) fun h' => ?_
    omega
  · rename_i h
    have hn : n.toNat ≤ maxLogicalMessageBytes := by omega
    have h0 : (n.toNat : ℤ) = n := Int.toNat_of_nonneg (by omega)
    rw [payloads_eq hn, Except.ok.injEq]
    push_cast
    rw [h0]
    constructor
    · rintro rfl
      exact ⟨by omega, by omega, rfl⟩
    · rintro ⟨-, -, rfl⟩
      rfl

theorem payloadLength_ok : payloadLength n i = .ok c ↔ ∃ count, fragmentCount n = .ok count ∧
    0 ≤ i ∧ i < count ∧ c = min (maxPayloadBytes : ℤ) (n - i * maxPayloadBytes) := by
  unfold payloadLength
  cases h : fragmentCount n with
  | error fault => simp
  | ok count =>
    dsimp only
    split
    · rename_i hi
      refine iff_of_false (by simp) ?_
      rintro ⟨count', hc, h0, h1, -⟩
      cases hc
      exact hi ⟨h0, h1⟩
    · rename_i hi
      rw [not_not] at hi
      constructor
      · intro hc
        exact ⟨count, rfl, hi.1, hi.2, (Except.ok.inj hc).symm⟩
      · rintro ⟨count', hc, -, -, rfl⟩
        rfl

/-- What both the encoder and the decoder ask of a frame. -/
structure Canonical (f : Frame) : Prop where
  channelId : f.channelId.length = channelIdSize
  messageId : f.messageId.length = messageIdSize
  kind : f.kind = kindHermesBytes
  flags : f.flags = flagsNone
  count : fragmentCount f.logicalLength = .ok f.fragmentCount
  index : 0 ≤ f.fragmentIndex ∧ f.fragmentIndex < f.fragmentCount
  payload : (f.payload.length : ℤ) =
    min (maxPayloadBytes : ℤ) (f.logicalLength - f.fragmentIndex * maxPayloadBytes)

theorem Canonical.payloadLength (h : Canonical f) :
    payloadLength f.logicalLength f.fragmentIndex = .ok f.payload.length :=
  payloadLength_ok.2 ⟨_, h.count, h.index.1, h.index.2, h.payload⟩

/-- The numbers of a canonical frame are small. -/
theorem Canonical.bounds (h : Canonical f) : 1 ≤ f.fragmentCount ∧ f.fragmentCount ≤ 257 ∧
    0 ≤ f.logicalLength ∧ f.logicalLength ≤ maxLogicalMessageBytes ∧
    f.payload.length ≤ maxPayloadBytes := by
  obtain ⟨h0, h1, h2⟩ := fragmentCount_ok.1 h.count
  have hpayload := h.payload
  simp only [maxLogicalMessageBytes] at h1 ⊢
  omega

theorem Canonical.fits (h : Canonical f) : f.header.Fits := by
  obtain ⟨h1, h2, h3, h4, h5⟩ := h.bounds
  have hi := h.index
  have hkind := h.kind
  have hflags := h.flags
  simp only [maxLogicalMessageBytes, maxPayloadBytes, maxNoisePlaintextBytes, frameHeaderSize,
    kindHermesBytes, flagsNone] at h4 h5 hkind hflags
  refine ⟨rfl, h.channelId, h.messageId, ?_, ?_, ?_⟩
  · simp only [Frame.header, List.forall_mem_cons, protocolVersion, reservedNone, hkind, hflags]
    simp
  · simp only [Frame.header, List.forall_mem_cons]
    exact ⟨by omega, by omega, by simp⟩
  · simp only [Frame.header, List.forall_mem_cons]
    exact ⟨by omega, by omega, by simp⟩

theorem record_ok (f : Frame) : record f = .ok bs ↔ fragmentCount f.logicalLength = .ok f.fragmentCount ∧
    payloadLength f.logicalLength f.fragmentIndex = .ok f.payload.length ∧
    bs = f.header.pack ++ f.payload := by
  unfold record
  cases hp : payloadLength f.logicalLength f.fragmentIndex with
  | error fault => simp
  | ok expected =>
    cases hc : fragmentCount f.logicalLength with
    | error fault => simp
    | ok count =>
      dsimp only
      split
      · rename_i hne
        exact iff_of_false (by simp) fun h => hne (Except.ok.inj h.1).symm
      · rename_i heq
        split
        · rename_i hne
          exact iff_of_false (by simp) fun h => hne (Except.ok.inj h.2.1).symm
        · rename_i heq'
          rw [not_not] at heq heq'
          rw [heq, heq']
          simp [eq_comm]

/-- A check that was passed. -/
theorem passed {α : Type} {p : Prop} [Decidable p] {fault : FramingFault}
    {x : Except FramingFault α} {a : α} (h : (if p then .error fault else x) = .ok a) :
    ¬ p ∧ x = .ok a := by
  by_cases hp : p
  · rw [if_pos hp] at h
    cases h
  · rw [if_neg hp] at h
    exact ⟨hp, h⟩

theorem viewSized_ok {value value' : Bytes} {name : String} {size : ℕ} :
    viewSized value name size = .ok value' ↔ value.length = size ∧ value' = value := by
  unfold viewSized
  split
  · rename_i h
    exact iff_of_false (by simp) fun h' => h h'.1
  · rename_i h
    rw [not_not] at h
    simp [h, eq_comm]

theorem validateKindFlags_ok {kind flags : ℤ} :
    validateKindFlags kind flags = .ok () ↔ kind = kindHermesBytes ∧ flags = flagsNone := by
  unfold validateKindFlags
  split
  · rename_i h
    exact iff_of_false (by simp) fun h' => h h'.1
  · split
    · rename_i h
      exact iff_of_false (by simp) fun h' => h h'.2
    · rename_i h h'
      rw [not_not] at h h'
      simp [h, h']

/-- **What the encoder accepts.** -/
theorem encodeRecord_ok : encodeRecord f = .ok bs ↔ Canonical f ∧ bs = f.header.pack ++ f.payload := by
  constructor
  · intro h
    unfold encodeRecord at h
    split at h
    · cases h
    · rename_i hview
      obtain ⟨hchannel, rfl⟩ := viewSized_ok.1 hview
      split at h
      · cases h
      · rename_i hview'
        obtain ⟨hmessage, rfl⟩ := viewSized_ok.1 hview'
        split at h
        · cases h
        · rename_i hmeta
          obtain ⟨hkind, hflags⟩ := validateKindFlags_ok.1 hmeta
          obtain ⟨-, h⟩ := passed h
          obtain ⟨-, h⟩ := passed h
          obtain ⟨-, h⟩ := passed h
          obtain ⟨-, h⟩ := passed h
          obtain ⟨hcount, hlength, rfl⟩ := (record_ok _).1 h
          obtain ⟨count, hcount', h0, h1, hpayload⟩ := payloadLength_ok.1 hlength
          obtain rfl : f.fragmentCount = count := Except.ok.inj (hcount.symm.trans hcount')
          exact ⟨⟨hchannel, hmessage, hkind, hflags, hcount, ⟨h0, h1⟩, hpayload⟩, rfl⟩
  · rintro ⟨h, rfl⟩
    obtain ⟨h1, h2, h3, h4, h5⟩ := h.bounds
    have hi := h.index
    unfold encodeRecord
    rw [viewSized_ok.2 ⟨h.channelId, rfl⟩, viewSized_ok.2 ⟨h.messageId, rfl⟩,
      validateKindFlags_ok.2 ⟨h.kind, h.flags⟩]
    dsimp only
    rw [if_neg (by omega), if_neg (by omega), if_neg (by omega), if_neg (by omega)]
    exact (record_ok f).2 ⟨h.count, h.payloadLength, rfl⟩

/-- **What the decoder accepts.** -/
theorem decodeRecord_ok : decodeRecord bs = .ok f ↔ Canonical f ∧ bs = f.header.pack ++ f.payload := by
  constructor
  · intro h
    unfold decodeRecord at h
    obtain ⟨hlen, h⟩ := passed h
    obtain ⟨-, h⟩ := passed h
    obtain ⟨hmagic, h⟩ := passed h
    obtain ⟨hversion, h⟩ := passed h
    obtain ⟨hkind, h⟩ := passed h
    obtain ⟨hflags, h⟩ := passed h
    obtain ⟨hreserved, h⟩ := passed h
    obtain ⟨-, h⟩ := passed h
    obtain ⟨-, h⟩ := passed h
    rw [not_not] at hmagic hversion hkind hflags hreserved
    split at h
    · rename_i count length hcount hlength
      obtain ⟨hcount', h⟩ := passed h
      obtain ⟨hlength', h⟩ := passed h
      obtain ⟨hsize, h⟩ := passed h
      rw [not_not] at hcount' hlength' hsize
      cases h
      have h50 : 50 ≤ bs.length := by
        simp only [frameHeaderSize] at hlen
        omega
      have hpayload : ((bs.drop frameHeaderSize).length : ℤ) = (Header.unpack bs).payloadLength := by
        simp only [frameHeaderSize, List.length_drop] at hsize ⊢
        omega
      rw [← hcount'] at hcount
      rw [← hlength', ← hpayload] at hlength
      obtain ⟨count, hcount'', h0, h1, hmin⟩ := payloadLength_ok.1 hlength
      obtain rfl := Except.ok.inj (hcount.symm.trans hcount'')
      have hchannel : (field bs 18 16).length = 16 := field_length (Nat.le_trans (by decide) h50)
      have hmessage : (field bs 34 16).length = 16 := field_length h50
      refine ⟨⟨hchannel, hmessage, hkind, hflags, hcount, ⟨h0, h1⟩, hmin⟩, ?_⟩
      have hheader : (Frame.mk (Header.unpack bs).channelId (Header.unpack bs).messageId
          (Header.unpack bs).kind (Header.unpack bs).flags (Header.unpack bs).fragmentIndex
          (Header.unpack bs).fragmentCount (Header.unpack bs).logicalLength
          (bs.drop frameHeaderSize)).header = Header.unpack bs := by
        simp only [Frame.header, hpayload, ← hmagic, ← hversion, ← hreserved]
      rw [hheader, pack_unpack h50]
      exact (List.take_append_drop 50 bs).symm
    · cases h
  · rintro ⟨h, rfl⟩
    have hunpack : Header.unpack (f.header.pack ++ f.payload) = f.header := unpack_pack h.fits
    have hlen : (f.header.pack ++ f.payload).length = frameHeaderSize + f.payload.length := by
      rw [List.length_append, pack_length h.fits]
    have hdrop : (f.header.pack ++ f.payload).drop frameHeaderSize = f.payload := by
      rw [← pack_length h.fits]
      simp
    obtain ⟨h1, h2, h3, h4, h5⟩ := h.bounds
    unfold decodeRecord
    rw [hunpack, hlen, hdrop]
    have hmax : maxNoisePlaintextBytes = frameHeaderSize + maxPayloadBytes := rfl
    rw [if_neg (by omega), if_neg (by omega)]
    dsimp only [Frame.header]
    rw [if_neg (by simp), if_neg (by simp), if_neg (by simp [h.kind]), if_neg (by simp [h.flags]),
      if_neg (by simp), if_neg (by rw [maxFragmentCount_eq]; omega), if_neg (by omega), h.count,
      h.payloadLength]
    dsimp only
    rw [if_neg (by simp), if_neg (by simp), if_neg (by push_cast; simp)]

/-- **Decoding and encoding are inverse to each other**, and the arguments of the encoder are
    what the decoder finds. -/
theorem record_canonical (bs : Bytes) :
    ((∃ f, decodeRecord bs = .ok f) ↔ ∃ f, encodeRecord f = .ok bs) ∧
    (∀ f, encodeRecord f = .ok bs ↔ decodeRecord bs = .ok f) ∧
    ∀ bs' f, decodeRecord bs = .ok f → decodeRecord bs' = .ok f → bs = bs' := by
  have hiff : ∀ bs f, encodeRecord f = .ok bs ↔ decodeRecord bs = .ok f := fun bs f =>
    encodeRecord_ok.trans decodeRecord_ok.symm
  refine ⟨exists_congr fun f => (hiff bs f).symm, hiff bs, fun bs' f h h' => ?_⟩
  have henc := (hiff bs f).2 h
  have henc' := (hiff bs' f).2 h'
  exact Except.ok.inj (henc.symm.trans henc')

/-- The one record of a message of two octets. -/
def helloRecord : Bytes :=
  [77, 82, 1, 1, 0, 0, 0, 0, 0, 1, 0, 0, 0, 2, 0, 0, 0, 2] ++ List.replicate 16 7 ++
    List.replicate 16 0 ++ [104, 105]

theorem record_canonical_hello :
    encodeRecord { channelId := List.replicate 16 7
                   messageId := List.replicate 16 0
                   fragmentIndex := 0
                   fragmentCount := 1
                   logicalLength := 2
                   payload := [104, 105] } = .ok helloRecord :=
  ((record_canonical helloRecord).2.1 _).2 (by decide)

end Canonical

end Framing

end MercuryRelay
