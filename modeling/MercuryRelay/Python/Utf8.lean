/-
  `bytes.decode("utf-8", errors="strict")`.

  * `decodeUtf8_iff`: decoding finds the text that encodes to the octets.
-/
import MercuryRelay.Python.Text

set_option autoImplicit false

namespace Python

/-- How many octets begin with this one. -/
def leadWidth (a : UInt8) : ℕ :=
  if a.toNat < 0x80 then 1 else if a.toNat < 0xE0 then 2 else if a.toNat < 0xF0 then 3 else 4

/-- The code point that the bits of the octets make up. -/
def scalar : Bytes → ℕ
  | [a] => a.toNat
  | [a, b] => a.toNat % 32 * 64 + b.toNat % 64
  | [a, b, c] => a.toNat % 16 * 4096 + b.toNat % 64 * 64 + c.toNat % 64
  | [a, b, c, d] => a.toNat % 8 * 262144 + b.toNat % 64 * 4096 + c.toNat % 64 * 64 + d.toNat % 64
  | _ => 0

/-- Read code points; octets that are not those of their code point are refused. -/
def decodeFrom : ℕ → Bytes → Option Str
  | _, [] => some []
  | 0, _ => none
  | fuel + 1, a :: bs =>
    let octets := (a :: bs).take (leadWidth a)
    if utf8Char (scalar octets) = some octets then
      (decodeFrom fuel ((a :: bs).drop (leadWidth a))).map (scalar octets :: ·)
    else none

/-- `bs.decode("utf-8")`; `none` is the `UnicodeDecodeError`. -/
def decodeUtf8 (bs : Bytes) : Option Str := decodeFrom bs.length bs

variable {c fuel : ℕ} {s : Str} {b bs : Bytes}

/-- The octets of a code point tell how many they are, and which. -/
theorem utf8Char_lead (h : utf8Char c = some b) :
    ∃ a rest, b = a :: rest ∧ leadWidth a = b.length ∧ scalar b = c := by
  have htoNat : ∀ {n : ℕ}, n < 256 → (UInt8.ofNat n).toNat = n := fun hn => by
    rw [UInt8.toNat_ofNat']
    omega
  unfold utf8Char at h
  split at h
  · cases h
    refine ⟨_, _, rfl, ?_, ?_⟩
    · rw [leadWidth, htoNat (by omega), if_pos (by omega)]
      rfl
    · rw [scalar, htoNat (by omega)]
  · split at h
    · cases h
      refine ⟨_, _, rfl, ?_, ?_⟩
      · rw [leadWidth, htoNat (by omega), if_neg (by omega), if_pos (by omega)]
        rfl
      · rw [scalar, htoNat (by omega), htoNat (by omega)]
        omega
    · split at h
      · cases h
      · split at h
        · cases h
          refine ⟨_, _, rfl, ?_, ?_⟩
          · rw [leadWidth, htoNat (by omega), if_neg (by omega), if_neg (by omega), if_pos (by omega)]
            rfl
          · rw [scalar, htoNat (by omega), htoNat (by omega), htoNat (by omega)]
            omega
        · split at h
          · cases h
            refine ⟨_, _, rfl, ?_, ?_⟩
            · rw [leadWidth, htoNat (by omega), if_neg (by omega), if_neg (by omega), if_neg (by omega)]
              rfl
            · rw [scalar, htoNat (by omega), htoNat (by omega), htoNat (by omega), htoNat (by omega)]
              omega
          · cases h

theorem utf8_cons {t : Str} : utf8 (c :: t) = some bs ↔
    ∃ b bs', utf8Char c = some b ∧ utf8 t = some bs' ∧ bs = b ++ bs' := by
  rw [utf8]
  cases utf8Char c with
  | none => simp
  | some b => cases utf8 t <;> simp [eq_comm]

theorem decodeFrom_sound (h : decodeFrom fuel bs = some s) : utf8 s = some bs := by
  induction fuel generalizing bs s with
  | zero =>
    cases bs with
    | nil => cases h; rfl
    | cons a bs => cases h
  | succ fuel ih =>
    cases bs with
    | nil => cases h; rfl
    | cons a bs =>
      simp only [decodeFrom] at h
      split at h
      · rename_i hchar
        obtain ⟨t, ht, rfl⟩ := Option.map_eq_some_iff.1 h
        exact utf8_cons.2 ⟨_, _, hchar, ih ht, (List.take_append_drop _ _).symm⟩
      · cases h

theorem decodeFrom_complete (h : utf8 s = some bs) (hfuel : bs.length ≤ fuel) :
    decodeFrom fuel bs = some s := by
  induction s generalizing bs fuel with
  | nil =>
    cases h
    cases fuel <;> rfl
  | cons c s ih =>
    obtain ⟨b, bs', hchar, hrest, rfl⟩ := utf8_cons.1 h
    obtain ⟨a, rest, rfl, hwidth, hscalar⟩ := utf8Char_lead hchar
    cases fuel with
    | zero => simp at hfuel
    | succ fuel =>
      have htake : ((a :: rest) ++ bs').take (leadWidth a) = a :: rest := by
        rw [hwidth, List.take_left]
      have hdrop : ((a :: rest) ++ bs').drop (leadWidth a) = bs' := by
        rw [hwidth, List.drop_left]
      have hlen : bs'.length ≤ fuel := by
        simp only [List.cons_append, List.length_cons, List.length_append] at hfuel
        omega
      rw [List.cons_append] at htake hdrop ⊢
      simp only [decodeFrom]
      rw [htake, hdrop, hscalar, if_pos hchar, ih hrest hlen]
      rfl

/-- **Decoding undoes encoding**, and accepts nothing else. -/
theorem decodeUtf8_iff : decodeUtf8 bs = some s ↔ utf8 s = some bs :=
  ⟨decodeFrom_sound, fun h => decodeFrom_complete h (Nat.le_refl _)⟩

example : decodeUtf8 [0xF0, 0x9F, 0x98, 0x80] = some [0x1F600] := by decide

example : decodeUtf8 [0xC0, 0x80] = none := by decide

/-! ## ASCII -/

/-- `s.encode("ascii")`; `none` is the `UnicodeEncodeError`. -/
def encodeAscii (s : Str) : Option Bytes := if Ascii s then some (s.map UInt8.ofNat) else none

theorem encodeAscii_iff {s : Str} : encodeAscii s = some bs ↔ Ascii s ∧ bs = s.map UInt8.ofNat := by
  unfold encodeAscii
  split
  · rename_i h
    simp [h, eq_comm]
  · rename_i h
    simp [h]

/-- ASCII text has one octet a character. -/
theorem Ascii.utf8_eq {s : Str} (h : Ascii s) : Python.utf8 s = some (s.map UInt8.ofNat) := by
  induction s with
  | nil => rfl
  | cons c s ih =>
    have hc : c < 128 := h c List.mem_cons_self
    have hchar : utf8Char c = some [.ofNat c] := by
      unfold utf8Char
      exact if_pos hc
    rw [Python.utf8, hchar, ih (h.subset (List.subset_cons_self c s))]
    rfl

theorem Ascii.decode {s : Str} (h : Ascii s) : decodeUtf8 (s.map UInt8.ofNat) = some s :=
  decodeUtf8_iff.2 h.utf8_eq

end Python
