/-
  The cut of a text (push_preview.py, `_truncate_utf8`).

  The octets that are kept are decoded; where the decoder says that they do not
  decode, they are cut again, and so on.

  * `cutRounds_two`: the second round is the last one;
  * `truncateUtf8_exact`: what is left is the longest start of the text that fits.
-/
import MercuryRelay.Push.PreviewSize

set_option autoImplicit false

namespace MercuryRelay

open Python

/-! ## The decoder and its errors -/

/-- Decode octets from `start` on. -/
def decodeStarting : ℕ → ℕ → Bytes → Except ℕ Str
  | _, _, [] => .ok []
  | 0, start, _ => .error start
  | fuel + 1, start, a :: bs =>
    let octets := (a :: bs).take (leadWidth a)
    if utf8Char (scalar octets) = some octets then
      (decodeStarting fuel (start + octets.length) ((a :: bs).drop (leadWidth a))).map (scalar octets :: ·)
    else .error start

/-- `encoded.decode("utf-8")`; the error is the `start` of the `UnicodeDecodeError`. -/
def decodeStrict (encoded : Bytes) : Except ℕ Str := decodeStarting encoded.length 0 encoded

/-- The loop of `_truncate_utf8`, for so many rounds; `none` where it is not done. -/
def cutRounds : ℕ → Bytes → Option Str
  | 0, _ => none
  | rounds + 1, encoded =>
    match decodeStrict encoded with
    | .ok text => some text
    | .error start => cutRounds rounds (encoded.take start)

/-- `_truncate_utf8`, for so many rounds; the outer `none` is the `UnicodeEncodeError`. -/
def truncateRounds (rounds : ℕ) (value : Str) (byteLimit : ℕ) : Option (Option Str) :=
  (utf8 value).map fun encoded =>
    if encoded.length ≤ byteLimit then some value else cutRounds rounds (encoded.take byteLimit)

variable {s t u : Str} {bs : Bytes} {fuel start limit rounds : ℕ}

theorem leadWidth_pos (a : UInt8) : 1 ≤ leadWidth a := by
  unfold leadWidth
  repeat' split
  all_goals omega

/-- What a verdict of the decoder means. -/
def Decoded (fuel start : ℕ) (bs : Bytes) : Except ℕ Str → Prop
  | .ok text => utf8 text = some bs ∧ decodeValid fuel bs = text
  | .error at_ => start ≤ at_ ∧ utf8 (decodeValid fuel bs) = some (bs.take (at_ - start))

/-- **An error** is where the characters end that decode. -/
theorem decodeStarting_spec (hfuel : bs.length ≤ fuel) : Decoded fuel start bs (decodeStarting fuel start bs) := by
  induction fuel generalizing start bs with
  | zero =>
    obtain rfl := List.length_eq_zero_iff.1 (Nat.le_zero.1 hfuel)
    exact ⟨rfl, rfl⟩
  | succ fuel ih =>
    cases bs with
    | nil => exact ⟨rfl, rfl⟩
    | cons a bs =>
      have hwidth := leadWidth_pos a
      have hrest : ((a :: bs).drop (leadWidth a)).length ≤ fuel := by
        rw [List.length_drop]
        omega
      have hsplit : (a :: bs).take (leadWidth a) ++ (a :: bs).drop (leadWidth a) = a :: bs := List.take_append_drop _ _
      generalize hoctets : (a :: bs).take (leadWidth a) = octets at hsplit
      generalize hdrop : (a :: bs).drop (leadWidth a) = rest at hsplit hrest
      have hih := @ih rest (start + octets.length) hrest
      have hkeeps : decodeValid (fuel + 1) (a :: bs) =
          if utf8Char (scalar octets) = some octets then scalar octets :: decodeValid fuel rest else [] := by
        simp only [decodeValid, hoctets, hdrop]
      simp only [decodeStarting, hoctets, hdrop]
      split
      · rename_i hvalid
        rw [if_pos hvalid] at hkeeps
        cases hdecode : decodeStarting fuel (start + octets.length) rest with
        | ok text =>
          rw [hdecode] at hih
          obtain ⟨htext, hkept⟩ := hih
          exact ⟨utf8_cons.2 ⟨_, _, hvalid, htext, hsplit.symm⟩, by rw [hkeeps, hkept]⟩
        | error at_ =>
          rw [hdecode] at hih
          obtain ⟨hle, hkept⟩ := hih
          refine ⟨by omega, ?_⟩
          rw [hkeeps]
          refine utf8_cons.2 ⟨_, _, hvalid, hkept, ?_⟩
          have hat : at_ - start = octets.length + (at_ - (start + octets.length)) := by omega
          rw [← hsplit, hat, List.take_length_add_append]
      · rename_i hinvalid
        rw [if_neg hinvalid] at hkeeps
        refine ⟨le_rfl, ?_⟩
        rw [hkeeps, Nat.sub_self]
        rfl

theorem decodeStarting_toOption : (decodeStarting fuel start bs).toOption = decodeFrom fuel bs := by
  induction fuel generalizing start bs with
  | zero => cases bs <;> rfl
  | succ fuel ih =>
    cases bs with
    | nil => rfl
    | cons a bs =>
      simp only [decodeStarting, decodeFrom]
      split
      · rw [← @ih _ (start + ((a :: bs).take (leadWidth a)).length)]
        cases decodeStarting fuel (start + ((a :: bs).take (leadWidth a)).length) ((a :: bs).drop (leadWidth a)) <;> rfl
      · rfl

/-- Octets that encode a text decode. -/
theorem decodeStarting_utf8 (h : utf8 t = some bs) (hfuel : bs.length ≤ fuel) : decodeStarting fuel start bs = .ok t := by
  have hdecode := @decodeStarting_toOption bs fuel start
  rw [decodeFrom_complete h hfuel] at hdecode
  cases hresult : decodeStarting fuel start bs with
  | ok text =>
    rw [hresult] at hdecode
    rw [Option.some.inj hdecode]
  | error at_ =>
    rw [hresult] at hdecode
    cases hdecode

theorem decodeValid_fuel {fuel' : ℕ} (h : bs.length ≤ fuel) (h' : bs.length ≤ fuel') :
    decodeValid fuel bs = decodeValid fuel' bs := by
  induction fuel generalizing bs fuel' with
  | zero =>
    obtain rfl := List.length_eq_zero_iff.1 (Nat.le_zero.1 h)
    cases fuel' <;> rfl
  | succ fuel ih =>
    cases bs with
    | nil => cases fuel' <;> rfl
    | cons a bs =>
      cases fuel' with
      | zero => cases h'
      | succ fuel' =>
        have hwidth := leadWidth_pos a
        have hlen : ((a :: bs).drop (leadWidth a)).length ≤ bs.length := by
          rw [List.length_drop, List.length_cons]
          omega
        rw [List.length_cons, Nat.succ_le_succ_iff] at h h'
        simp only [decodeValid]
        rw [ih (hlen.trans h) (hlen.trans h')]

/-- **The second round** of the loop is the last one. -/
theorem cutRounds_two (hrounds : 2 ≤ rounds) (hfuel : bs.length ≤ fuel) :
    cutRounds rounds bs = some (decodeValid fuel bs) := by
  rw [decodeValid_fuel hfuel le_rfl]
  obtain ⟨rounds, rfl⟩ : ∃ n, rounds = n + 2 := ⟨rounds - 2, by omega⟩
  have hspec := @decodeStarting_spec bs bs.length 0 le_rfl
  rw [cutRounds, decodeStrict]
  cases hdecode : decodeStarting bs.length 0 bs with
  | ok text =>
    rw [hdecode] at hspec
    show some text = _
    rw [hspec.2]
  | error at_ =>
    rw [hdecode] at hspec
    have hkept := hspec.2
    rw [Nat.sub_zero] at hkept
    show cutRounds (rounds + 1) (bs.take at_) = _
    rw [cutRounds, decodeStrict, decodeStarting_utf8 hkept le_rfl]

/-! ## The longest start -/

/-- The octets of a text, if it encodes, are so many at most. -/
def FitsUtf8 (text : Str) (limit : ℕ) : Prop := ∃ encoded, utf8 text = some encoded ∧ encoded.length ≤ limit

/-- The longest start of a text, in whole characters, that fits. -/
structure LongestStart (s : Str) (limit : ℕ) (t : Str) : Prop where
  start : t <+: s
  fits : FitsUtf8 t limit
  longest : ∀ u, u <+: s → FitsUtf8 u limit → u <+: t

/-- What encodes at the start is kept. -/
theorem prefix_decodeValid {encoded rest : Bytes} (h : utf8 u = some encoded) (hfuel : (encoded ++ rest).length ≤ fuel) :
    u <+: decodeValid fuel (encoded ++ rest) := by
  induction u generalizing encoded fuel with
  | nil => exact List.nil_prefix
  | cons c u ih =>
    obtain ⟨b, bs, hchar, hrest, rfl⟩ := utf8_cons.1 h
    obtain ⟨a, tail, rfl, hwidth, hscalar⟩ := utf8Char_lead hchar
    cases fuel with
    | zero => simp at hfuel
    | succ fuel =>
      have htake : ((a :: tail) ++ (bs ++ rest)).take (leadWidth a) = a :: tail := by
        rw [hwidth, List.take_left]
      have hdrop : ((a :: tail) ++ (bs ++ rest)).drop (leadWidth a) = bs ++ rest := by
        rw [hwidth, List.drop_left]
      have hlen : (bs ++ rest).length ≤ fuel := by
        simp only [List.cons_append, List.length_cons, List.length_append] at hfuel ⊢
        omega
      rw [List.append_assoc]
      rw [List.cons_append] at htake hdrop ⊢
      simp only [decodeValid]
      rw [htake, hdrop, hscalar, if_pos hchar]
      exact List.prefix_cons_inj c |>.2 (ih hrest hlen)

theorem utf8_of_prefix {encoded : Bytes} (h : utf8 s = some encoded) (hu : u <+: s) :
    ∃ bs rest, utf8 u = some bs ∧ encoded = bs ++ rest := by
  obtain ⟨v, rfl⟩ := hu
  rw [utf8_append, Option.bind_eq_some_iff] at h
  obtain ⟨bs, hbs, h⟩ := h
  obtain ⟨rest, -, rfl⟩ := Option.map_eq_some_iff.1 h
  exact ⟨bs, rest, hbs, rfl⟩

/-- The cut leaves the longest start. -/
theorem longestStart_of_cut {encoded : Bytes} (h : utf8 s = some encoded) (hlong : ¬ encoded.length ≤ limit) :
    LongestStart s limit (decodeValid encoded.length (encoded.take limit)) := by
  obtain ⟨hstart, hlen⟩ := decodeValid_prefix h le_rfl limit
  refine ⟨hstart, ?_, ?_⟩
  · obtain ⟨bs, -, hbs, -⟩ := utf8_of_prefix h hstart
    exact ⟨bs, hbs, (length_utf8 hbs).le.trans hlen⟩
  · rintro u hu ⟨bs, hbs, hfits⟩
    obtain ⟨bs', rest, hbs', rfl⟩ := utf8_of_prefix h hu
    obtain rfl := Option.some.inj (hbs.symm.trans hbs')
    have htake : (bs ++ rest).take limit = bs ++ rest.take (limit - bs.length) := by
      rw [List.take_append, List.take_of_length_le hfits]
    rw [htake]
    refine prefix_decodeValid hbs ?_
    simp only [List.length_append, List.length_take]
    omega

theorem longestStart_self {encoded : Bytes} (h : utf8 s = some encoded) (hfits : encoded.length ≤ limit) :
    LongestStart s limit s := ⟨List.prefix_rfl, ⟨encoded, h, hfits⟩, fun _ hu _ => hu⟩

theorem fitsUtf8_of_chars (h : ∀ c ∈ t, (utf8Char c).isSome) (hlen : utf8Length t ≤ limit) : FitsUtf8 t limit := by
  obtain ⟨encoded, hencoded⟩ := Option.isSome_iff_exists.1 (utf8_isSome_iff.2 h)
  exact ⟨encoded, hencoded, (length_utf8 hencoded).le.trans hlen⟩

/-- **The loop ends**, in its second round at the latest, with the longest start that fits; so excerpts and
    titles fit their bounds, whatever they are made of. -/
theorem truncateUtf8_exact (s : Str) (limit : ℕ) (h : (utf8 s).isSome) :
    (∃ t, (∀ rounds, 2 ≤ rounds → truncateRounds rounds s limit = some (some t)) ∧ truncateUtf8 s limit = some t ∧
      LongestStart s limit t) ∧
      ∀ (data : UnicodeData) (value : Option Str) (text : Str),
        (Preview.completionExcerpt data value = .ok (some text) → FitsUtf8 text 640) ∧
        (Preview.normalizeTitle data value = .ok (some text) → FitsUtf8 text 160) := by
  constructor
  · obtain ⟨encoded, hencoded⟩ := Option.isSome_iff_exists.1 h
    by_cases hfits : encoded.length ≤ limit
    · refine ⟨s, fun rounds _ => ?_, ?_, longestStart_self hencoded hfits⟩
      · rw [truncateRounds, hencoded, Option.map_some, if_pos hfits]
      · rw [truncateUtf8, hencoded, Option.map_some, if_pos hfits]
    · refine ⟨_, fun rounds hrounds => ?_, ?_, longestStart_of_cut hencoded hfits⟩
      · rw [truncateRounds, hencoded, Option.map_some, if_neg hfits, cutRounds_two hrounds]
        rw [List.length_take]
        omega
      · rw [truncateUtf8, hencoded, Option.map_some, if_neg hfits]
  · intro data value text
    constructor
    · intro htext
      obtain ⟨excerpt, hexcerpt, hspec⟩ := @Preview.completionExcerpt_spec data value
      rw [htext] at hexcerpt
      obtain ⟨-, hchars, -, hlen⟩ := hspec text (Except.ok.inj hexcerpt).symm
      exact fitsUtf8_of_chars hchars hlen
    · intro htext
      obtain ⟨title, htitle, hspec⟩ := @Preview.normalizeTitle_spec data value
      rw [htext] at htitle
      obtain ⟨-, hplain, hlen⟩ := hspec text (Except.ok.inj htitle).symm
      exact fitsUtf8_of_chars (fun c hc => (Preview.plain_of_other (hplain c hc)).2) hlen

/-- A cut within a character of four octets. -/
theorem truncateUtf8_exact_split : ∃ t, truncateRounds 2 [0x41, 0x1F600, 0x42] 4 = some (some t) ∧
    LongestStart [0x41, 0x1F600, 0x42] 4 t ∧ t = [0x41] := by
  obtain ⟨t, hrounds, hcut, hlongest⟩ := (truncateUtf8_exact [0x41, 0x1F600, 0x42] 4 (by decide)).1
  have hvalue : truncateUtf8 [0x41, 0x1F600, 0x42] 4 = some [0x41] := by decide
  exact ⟨t, hrounds 2 le_rfl, hlongest, Option.some.inj (hcut.symm.trans hvalue)⟩

end MercuryRelay
