/-
  What the source does to text that it shows: `replace`, `strip`, and a cut that
  ends between two characters.

  * `replace_subset`, `strip_sublist`: what is left of a text was there before;
  * `truncate_spec`: the cut text begins the text, and fits.
-/
import Mathlib.Algebra.Order.BigOperators.Group.List
import Mathlib.Algebra.Order.Ring.Nat
import MercuryRelay.Python.JsonSize
import MercuryRelay.Python.Utf8

set_option autoImplicit false

namespace Python

/-- `s.replace(old, new)`, while some characters of an `old` are passed over. -/
def replaceFrom (old new : Str) : ℕ → Str → Str
  | _, [] => []
  | skip + 1, _ :: s => replaceFrom old new skip s
  | 0, c :: s =>
    if old.isPrefixOf (c :: s) then new ++ replaceFrom old new (old.length - 1) s
    else c :: replaceFrom old new 0 s

/-- `s.replace(old, new)`, for an `old` that is not empty. -/
def replace (old new s : Str) : Str := replaceFrom old new 0 s

/-- `s.lstrip()`. -/
def lstrip (s : Str) : Str := s.dropWhile isSpace

/-- `s.rstrip()`. -/
def rstrip (s : Str) : Str := (s.reverse.dropWhile isSpace).reverse

/-- `s.strip()`. -/
def strip (s : Str) : Str := rstrip (lstrip s)

/-- `s.startswith(start)`. -/
def startsWith (s start : Str) : Bool := start.isPrefixOf s

/-- The characters before the octets that do not decode. -/
def decodeValid : ℕ → Bytes → Str
  | fuel + 1, a :: bs =>
    let octets := (a :: bs).take (leadWidth a)
    if utf8Char (scalar octets) = some octets then
      scalar octets :: decodeValid fuel ((a :: bs).drop (leadWidth a))
    else []
  | _, _ => []

/-- `_truncate_utf8`: what is left of a character that was cut does not decode, and is
    cut too; `none` is the `UnicodeEncodeError`. -/
def truncateUtf8 (value : Str) (byteLimit : ℕ) : Option Str :=
  (utf8 value).map fun encoded =>
    if encoded.length ≤ byteLimit then value
    else decodeValid encoded.length (encoded.take byteLimit)

variable {old new s t : Str} {c limit : ℕ}

/-! ## What is left was there before -/

theorem replaceFrom_subset (skip : ℕ) : replaceFrom old new skip s ⊆ new ++ s := by
  have hcons : ∀ {t s : Str} {c : ℕ}, t ⊆ new ++ s → t ⊆ new ++ c :: s := fun {t s c} h d hd => by
    rcases List.mem_append.1 (h hd) with hd | hd
    · exact List.mem_append_left _ hd
    · exact List.mem_append_right _ (List.mem_cons_of_mem c hd)
  fun_induction replaceFrom old new skip s with
  | case1 => simp
  | case2 skip c s ih => exact hcons ih
  | case3 c s hbegins ih => exact List.append_subset.2 ⟨List.subset_append_left _ _, hcons ih⟩
  | case4 c s hbegins ih => exact List.cons_subset.2 ⟨by simp, hcons ih⟩

theorem replace_subset : replace old new s ⊆ new ++ s := replaceFrom_subset 0

theorem rstrip_initial : rstrip s <+: s := by
  rw [rstrip, ← List.reverse_suffix, List.reverse_reverse]
  exact List.dropWhile_suffix _

theorem lstrip_suffix : lstrip s <:+ s := List.dropWhile_suffix _

theorem strip_sublist : (strip s).Sublist s := rstrip_initial.sublist.trans lstrip_suffix.sublist

/-- The pieces of `s.split(sep)`, for a single character. -/
theorem mem_splitOn {sep : ℕ} {piece : Str} (h : piece ∈ s.splitOn sep) : sep ∉ piece ∧ piece ⊆ s := by
  induction s generalizing piece with
  | nil =>
    rw [List.splitOn_nil, List.mem_singleton] at h
    simp [h]
  | cons c s ih =>
    rw [List.splitOn_cons_eq_if_modifyHead] at h
    split at h
    · rcases List.mem_cons.1 h with rfl | h
      · simp
      · exact ⟨(ih h).1, fun d hd => List.mem_cons_of_mem c ((ih h).2 hd)⟩
    · rename_i hne
      cases hpieces : s.splitOn sep with
      | nil => exact absurd hpieces (List.splitOn_ne_nil sep s)
      | cons first rest =>
        rw [hpieces] at h ih
        rcases List.mem_cons.1 h with rfl | h
        · obtain ⟨hsep, hsub⟩ := ih List.mem_cons_self
          refine ⟨fun hmem => ?_, List.cons_subset_cons c hsub⟩
          rcases List.mem_cons.1 hmem with rfl | hmem
          · exact hne (beq_self_eq_true _)
          · exact hsep hmem
        · have hrest := ih (List.mem_cons_of_mem first h)
          exact ⟨hrest.1, fun d hd => List.mem_cons_of_mem c (hrest.2 hd)⟩

theorem mem_join {sep : Str} {texts : List Str} (h : c ∈ join sep texts) : c ∈ sep ∨ ∃ text ∈ texts, c ∈ text := by
  fun_induction join sep texts with
  | case1 => cases h
  | case2 text => exact .inr ⟨text, List.mem_cons_self, h⟩
  | case3 text texts hne ih =>
    rcases List.mem_append.1 h with h | h
    · rcases List.mem_append.1 h with h | h
      · exact .inr ⟨text, List.mem_cons_self, h⟩
      · exact .inl h
    · rcases ih h with h | ⟨other, hother, h⟩
      · exact .inl h
      · exact .inr ⟨other, List.mem_cons_of_mem text hother, h⟩

/-! ## Octets -/

/-- The octets of a character. -/
def charWidth (c : ℕ) : ℕ := ((utf8Char c).getD []).length

/-- The octets of a text whose characters encode. -/
def utf8Length (s : Str) : ℕ := (s.map charWidth).sum

theorem length_utf8 {bs : Bytes} (h : utf8 s = some bs) : bs.length = utf8Length s := by
  induction s generalizing bs with
  | nil =>
    cases h
    rfl
  | cons c s ih =>
    obtain ⟨b, bs, hchar, hrest, rfl⟩ := utf8_cons.1 h
    rw [List.length_append, ih hrest, utf8Length, utf8Length, List.map_cons, List.sum_cons, charWidth, hchar]
    rfl

theorem utf8Length_sublist (h : s.Sublist t) : utf8Length s ≤ utf8Length t :=
  List.Sublist.sum_le_sum (h.map charWidth) fun _ _ => Nat.zero_le _

theorem charWidth_pos (h : (utf8Char c).isSome) : 0 < charWidth c := by
  obtain ⟨b, hb⟩ := Option.isSome_iff_exists.1 h
  obtain ⟨a, rest, rfl, -⟩ := utf8Char_lead hb
  rw [charWidth, hb]
  exact Nat.succ_pos _

theorem charWidth_two (h : (utf8Char c).isSome) (hc : 128 ≤ c) : 2 ≤ charWidth c := by
  obtain ⟨b, hb⟩ := Option.isSome_iff_exists.1 h
  rw [charWidth, hb]
  show 2 ≤ b.length
  unfold utf8Char at hb
  rw [if_neg (by omega)] at hb
  repeat' split at hb
  all_goals cases hb
  all_goals simp

/-- Escapes at most double a text that has no control characters. -/
theorem stringOctets_le_double (h : ∀ c ∈ s, 32 ≤ c ∧ (utf8Char c).isSome) :
    stringOctets s ≤ 2 * utf8Length s + 2 := by
  unfold stringOctets utf8Length
  induction s with
  | nil => simp
  | cons c s ih =>
    have hrest := ih fun d hd => h d (List.mem_cons_of_mem c hd)
    obtain ⟨hlow, hc⟩ := h c List.mem_cons_self
    have hone := charWidth_pos hc
    have htwo := charWidth_two hc
    have hchar : charOctets c ≤ 2 * charWidth c := by
      unfold charOctets
      repeat' split
      all_goals omega
    simp only [List.map_cons, List.sum_cons]
    omega

/-! ## The cut -/

theorem decodeValid_prefix {fuel : ℕ} {bs : Bytes} (h : utf8 s = some bs) (hfuel : bs.length ≤ fuel) (limit : ℕ) :
    decodeValid fuel (bs.take limit) <+: s ∧ utf8Length (decodeValid fuel (bs.take limit)) ≤ limit := by
  induction s generalizing fuel bs limit with
  | nil =>
    cases h
    rw [List.take_nil]
    cases fuel <;> simp [decodeValid, utf8Length]
  | cons c s ih =>
    obtain ⟨b, bs, hchar, hrest, rfl⟩ := utf8_cons.1 h
    obtain ⟨a, rest, rfl, hwidth, hscalar⟩ := utf8Char_lead hchar
    cases limit with
    | zero => cases fuel <;> simp [decodeValid, utf8Length]
    | succ limit =>
      cases fuel with
      | zero => simp at hfuel
      | succ fuel =>
        rw [List.cons_append, List.take_succ_cons, decodeValid]
        have htaken : a :: (rest ++ bs).take limit = (a :: rest ++ bs).take (limit + 1) := by
          rw [List.cons_append, List.take_succ_cons]
        split
        · rename_i hvalid
          -- All octets of the character are there.
          have hroom : leadWidth a ≤ limit + 1 := by
            obtain ⟨a', rest', heq, hwidth', -⟩ := utf8Char_lead hvalid
            have hlen := congrArg List.length heq
            have ha : a' = a := by
              have hpos : 0 < leadWidth a := by rw [hwidth]; exact Nat.succ_pos _
              obtain ⟨n, hn⟩ := Nat.exists_eq_succ_of_ne_zero hpos.ne'
              rw [hn, List.take_succ_cons] at heq
              exact (List.cons.inj heq).1.symm
            rw [ha, List.length_take, List.length_cons, List.length_take] at hwidth'
            omega
          have hoctets : (a :: (rest ++ bs).take limit).take (leadWidth a) = a :: rest := by
            rw [htaken, List.take_take, Nat.min_eq_left hroom, hwidth, List.take_left]
          have hleft : (a :: (rest ++ bs).take limit).drop (leadWidth a) =
              bs.take (limit + 1 - leadWidth a) := by
            rw [htaken, List.drop_take, hwidth, List.drop_left]
          rw [hoctets, hleft, hscalar]
          have hfuel' : bs.length ≤ fuel := by
            simp only [List.cons_append, List.length_cons, List.length_append] at hfuel
            omega
          obtain ⟨hbegins, hlen⟩ := ih hrest hfuel' (limit + 1 - leadWidth a)
          refine ⟨List.prefix_cons_inj c |>.2 hbegins, ?_⟩
          have hc : charWidth c = leadWidth a := by
            rw [charWidth, hchar, hwidth]
            rfl
          rw [utf8Length, List.map_cons, List.sum_cons, hc]
          show leadWidth a + utf8Length _ ≤ limit + 1
          omega
        · exact ⟨List.nil_prefix, Nat.zero_le _⟩

/-- **The cut** text begins the text, and fits. -/
theorem truncate_spec (h : ∀ c ∈ s, (utf8Char c).isSome) (limit : ℕ) :
    ∃ t, truncateUtf8 s limit = some t ∧ t <+: s ∧ utf8Length t ≤ limit := by
  obtain ⟨bs, hbs⟩ := Option.isSome_iff_exists.1 (utf8_isSome_iff.2 h)
  rw [truncateUtf8, hbs, Option.map_some]
  split
  · rename_i hfits
    exact ⟨s, rfl, List.prefix_refl s, length_utf8 hbs ▸ hfits⟩
  · exact ⟨_, rfl, decodeValid_prefix hbs le_rfl limit⟩

example : truncateUtf8 [0x41, 0x1F600, 0x42] 4 = some [0x41] := by decide

end Python
