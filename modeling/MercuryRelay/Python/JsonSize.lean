/-
  How many octets a written JSON value takes.

  `fitsIn_write`: a value whose strings encode is written in at most
  `Json.octets` of them.
-/
import Mathlib.Algebra.BigOperators.Group.List.Lemmas
import MercuryRelay.Python.Json

set_option autoImplicit false

namespace Python

/-- `ensure_ascii=False, separators=(",", ":"), sort_keys=True`. -/
def compactStored : DumpStyle := ⟨false, lit ",", lit ":", true⟩

/-- The text encodes, in at most `n` octets. -/
def FitsIn (t : Str) (n : ℕ) : Prop := ∃ bs, utf8 t = some bs ∧ bs.length ≤ n

variable {s t : Str} {m n : ℕ}

theorem FitsIn.mono (h : FitsIn t m) (hmn : m ≤ n) : FitsIn t n := by
  obtain ⟨bs, h1, h2⟩ := h
  exact ⟨bs, h1, h2.trans hmn⟩

theorem FitsIn.append (hs : FitsIn s m) (ht : FitsIn t n) : FitsIn (s ++ t) (m + n) := by
  obtain ⟨as, h1, h2⟩ := hs
  obtain ⟨bs, h3, h4⟩ := ht
  refine ⟨as ++ bs, by simp [utf8_append, h1, h3], ?_⟩
  rw [List.length_append]
  omega

theorem fitsIn_nil : FitsIn [] 0 := ⟨[], rfl, le_rfl⟩

/-- A character takes four octets at most. -/
theorem fitsIn_char {c : ℕ} (h : (utf8Char c).isSome) : FitsIn [c] (if c < 128 then 1 else 4) := by
  obtain ⟨bs, hb⟩ := Option.isSome_iff_exists.1 h
  refine ⟨bs, by simp [utf8, hb], ?_⟩
  unfold utf8Char at hb
  split at hb
  · rename_i hc
    cases hb
    rw [if_pos hc]
    exact le_rfl
  · rename_i hc
    rw [if_neg hc]
    repeat' split at hb
    all_goals cases hb
    all_goals simp

theorem fitsIn_ascii (h : Ascii t) : FitsIn t t.length := by
  induction t with
  | nil => exact fitsIn_nil
  | cons c t ih =>
    have hc : c < 128 := h c List.mem_cons_self
    have h1 := fitsIn_char (utf8Char_ascii hc)
    rw [if_pos hc] at h1
    have h2 := h1.append (ih (h.subset (List.subset_cons_self c t)))
    exact h2.mono (by rw [List.length_cons]; omega)

/-- The octets of a joined list, a separator counted with each text. -/
theorem fitsIn_join {sep : Str} (hsep : FitsIn sep 1) {α : Type} {f : α → Str} {size : α → ℕ}
    {as : List α} (h : ∀ a ∈ as, FitsIn (f a) (size a)) :
    FitsIn (join sep (as.map f)) (as.map fun a => size a + 1).sum := by
  induction as with
  | nil => exact fitsIn_nil
  | cons a as ih =>
    have ha := h a List.mem_cons_self
    have hrest := ih fun b hb => h b (List.mem_cons_of_mem a hb)
    cases as with
    | nil => exact ha.mono (by simp)
    | cons b as => exact (ha.append hsep).append hrest

theorem fitsIn_bracket {a b : ℕ} (ha : a < 128) (hb : b < 128) (h : FitsIn t n) :
    FitsIn (a :: t ++ [b]) (n + 2) := by
  have hl : FitsIn [a] 1 := fitsIn_ascii (by simpa [Ascii] using ha)
  have hr : FitsIn [b] 1 := fitsIn_ascii (by simpa [Ascii] using hb)
  exact ((hl.append h).append hr).mono (by omega)

/-! ## Strings -/

/-- The octets of a character in a string literal, at most. -/
def charOctets (c : ℕ) : ℕ :=
  if c = 34 ∨ c = 92 then 2 else if c < 32 then 6 else if c < 128 then 1 else 4

/-- The octets of a string literal, at most. -/
def stringOctets (s : Str) : ℕ := (s.map charOctets).sum + 2

theorem charOctets_le (c : ℕ) : charOctets c ≤ 6 := by
  unfold charOctets
  repeat' split
  all_goals decide

theorem fitsIn_writeChar {c : ℕ} (h : (utf8Char c).isSome) :
    FitsIn (writeChar false c) (charOctets c) := by
  by_cases hq : c = 34 ∨ c = 92
  · rw [writeChar, if_pos hq, charOctets, if_pos hq]
    refine fitsIn_ascii ?_
    rcases hq with rfl | rfl <;> decide
  · by_cases hc : c < 32
    · have ho : charOctets c = 6 := by simp [charOctets, hq, hc]
      have hs : Ascii (writeChar false c) ∧ (writeChar false c).length ≤ 6 := by
        unfold writeChar
        rw [if_neg hq]
        repeat' split
        · exact ⟨by decide, by decide⟩
        · exact ⟨by decide, by decide⟩
        · exact ⟨by decide, by decide⟩
        · exact ⟨by decide, by decide⟩
        · exact ⟨by decide, by decide⟩
        · exact ⟨escapeU_ascii c, le_rfl⟩
      rw [ho]
      exact (fitsIn_ascii hs.1).mono hs.2
    · have hs : writeChar false c = [c] := by
        unfold writeChar
        rw [if_neg hq]
        repeat rw [if_neg (by omega)]
        simp
      have ho : charOctets c = if c < 128 then 1 else 4 := by simp [charOctets, hq, hc]
      rw [hs, ho]
      exact fitsIn_char h

theorem fitsIn_writeString (h : (utf8 s).isSome) : FitsIn (writeString false s) (stringOctets s) := by
  have hs : FitsIn (s.flatMap (writeChar false)) (s.map charOctets).sum := by
    rw [utf8_isSome_iff] at h
    induction s with
    | nil => exact fitsIn_nil
    | cons c s ih =>
      have hc := fitsIn_writeChar (h c List.mem_cons_self)
      simpa using hc.append (ih fun d hd => h d (List.mem_cons_of_mem c hd))
  exact fitsIn_bracket (by decide) (by decide) hs

/-- Six octets a character are enough. -/
theorem stringOctets_le (s : Str) : stringOctets s ≤ 6 * s.length + 2 := by
  unfold stringOctets
  induction s with
  | nil => simp
  | cons c s ih =>
    have hc := charOctets_le c
    simp only [List.map_cons, List.sum_cons, List.length_cons]
    omega

/-- Plain characters take one octet each. -/
theorem stringOctets_plain (h : ∀ c ∈ s, charOctets c = 1) : stringOctets s = s.length + 2 := by
  have hs : s.map charOctets = List.replicate s.length 1 := by
    rw [List.eq_replicate_iff]
    refine ⟨List.length_map _, ?_⟩
    intro n hn
    obtain ⟨c, hc, rfl⟩ := List.mem_map.1 hn
    exact h c hc
  simp [stringOctets, hs]

/-! ## Values -/

namespace Json

mutual

/-- The octets of a written value, at most. -/
def octets : Json → ℕ
  | null => 4
  | bool _ => 5
  | int n => (intRepr n).length
  | float x => (floatRepr x).length
  | str s => stringOctets s
  | arr items => itemsOctets items + 2
  | obj members => membersOctets members + 2

def itemsOctets : List Json → ℕ
  | [] => 0
  | v :: vs => octets v + 1 + itemsOctets vs

def membersOctets : List (Str × Json) → ℕ
  | [] => 0
  | (k, v) :: ms => stringOctets k + 1 + octets v + 1 + membersOctets ms

end

theorem itemsOctets_eq (vs : List Json) : itemsOctets vs = (vs.map fun v => v.octets + 1).sum := by
  induction vs with
  | nil => rfl
  | cons v vs ih => simp [itemsOctets, ih]

theorem membersOctets_eq (ms : List (Str × Json)) :
    membersOctets ms = (ms.map fun m => stringOctets m.1 + 1 + m.2.octets + 1).sum := by
  induction ms with
  | nil => rfl
  | cons m ms ih => simp [membersOctets, ih]

theorem encodableItems_iff {vs : List Json} :
    encodableItems vs = true ↔ ∀ v ∈ vs, v.encodable = true := by
  induction vs with
  | nil => simp [encodableItems]
  | cons v vs ih => simp [encodableItems, ih]

theorem encodableMembers_iff {ms : List (Str × Json)} :
    encodableMembers ms = true ↔ ∀ m ∈ ms, (utf8 m.1).isSome ∧ m.2.encodable = true := by
  induction ms with
  | nil => simp [encodableMembers]
  | cons m ms ih => simp [encodableMembers, ih, and_assoc]

/-- Sorting by keys keeps the members. -/
theorem insertMember_perm {α : Type} (m : Str × α) (ms : List (Str × α)) :
    (sortMembers.insertMember m ms).Perm (m :: ms) := by
  induction ms with
  | nil => exact .refl _
  | cons x xs ih =>
    unfold sortMembers.insertMember
    split
    · exact .refl _
    · exact (ih.cons x).trans (.swap m x xs)

theorem sortMembers_perm {α : Type} (ms : List (Str × α)) : (sortMembers ms).Perm ms := by
  induction ms with
  | nil => exact .refl _
  | cons m ms ih => exact (insertMember_perm m _).trans (ih.cons m)

/-- Sorting looks at the keys only. -/
theorem insertMember_map {α β : Type} (f : α → β) (m : Str × α) (ms : List (Str × α)) :
    sortMembers.insertMember (m.1, f m.2) (ms.map fun x => (x.1, f x.2)) =
      (sortMembers.insertMember m ms).map fun x => (x.1, f x.2) := by
  induction ms with
  | nil => rfl
  | cons x xs ih =>
    simp only [List.map_cons, sortMembers.insertMember]
    split
    · rfl
    · rw [ih, List.map_cons]

theorem sortMembers_map {α β : Type} (f : α → β) (ms : List (Str × α)) :
    sortMembers (ms.map fun x => (x.1, f x.2)) = (sortMembers ms).map fun x => (x.1, f x.2) := by
  induction ms with
  | nil => rfl
  | cons m ms ih =>
    have h : sortMembers ((m :: ms).map fun x => (x.1, f x.2)) =
        sortMembers.insertMember (m.1, f m.2) (sortMembers (ms.map fun x => (x.1, f x.2))) := rfl
    rw [h, ih, insertMember_map]
    rfl

end Json

theorem writeItems_eq (style : DumpStyle) (vs : List Json) :
    writeItems style vs = vs.map (write style) := by
  induction vs with
  | nil => rfl
  | cons v vs ih => rw [writeItems, ih, List.map_cons]

theorem writeMembers_eq (style : DumpStyle) (ms : List (Str × Json)) :
    writeMembers style ms = ms.map fun m => (m.1, write style m.2) := by
  induction ms with
  | nil => rfl
  | cons m ms ih => rw [writeMembers, ih, List.map_cons]

section Writing

variable {style : DumpStyle}

/-- Texts are not escaped to ASCII, and separators take an octet. -/
structure DumpStyle.Compact (style : DumpStyle) : Prop where
  unicode : style.ensureAscii = false
  item : FitsIn style.itemSeparator 1
  key : FitsIn style.keySeparator 1

theorem compactStored_compact : compactStored.Compact := ⟨rfl, fitsIn_ascii (by decide), fitsIn_ascii (by decide)⟩

theorem compactUnicode_compact : compactUnicode.Compact := ⟨rfl, fitsIn_ascii (by decide), fitsIn_ascii (by decide)⟩

/-- The text of a list is as long as its items and their separators. -/
theorem fitsIn_items (hstyle : style.Compact) {vs : List Json} (h : ∀ v ∈ vs, FitsIn (write style v) v.octets) :
    FitsIn (join style.itemSeparator (writeItems style vs)) (Json.itemsOctets vs) := by
  rw [writeItems_eq, Json.itemsOctets_eq]
  exact fitsIn_join hstyle.item h

theorem fitsIn_member (hstyle : style.Compact) {m : Str × Json} (hk : (utf8 m.1).isSome)
    (hv : FitsIn (write style m.2) m.2.octets) :
    FitsIn (writeString style.ensureAscii m.1 ++ style.keySeparator ++ write style m.2)
      (stringOctets m.1 + 1 + m.2.octets) := by
  rw [hstyle.unicode]
  exact ((fitsIn_writeString hk).append hstyle.key).append hv

/-- The text of an object is as long as its members and their separators. -/
theorem fitsIn_members (hstyle : style.Compact) {ms : List (Str × Json)}
    (h : ∀ m ∈ ms, (utf8 m.1).isSome ∧ FitsIn (write style m.2) m.2.octets) :
    FitsIn (join style.itemSeparator
      ((if style.sortKeys then Json.sortMembers (writeMembers style ms) else writeMembers style ms).map fun (k, t) =>
        writeString style.ensureAscii k ++ style.keySeparator ++ t)) (Json.membersOctets ms) := by
  rw [writeMembers_eq, Json.sortMembers_map, Json.membersOctets_eq]
  split
  · rw [List.map_map, ← ((Json.sortMembers_perm ms).map _).sum_eq]
    refine fitsIn_join hstyle.item fun m hm => ?_
    obtain ⟨hk, hv⟩ := h m ((Json.sortMembers_perm ms).subset hm)
    exact fitsIn_member hstyle hk hv
  · rw [List.map_map]
    refine fitsIn_join hstyle.item fun m hm => ?_
    obtain ⟨hk, hv⟩ := h m hm
    exact fitsIn_member hstyle hk hv

mutual

/-- **A value is written in at most `octets` octets**, if its strings encode. -/
theorem fitsIn_write (hstyle : style.Compact) : ∀ v : Json, v.encodable = true → FitsIn (write style v) v.octets
  | .null, _ => by simp only [write, Json.octets]; exact fitsIn_ascii (by decide)
  | .bool b, _ => by
    simp only [write, Json.octets]
    cases b
    · exact fitsIn_ascii (by decide)
    · exact (fitsIn_ascii (by decide)).mono (by decide)
  | .int n, _ => by simp only [write, Json.octets]; exact fitsIn_ascii (intRepr_ascii n)
  | .float x, _ => by simp only [write, Json.octets]; exact fitsIn_ascii (floatRepr_ascii x)
  | .str s, h => by
    simp only [write, Json.octets, hstyle.unicode]
    exact fitsIn_writeString (by simpa only [Json.encodable] using h)
  | .arr items, h => by
    rw [write, Json.octets]
    refine fitsIn_bracket (by decide) (by decide) (fitsIn_items hstyle ?_)
    exact fitsIn_writeItems hstyle items (by simpa only [Json.encodable] using h)
  | .obj members, h => by
    rw [write, Json.octets]
    refine fitsIn_bracket (by decide) (by decide) (fitsIn_members hstyle ?_)
    exact fitsIn_writeMembers hstyle members (by simpa only [Json.encodable] using h)

theorem fitsIn_writeItems (hstyle : style.Compact) : ∀ vs : List Json, Json.encodableItems vs = true →
    ∀ v ∈ vs, FitsIn (write style v) v.octets
  | [], _ => by simp
  | v :: vs, h => by
    simp only [Json.encodableItems, Bool.and_eq_true] at h
    rw [List.forall_mem_cons]
    exact ⟨fitsIn_write hstyle v h.1, fitsIn_writeItems hstyle vs h.2⟩

theorem fitsIn_writeMembers (hstyle : style.Compact) : ∀ ms : List (Str × Json), Json.encodableMembers ms = true →
    ∀ m ∈ ms, (utf8 m.1).isSome ∧ FitsIn (write style m.2) m.2.octets
  | [], _ => by simp
  | (k, v) :: ms, h => by
    simp only [Json.encodableMembers, Bool.and_eq_true] at h
    rw [List.forall_mem_cons]
    exact ⟨⟨h.1.1, fitsIn_write hstyle v h.1.2⟩, fitsIn_writeMembers hstyle ms h.2⟩

end

end Writing

/-- The digits of a number below a power of ten. -/
theorem length_natDigits_le {n d : ℕ} (hd : 0 < d) (h : n < 10 ^ d) : (natDigits n).length ≤ d := by
  rw [natDigits, List.length_map]
  exact (Nat.length_toDigits_le_iff (by decide) hd).2 h

end Python
